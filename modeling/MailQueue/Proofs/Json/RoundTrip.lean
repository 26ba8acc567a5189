import MailQueue.Proofs.Json.Float
import MailQueue.Proofs.Value

/-!
# JSON reads back

The text of a value is read as that value, its objects as they were written. Two things may get in
the way: the reader rounds a float up to three times, so that the shortest text of one may be read
as a neighbour, and it stops below a depth of 127.

* `Value.reread` is what is read from the text of a value, at every value;
* `Value.Faithful` leaves out the floats that are not read back, `Value.Legible` those that are not
  read at all, and `Value.depth` counts how deep lists and objects stand;
* `stringTail_chars`: the reader of strings undoes the writer;
* `value_chars`: the reader of values gives what is read back, with what follows left alone;
* `parse_write`: so does the reader of a text as a whole.
-/

namespace MailQueue

namespace Value

mutual

/-- Each float is read back from its text. -/
def Faithful : Value → Prop
  | float x => Json.number (Json.float x) = some (.float x, [])
  | list items => FaithfulItems items
  | object entries => FaithfulEntries entries
  | _ => True

def FaithfulItems : List Value → Prop
  | [] => True
  | v :: rest => Faithful v ∧ FaithfulItems rest

def FaithfulEntries : List (String × Value) → Prop
  | [] => True
  | (_, v) :: rest => Faithful v ∧ FaithfulEntries rest

end

mutual

/-- Each float is read as a number from its text. -/
def Legible : Value → Prop
  | float x => (Json.number (Json.float x)).isSome
  | list items => LegibleItems items
  | object entries => LegibleEntries entries
  | _ => True

def LegibleItems : List Value → Prop
  | [] => True
  | v :: rest => Legible v ∧ LegibleItems rest

def LegibleEntries : List (String × Value) → Prop
  | [] => True
  | (_, v) :: rest => Legible v ∧ LegibleEntries rest

end

mutual

/-- What is read from the text of a value, lists and objects standing less than `depth` deep. -/
def reread (depth : Nat) (v : Value) : Option Value :=
  match v with
  | int i => (Json.number (Number.intDigits i)).map Prod.fst
  | float x => if x.isFinite then (Json.number (Json.float x)).map Prod.fst else some null
  | list items => if depth ≤ 1 then none else (rereadItems (depth - 1) items).map list
  | object entries => if depth ≤ 1 then none else (rereadEntries (depth - 1) entries).map object
  | v => some v

def rereadItems (depth : Nat) (items : List Value) : Option (List Value) :=
  match items with
  | [] => some []
  | v :: rest => (reread depth v).bind fun w => (rereadItems depth rest).map fun ws => w :: ws

def rereadEntries (depth : Nat) (entries : List (String × Value)) : Option (Entries Value) :=
  match entries with
  | [] => some []
  | (k, v) :: rest =>
    (reread depth v).bind fun w => (rereadEntries depth rest).map fun es => (k, w) :: es

end

mutual

def depth : Value → Nat
  | list items => depthItems items + 1
  | object entries => depthEntries entries + 1
  | _ => 0

def depthItems : List Value → Nat
  | [] => 0
  | v :: rest => max (depth v) (depthItems rest)

def depthEntries : List (String × Value) → Nat
  | [] => 0
  | (_, v) :: rest => max (depth v) (depthEntries rest)

end

theorem faithfulItems_iff {vs : List Value} : FaithfulItems vs ↔ ∀ v ∈ vs, v.Faithful := by
  induction vs with
  | nil => simp [FaithfulItems]
  | cons v vs ih => simp [FaithfulItems, ih]

theorem faithfulEntries_iff {es : Entries Value} :
    FaithfulEntries es ↔ ∀ e ∈ es, e.2.Faithful := by
  induction es with
  | nil => simp [FaithfulEntries]
  | cons e es ih => simp [FaithfulEntries, ih]

theorem depthItems_le_iff {vs : List Value} {n : Nat} :
    depthItems vs ≤ n ↔ ∀ v ∈ vs, v.depth ≤ n := by
  induction vs with
  | nil => simp [depthItems]
  | cons v vs ih => rw [depthItems, Nat.max_le, ih, List.forall_mem_cons]

theorem depthEntries_le_iff {es : Entries Value} {n : Nat} :
    depthEntries es ≤ n ↔ ∀ e ∈ es, e.2.depth ≤ n := by
  induction es with
  | nil => simp [depthEntries]
  | cons e es ih => rw [depthEntries, Nat.max_le, ih, List.forall_mem_cons]

end Value

namespace Json

open Number

/-! ### Strings -/

theorem digitIn_digitChar {n : Nat} (h : n < 16) : digitIn 16 (Nat.digitChar n) = some n := by
  have hall : ∀ m : Fin 16, digitIn 16 (Nat.digitChar m.val) = some m.val := by decide
  exact hall ⟨n, h⟩

theorem unicodeEscape_control {c : Char} (hc : c.toNat < 0x20) (cs : List Char) :
    unicodeEscape ('0' :: '0' :: Nat.digitChar (c.toNat / 16) :: Nat.digitChar (c.toNat % 16) ::
      cs) = some (c, cs) := by
  have hzero : digitIn 16 '0' = some 0 := digitIn_digitChar (n := 0) (by omega)
  have hsum : ((0 * 16 + 0) * 16 + c.toNat / 16) * 16 + c.toNat % 16 = c.toNat := by omega
  have hhigh : ¬(0xD800 ≤ c.toNat ∧ c.toNat < 0xDC00) := by omega
  have hlow : ¬(0xDC00 ≤ c.toNat ∧ c.toNat < 0xE000) := by omega
  simp only [unicodeEscape, hex4, hzero, digitIn_digitChar (show c.toNat / 16 < 16 by omega),
    digitIn_digitChar (show c.toNat % 16 < 16 by omega), Option.bind_eq_bind, Option.bind_some,
    Option.pure_def, hsum, if_neg hhigh, if_neg hlow, Char.ofNat_toNat]

theorem stringTail_escape {e c : Char} (he : e ≠ 'u') (h : simpleEscape e = some c) (fuel : Nat)
    (cs : List Char) :
    stringTail (fuel + 1) ('\\' :: e :: cs) =
      (stringTail fuel cs).map fun t => (c :: t.1, t.2) := by
  rw [stringTail]
  · rw [h]
    rcases stringTail fuel cs with _ | t <;> rfl
  · exact he

theorem stringTail_plain {c : Char} (hc : ¬c.toNat < 0x20) (hquote : c ≠ '"') (hback : c ≠ '\\')
    (fuel : Nat) (cs : List Char) :
    stringTail (fuel + 1) (c :: cs) = (stringTail fuel cs).map fun t => (c :: t.1, t.2) := by
  have hplain : ¬(c.toNat < 0x20 ∨ c = '\\') := by simp [hc, hback]
  rw [stringTail, if_neg hplain]
  · rcases stringTail fuel cs with _ | t <;> rfl
  · exact hquote
  · exact fun _ h => absurd h hback
  · exact fun _ _ h => absurd h hback

theorem stringTail_stringChar (fuel : Nat) (c : Char) (cs : List Char) :
    stringTail (fuel + 1) (stringChar c ++ cs) =
      (stringTail fuel cs).map fun t => (c :: t.1, t.2) := by
  unfold stringChar
  split
  iterate 7
    · exact stringTail_escape (by decide) rfl fuel cs
  · next hquote hback _ _ _ _ _ =>
    split
    · next hc =>
      simp only [List.cons_append, List.nil_append, stringTail, unicodeEscape_control hc,
        Option.bind_eq_bind, Option.bind_some]
      rcases stringTail fuel cs with _ | t <;> rfl
    · next hc => exact stringTail_plain hc hquote hback fuel cs

theorem stringTail_chars {s : List Char} {fuel : Nat} (h : s.length < fuel) (rest : List Char) :
    stringTail fuel (s.flatMap stringChar ++ '"' :: rest) = some (s, rest) := by
  induction s generalizing fuel with
  | nil =>
    obtain ⟨fuel, rfl⟩ : ∃ f, fuel = f + 1 := ⟨fuel - 1, by simp at h; omega⟩
    rfl
  | cons c s ih =>
    obtain ⟨fuel, rfl⟩ : ∃ f, fuel = f + 1 := ⟨fuel - 1, by simp at h; omega⟩
    have hs : s.length < fuel := by simpa using h
    rw [List.flatMap_cons, List.append_assoc, stringTail_stringChar, ih hs]
    rfl

theorem length_le_flatMap_stringChar (s : List Char) :
    s.length ≤ (s.flatMap stringChar).length := by
  induction s with
  | nil => simp
  | cons c s ih =>
    have hc : 0 < (stringChar c).length := by
      unfold stringChar
      split <;> first | decide | split <;> simp
    rw [List.flatMap_cons, List.length_append, List.length_cons]
    omega

/-! ### Values -/

theorem ne_of_head {c d : Char} (hc : c = '-' ∨ c.isDigit = true) (hd : d ≠ '-')
    (hd' : d.isDigit = false) : c ≠ d := by
  rintro rfl
  exact hc.elim hd fun h => absurd (hd'.symm.trans h) Bool.false_ne_true

/-- A number is told from other values by its first character. -/
theorem value_of_head {c : Char} (hc : c = '-' ∨ c.isDigit = true) (fuel depth : Nat)
    (cs : List Char) : value (fuel + 1) depth (c :: cs) = number (c :: cs) := by
  have hspace : isSpace c = false := by
    have hne : ∀ d : Char, d ≠ '-' → d.isDigit = false → c ≠ d := fun _ => ne_of_head hc
    simp [isSpace, hne ' ' (by decide) (by decide), hne '\n' (by decide) (by decide),
      hne '\t' (by decide) (by decide), hne '\r' (by decide) (by decide)]
  have hskip : skipSpace (c :: cs) = c :: cs := by
    simp [skipSpace, hspace]
  unfold value
  rw [hskip]
  split
  · next h => exact absurd (List.cons.inj h).1 (ne_of_head hc (by decide) (by decide))
  · next h => exact absurd (List.cons.inj h).1 (ne_of_head hc (by decide) (by decide))
  · next h => exact absurd (List.cons.inj h).1 (ne_of_head hc (by decide) (by decide))
  · next h => exact absurd (List.cons.inj h).1 (ne_of_head hc (by decide) (by decide))
  · next h => exact absurd (List.cons.inj h).1 (ne_of_head hc (by decide) (by decide))
  · next h => exact absurd (List.cons.inj h).1 (ne_of_head hc (by decide) (by decide))
  · rfl

theorem value_of_number {cs : List Char}
    (hc : ∃ c cs', cs = c :: cs' ∧ (c = '-' ∨ c.isDigit = true)) {o : Option Value}
    (h : number cs = o.map fun v => (v, [])) {rest : List Char}
    (hr : Closes rest) (fuel depth : Nat) :
    value (fuel + 1) depth (cs ++ rest) =
      ((number cs).map Prod.fst).map fun v => (v, rest) := by
  obtain ⟨c, cs, rfl, hc⟩ := hc
  rw [List.cons_append, value_of_head hc, ← List.cons_append, number_append hr, h]
  cases o <;> rfl

theorem skipSpace_cons {c : Char} (h : isSpace c = false) (cs : List Char) :
    skipSpace (c :: cs) = c :: cs := by
  simp [skipSpace, h]

theorem chars_head (v : Value) : ∃ c cs, chars v = c :: cs ∧ isSpace c = false ∧ c ≠ ']' := by
  have hnumber : ∀ {ds : List Char}, (∃ c cs, ds = c :: cs ∧ (c = '-' ∨ c.isDigit = true)) →
      ∃ c cs, ds = c :: cs ∧ isSpace c = false ∧ c ≠ ']' := by
    rintro ds ⟨c, cs, rfl, hc⟩
    refine ⟨c, cs, rfl, ?_⟩
    rcases hc with rfl | hc
    · decide
    · refine ⟨?_, ?_⟩
      · simp only [isSpace, Bool.or_eq_false_iff, beq_eq_false_iff_ne]
        refine ⟨⟨⟨?_, ?_⟩, ?_⟩, ?_⟩ <;> rintro rfl <;> exact absurd hc (by decide)
      · rintro rfl
        exact absurd hc (by decide)
  cases v with
  | null => exact ⟨_, _, rfl, by decide⟩
  | bool b => cases b <;> exact ⟨_, _, rfl, by decide⟩
  | int i => exact hnumber (intDigits_head i)
  | float x =>
    by_cases hx : x.isFinite = true
    · exact hnumber (float_head hx)
    · exact ⟨'n', ['u', 'l', 'l'], if_neg hx, by decide⟩
  | text s => exact ⟨_, _, rfl, by decide⟩
  | list items => exact ⟨_, _, rfl, by decide⟩
  | object es => exact ⟨_, _, rfl, by decide⟩

theorem value_text (s : String) (fuel depth : Nat) (rest : List Char) :
    value (fuel + 1) depth (string s ++ rest) = some (.text s, rest) := by
  have hlen : s.toList.length < (s.toList.flatMap stringChar ++ '"' :: rest).length + 1 := by
    have := length_le_flatMap_stringChar s.toList
    simp only [List.length_append]
    omega
  simp only [string, List.cons_append, List.append_assoc, List.nil_append]
  rw [value, skipSpace_cons (by decide)]
  simp only [stringTail_chars hlen, Option.bind_eq_bind, Option.bind_some, Option.pure_def,
    String.ofList_toList]

theorem value_list {c : Char} {cs : List Char} {fuel depth : Nat} (hd : ¬depth ≤ 1)
    (hc : isSpace c = false) (hend : c ≠ ']') :
    value (fuel + 1) depth ('[' :: c :: cs) =
      (items fuel (depth - 1) (c :: cs)).map fun i => (.list i.1, i.2) := by
  rw [value, skipSpace_cons (by decide)]
  simp only [if_neg hd]
  rw [skipSpace_cons hc]
  split
  · next he => exact absurd (List.cons.inj he).1 hend
  · rcases items fuel (depth - 1) (c :: cs) with _ | i <;> rfl

theorem value_object {cs : List Char} {fuel depth : Nat} (hd : ¬depth ≤ 1) :
    value (fuel + 1) depth ('\x7b' :: '"' :: cs) =
      (entries fuel (depth - 1) ('"' :: cs)).map fun e => (.object e.1, e.2) := by
  rw [value, skipSpace_cons (by decide)]
  simp only [if_neg hd]
  rw [skipSpace_cons (by decide)]
  show ((entries fuel (depth - 1) ('"' :: cs)).bind fun e => some (Value.object e.1, e.2)) = _
  rcases entries fuel (depth - 1) ('"' :: cs) with _ | e <;> rfl

section

variable {cs rest : List Char} {o : Option Value} {fuel depth : Nat}

theorem items_single (h : value fuel depth cs = o.map fun v => (v, ']' :: rest)) :
    items (fuel + 1) depth cs = o.map fun v => ([v], rest) := by
  rw [items, h]
  cases o <;> rfl

theorem items_cons (h : value fuel depth cs = o.map fun v => (v, ',' :: rest)) :
    items (fuel + 1) depth cs =
      o.bind fun v => (items fuel depth rest).map fun i => (v :: i.1, i.2) := by
  rw [items, h]
  rcases o with _ | v
  · rfl
  · show ((items fuel depth rest).bind fun i => some (v :: i.1, i.2)) = _
    rcases items fuel depth rest with _ | i <;> rfl

theorem entries_string (k : String) (cs : List Char) (fuel depth : Nat) :
    entries (fuel + 1) depth (string k ++ ':' :: cs) =
      (value fuel depth cs).bind fun v =>
        match skipSpace v.2 with
        | '\x7d' :: rest => some ([(k, v.1)], rest)
        | ',' :: rest => (entries fuel depth rest).bind fun es => some ((k, v.1) :: es.1, es.2)
        | _ => none := by
  have hlen : k.toList.length < (k.toList.flatMap stringChar ++ '"' :: ':' :: cs).length + 1 := by
    have := length_le_flatMap_stringChar k.toList
    simp only [List.length_append]
    omega
  simp only [string, List.cons_append, List.append_assoc, List.nil_append]
  rw [entries, skipSpace_cons (by decide)]
  simp only [stringTail_chars hlen, Option.bind_eq_bind, Option.bind_some, String.ofList_toList]
  rfl

theorem entries_single (k : String)
    (h : value fuel depth cs = o.map fun v => (v, '\x7d' :: rest)) :
    entries (fuel + 1) depth (string k ++ ':' :: cs) = o.map fun v => ([(k, v)], rest) := by
  rw [entries_string, h]
  cases o <;> rfl

theorem entries_cons (k : String) (h : value fuel depth cs = o.map fun v => (v, ',' :: rest)) :
    entries (fuel + 1) depth (string k ++ ':' :: cs) =
      o.bind fun v => (entries fuel depth rest).map fun es => ((k, v) :: es.1, es.2) := by
  rw [entries_string, h]
  rcases o with _ | v
  · rfl
  · show ((entries fuel depth rest).bind fun es => some ((k, v) :: es.1, es.2)) = _
    rcases entries fuel depth rest with _ | es <;> rfl

end

theorem itemChars_head (v : Value) (vs : List Value) :
    ∃ c cs, itemChars (v :: vs) = c :: cs ∧ isSpace c = false ∧ c ≠ ']' := by
  obtain ⟨c, cs, hcs, hc⟩ := chars_head v
  cases vs with
  | nil => exact ⟨c, cs, hcs, hc⟩
  | cons w ws => exact ⟨c, cs ++ ',' :: itemChars (w :: ws), by simp [itemChars, hcs], hc⟩

theorem entryChars_head (e : String × Value) (es : List (String × Value)) :
    ∃ cs, entryChars (e :: es) = '"' :: cs := by
  cases es with
  | nil => exact ⟨_, rfl⟩
  | cons d ds => exact ⟨_, rfl⟩

mutual

/-- **The reader of values** gives what is read back, with what follows left alone. -/
theorem value_chars (v : Value) {fuel : Nat} (depth : Nat) (hfuel : 2 * (chars v).length < fuel)
    {rest : List Char} (hr : Closes rest) :
    value fuel depth (chars v ++ rest) = (v.reread depth).map fun w => (w, rest) := by
  obtain ⟨fuel, rfl⟩ : ∃ f, fuel = f + 1 := ⟨fuel - 1, by omega⟩
  match v with
  | .null => rfl
  | .bool true => rfl
  | .bool false => rfl
  | .int i =>
    obtain ⟨o, ho⟩ := number_intDigits_eq i
    exact value_of_number (intDigits_head i) ho hr fuel depth
  | .float x =>
    by_cases hx : x.isFinite = true
    · obtain ⟨o, ho⟩ := number_float hx
      rw [Value.reread, if_pos hx]
      exact value_of_number (float_head hx) (o := o.map Value.float)
        (by rw [ho, Option.map_map]; rfl) hr fuel depth
    · rw [Value.reread, if_neg hx, chars, float, if_neg hx]
      rfl
  | .text s => exact value_text s fuel depth rest
  | .list [] =>
    rw [chars, itemChars, List.nil_append, List.cons_append, value, skipSpace_cons (by decide),
      Value.reread]
    by_cases hd : depth ≤ 1 <;> simp only [hd, if_true, if_false] <;> rfl
  | .list (v :: vs) =>
    simp only [chars, List.length_cons, List.length_append, List.length_nil] at hfuel
    have hread := items_itemChars (v :: vs) (by simp) (depth - 1) (by omega : _ < fuel) rest
    obtain ⟨c, cs, hcs, hspace, hend⟩ := itemChars_head v vs
    simp only [chars, hcs, List.cons_append, List.append_assoc, List.nil_append] at hread ⊢
    by_cases hd : depth ≤ 1
    · rw [Value.reread, if_pos hd, value, skipSpace_cons (by decide)]
      simp only [if_pos hd]
      rfl
    · rw [value_list hd hspace hend, hread, Value.reread, if_neg hd]
      simp only [Option.map_map]
      rfl
  | .object [] =>
    rw [chars, entryChars, List.nil_append, List.cons_append, value, skipSpace_cons (by decide),
      Value.reread]
    by_cases hd : depth ≤ 1 <;> simp only [hd, if_true, if_false] <;> rfl
  | .object (e :: es) =>
    simp only [chars, List.length_cons, List.length_append, List.length_nil] at hfuel
    have hread := entries_entryChars (e :: es) (by simp) (depth - 1) (by omega : _ < fuel) rest
    obtain ⟨cs, hcs⟩ := entryChars_head e es
    simp only [chars, hcs, List.cons_append, List.append_assoc, List.nil_append] at hread ⊢
    by_cases hd : depth ≤ 1
    · rw [Value.reread, if_pos hd, value, skipSpace_cons (by decide)]
      simp only [if_pos hd]
      rfl
    · rw [value_object hd, hread, Value.reread, if_neg hd]
      simp only [Option.map_map]
      rfl

theorem items_itemChars (vs : List Value) (hne : vs ≠ []) {fuel : Nat} (depth : Nat)
    (hfuel : 2 * (itemChars vs).length + 1 < fuel) (rest : List Char) :
    items fuel depth (itemChars vs ++ ']' :: rest) =
      (Value.rereadItems depth vs).map fun ws => (ws, rest) := by
  obtain ⟨fuel, rfl⟩ : ∃ f, fuel = f + 1 := ⟨fuel - 1, by omega⟩
  match vs with
  | [] => exact absurd rfl hne
  | [v] =>
    simp only [itemChars] at hfuel ⊢
    rw [items_single (value_chars v depth (by omega) (closes_cons rest (.inr (.inl rfl))))]
    simp only [Value.rereadItems, Option.map_some]
    rcases v.reread depth with _ | w <;> rfl
  | v :: w :: ws =>
    have hchars : itemChars (v :: w :: ws) = chars v ++ ',' :: itemChars (w :: ws) := rfl
    rw [hchars, List.length_append, List.length_cons] at hfuel
    rw [hchars, List.append_assoc, List.cons_append,
      items_cons (value_chars v depth (by omega) (closes_cons _ (.inl rfl))),
      items_itemChars (w :: ws) (by simp) depth (by omega) rest]
    conv_rhs => rw [Value.rereadItems]
    rcases v.reread depth with _ | v'
    · rfl
    · rcases Value.rereadItems depth (w :: ws) with _ | ws' <;> rfl

theorem entries_entryChars (es : List (String × Value)) (hne : es ≠ []) {fuel : Nat} (depth : Nat)
    (hfuel : 2 * (entryChars es).length + 1 < fuel) (rest : List Char) :
    entries fuel depth (entryChars es ++ '\x7d' :: rest) =
      (Value.rereadEntries depth es).map fun ds => (ds, rest) := by
  obtain ⟨fuel, rfl⟩ : ∃ f, fuel = f + 1 := ⟨fuel - 1, by omega⟩
  match es with
  | [] => exact absurd rfl hne
  | [(k, v)] =>
    simp only [entryChars, List.length_append, List.length_cons] at hfuel
    rw [entryChars, List.append_assoc, List.cons_append, entries_single k
      (value_chars v depth (by omega) (closes_cons rest (.inr (.inr rfl))))]
    simp only [Value.rereadEntries, Option.map_some]
    rcases v.reread depth with _ | w <;> rfl
  | (k, v) :: d :: ds =>
    have hchars : entryChars ((k, v) :: d :: ds) =
        string k ++ ':' :: (chars v ++ ',' :: entryChars (d :: ds)) := rfl
    simp only [hchars, List.length_append, List.length_cons] at hfuel
    rw [hchars, List.append_assoc, List.cons_append, List.append_assoc, List.cons_append,
      entries_cons k (value_chars v depth (by omega) (closes_cons _ (.inl rfl))),
      entries_entryChars (d :: ds) (by simp) depth (by omega) rest]
    conv_rhs => rw [Value.rereadEntries]
    rcases v.reread depth with _ | w
    · rfl
    · rcases Value.rereadEntries depth (d :: ds) with _ | ds' <;> rfl

end

/-- **The reader of a text** gives what is read back. -/
theorem parse_write (v : Value) : parse (write v) = v.reread maxDepth := by
  have h := value_chars v maxDepth (show _ < 2 * (chars v).length + 2 by omega) closes_nil
  rw [List.append_nil] at h
  unfold parse write
  simp only [String.toList_ofList, h]
  rcases v.reread maxDepth with _ | w <;> rfl

end Json

/-! ### What is read back -/

namespace Value

theorem rereadEntries_append (depth : Nat) (es ds : Entries Value) :
    rereadEntries depth (es ++ ds) =
      (rereadEntries depth es).bind fun es' =>
        (rereadEntries depth ds).map fun ds' => es' ++ ds' := by
  induction es with
  | nil => simp [rereadEntries]
  | cons e es ih =>
    rw [List.cons_append, rereadEntries, ih, rereadEntries]
    rcases reread depth e.2 with _ | v
    · rfl
    · rcases rereadEntries depth es with _ | es'
      · rfl
      · rcases rereadEntries depth ds with _ | ds' <;> rfl

mutual

/-- A value is read back, unless it stands too deep or one of its floats is not. -/
theorem reread_of_faithful (v : Value) (hl : v.Lawful) (hf : v.Faithful) {depth : Nat}
    (hd : v.depth < depth) : v.reread depth = some v := by
  match v with
  | null | bool _ | text _ => rfl
  | int i =>
    rw [Lawful] at hl
    rw [reread, Json.number_intDigits hl.1 hl.2]
    rfl
  | float x =>
    rw [Lawful] at hl
    rw [Faithful] at hf
    rw [reread, if_pos hl, hf]
    rfl
  | list vs =>
    rw [Lawful] at hl
    rw [Faithful] at hf
    rw [Value.depth] at hd
    rw [reread, if_neg (by omega), rereadItems_of_faithful vs hl hf (by omega)]
    rfl
  | object es =>
    rw [Lawful] at hl
    rw [Faithful] at hf
    rw [Value.depth] at hd
    rw [reread, if_neg (by omega), rereadEntries_of_faithful es hl.2 hf (by omega)]
    rfl

theorem rereadItems_of_faithful (vs : List Value) (hl : LawfulItems vs) (hf : FaithfulItems vs)
    {depth : Nat} (hd : depthItems vs < depth) : rereadItems depth vs = some vs := by
  match vs with
  | [] => rfl
  | v :: vs =>
    rw [LawfulItems] at hl
    rw [FaithfulItems] at hf
    rw [depthItems] at hd
    rw [rereadItems, reread_of_faithful v hl.1 hf.1 (by omega),
      rereadItems_of_faithful vs hl.2 hf.2 (by omega)]
    rfl

theorem rereadEntries_of_faithful (es : List (String × Value)) (hl : LawfulEntries es)
    (hf : FaithfulEntries es) {depth : Nat} (hd : depthEntries es < depth) :
    rereadEntries depth es = some es := by
  match es with
  | [] => rfl
  | (k, v) :: es =>
    rw [LawfulEntries] at hl
    rw [FaithfulEntries] at hf
    rw [depthEntries] at hd
    rw [rereadEntries, reread_of_faithful v hl.1 hf.1 (by omega),
      rereadEntries_of_faithful es hl.2 hf.2 (by omega)]
    rfl

end

mutual

/-- **Something is read back** just when the value stands not too deep and each float is read. -/
theorem isSome_reread (v : Value) (hl : v.Lawful) {depth : Nat} (hd : 0 < depth) :
    (v.reread depth).isSome ↔ v.depth < depth ∧ v.Legible := by
  match v with
  | null | bool _ | text _ => simpa [reread, Value.depth, Legible] using hd
  | int i =>
    rw [Lawful] at hl
    simpa [reread, Value.depth, Legible, Json.number_intDigits hl.1 hl.2] using hd
  | float x =>
    rw [Lawful] at hl
    simp [reread, Value.depth, Legible, if_pos hl, hd]
  | list vs =>
    rw [Lawful] at hl
    rw [reread, Value.depth, Legible]
    by_cases h : depth ≤ 1
    · simp only [if_pos h, Option.isSome_none, Bool.false_eq_true, false_iff]
      omega
    · rw [if_neg h, Option.isSome_map, isSome_rereadItems vs hl (by omega), Nat.lt_sub_iff_add_lt]
  | object es =>
    rw [Lawful] at hl
    rw [reread, Value.depth, Legible]
    by_cases h : depth ≤ 1
    · simp only [if_pos h, Option.isSome_none, Bool.false_eq_true, false_iff]
      omega
    · rw [if_neg h, Option.isSome_map, isSome_rereadEntries es hl.2 (by omega),
        Nat.lt_sub_iff_add_lt]

theorem isSome_rereadItems (vs : List Value) (hl : LawfulItems vs) {depth : Nat} (hd : 0 < depth) :
    (rereadItems depth vs).isSome ↔ depthItems vs < depth ∧ LegibleItems vs := by
  match vs with
  | [] => simpa [rereadItems, depthItems, LegibleItems] using hd
  | v :: vs =>
    rw [LawfulItems] at hl
    have hv := isSome_reread v hl.1 hd
    have hvs := isSome_rereadItems vs hl.2 hd
    rw [rereadItems, depthItems, LegibleItems, Nat.max_lt]
    rcases hw : reread depth v with _ | w <;> rcases hws : rereadItems depth vs with _ | ws <;>
      simp_all

theorem isSome_rereadEntries (es : List (String × Value)) (hl : LawfulEntries es) {depth : Nat}
    (hd : 0 < depth) :
    (rereadEntries depth es).isSome ↔ depthEntries es < depth ∧ LegibleEntries es := by
  match es with
  | [] => simpa [rereadEntries, depthEntries, LegibleEntries] using hd
  | (k, v) :: es =>
    rw [LawfulEntries] at hl
    have hv := isSome_reread v hl.1 hd
    have hes := isSome_rereadEntries es hl.2 hd
    rw [rereadEntries, depthEntries, LegibleEntries, Nat.max_lt]
    rcases hw : reread depth v with _ | w <;> rcases hds : rereadEntries depth es with _ | ds <;>
      simp_all

end

end Value

end MailQueue
