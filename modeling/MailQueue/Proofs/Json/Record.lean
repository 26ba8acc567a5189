import MailQueue.Json.Record
import MailQueue.Proofs.Json.Accepted

/-!
# What a record is read as

Whatever is read is also passed over, with the same characters left. So a text that is read in full
is read as a record with the same values under the known keys (`parseRecord_of_parse`), and what is
written of known keys alone is read as it is in full (`parseRecord_write`). Other texts are read as
a record only; what is read of them fits the depth of the reader all the same
(`fits_parseRecord`).
-/

namespace MailQueue.Json

/-! ### Passing over what is read -/

theorem exists_of_hex4 {cs rest : List Char} {n : Nat} (h : hex4 cs = some (n, rest)) :
    ∃ a b c d, cs = a :: b :: c :: d :: rest ∧ (hex4 [a, b, c, d]).isSome := by
  unfold hex4 at h
  split at h
  · next a b c d rest' =>
    obtain ⟨a', ha, h⟩ := Option.bind_eq_some_iff.1 h
    obtain ⟨b', hb, h⟩ := Option.bind_eq_some_iff.1 h
    obtain ⟨c', hc, h⟩ := Option.bind_eq_some_iff.1 h
    obtain ⟨d', hd, h⟩ := Option.bind_eq_some_iff.1 h
    obtain ⟨-, rfl⟩ := Prod.mk.inj (Option.some.inj h)
    refine ⟨a, b, c, d, rfl, ?_⟩
    simp only [hex4, ha, hb, hc, hd, Option.bind_eq_bind, Option.bind_some, Option.pure_def,
      Option.isSome_some]
  · cases h

theorem skipString_hex4 {cs rest : List Char} {n : Nat} (h : hex4 cs = some (n, rest)) :
    skipString ('\\' :: 'u' :: cs) = skipString rest := by
  obtain ⟨a, b, c, d, rfl, hsome⟩ := exists_of_hex4 h
  rw [skipString, if_pos hsome]

theorem skipString_unicodeEscape {cs rest : List Char} {c : Char}
    (h : unicodeEscape cs = some (c, rest)) :
    skipString ('\\' :: 'u' :: cs) = skipString rest := by
  obtain ⟨⟨n, after⟩, hn, h⟩ := Option.bind_eq_some_iff.1 h
  rw [skipString_hex4 hn]
  simp only at h
  split at h
  · -- the second half of a pair is passed over as one more escape
    split at h
    · obtain ⟨⟨low, rest'⟩, hlow, h⟩ := Option.bind_eq_some_iff.1 h
      simp only at h
      split at h
      · obtain ⟨-, rfl⟩ := Prod.mk.inj (Option.some.inj h)
        exact skipString_hex4 hlow
      · cases h
    · cases h
  · split at h
    · cases h
    · obtain ⟨-, rfl⟩ := Prod.mk.inj (Option.some.inj h)
      rfl

theorem skipString_of_stringTail {fuel : Nat} {cs s rest : List Char}
    (h : stringTail fuel cs = some (s, rest)) : skipString cs = some rest := by
  induction fuel generalizing cs s with
  | zero => cases h
  | succ fuel ih =>
    unfold stringTail at h
    split at h
    · cases h
    · obtain ⟨-, rfl⟩ := Prod.mk.inj (Option.some.inj h)
      rfl
    · obtain ⟨⟨c, after⟩, hc, h⟩ := Option.bind_eq_some_iff.1 h
      obtain ⟨⟨tail, rest'⟩, ht, h⟩ := Option.bind_eq_some_iff.1 h
      obtain ⟨-, rfl⟩ := Prod.mk.inj (Option.some.inj h)
      rw [skipString_unicodeEscape hc, ih ht]
    · next e after hu =>
      obtain ⟨c, hc, h⟩ := Option.bind_eq_some_iff.1 h
      obtain ⟨⟨tail, rest'⟩, ht, h⟩ := Option.bind_eq_some_iff.1 h
      obtain ⟨-, rfl⟩ := Prod.mk.inj (Option.some.inj h)
      rw [skipString, if_pos (Option.isSome_of_mem hc), ih ht]
      exact fun _ _ _ _ _ he _ => hu he
    · next c after hquote hu hback =>
      split at h
      · cases h
      · next hplain =>
        obtain ⟨⟨tail, rest'⟩, ht, h⟩ := Option.bind_eq_some_iff.1 h
        obtain ⟨-, rfl⟩ := Prod.mk.inj (Option.some.inj h)
        rw [skipString, if_neg hplain, ih ht]
        · exact hquote
        · exact fun _ _ _ _ _ he _ => hplain (.inr he)
        · exact fun _ _ he _ => hplain (.inr he)

theorem skipUnsigned_of_unsignedNumber {negative : Bool} {cs rest : List Char} {v : Value}
    (h : unsignedNumber negative cs = some (v, rest)) : skipUnsigned cs = some rest := by
  simp only [unsignedNumber] at h
  simp only [skipUnsigned]
  split at h
  · cases h
  · next hwhole =>
    obtain ⟨⟨fractionDigits, afterFraction⟩, hf, h⟩ := Option.bind_eq_some_iff.1 h
    obtain ⟨⟨e, afterExponent⟩, he, h⟩ := Option.bind_eq_some_iff.1 h
    have hrest : afterExponent = rest := by
      simp only at h
      split at h
      · obtain ⟨w, -, h⟩ := Option.bind_eq_some_iff.1 h
        exact (Prod.mk.inj (Option.some.inj h)).2
      · obtain ⟨x, -, h⟩ := Option.bind_eq_some_iff.1 h
        exact (Prod.mk.inj (Option.some.inj h)).2
    rw [if_neg hwhole, hf, ← hrest]
    simp only [Option.bind_eq_bind, Option.bind_some, he, Option.pure_def]

theorem skipNumber_of_number {cs rest : List Char} {v : Value} (h : number cs = some (v, rest)) :
    skipNumber cs = some rest := by
  unfold number at h
  split at h
  · exact skipUnsigned_of_unsignedNumber h
  · next hminus =>
    rw [skipNumber]
    · exact skipUnsigned_of_unsignedNumber h
    · exact hminus

/-- What the readers read that have so much fuel is passed over. -/
structure Skips (fuel : Nat) : Prop where
  value : ∀ {depth cs v rest}, value fuel depth cs = some (v, rest) →
    skipValue fuel cs = some rest
  items : ∀ {depth cs vs rest}, items fuel depth cs = some (vs, rest) →
    skipItems fuel cs = some rest
  entries : ∀ {depth cs es rest}, entries fuel depth cs = some (es, rest) →
    skipEntries fuel cs = some rest

section

variable {fuel depth : Nat} {cs rest : List Char}

theorem Skips.value_succ (ih : Skips fuel) {v : Value}
    (h : Json.value (fuel + 1) depth cs = some (v, rest)) :
    skipValue (fuel + 1) cs = some rest := by
  have hreads := reads_of_value h
  rw [skipValue]
  generalize skipSpace cs = cs' at hreads ⊢
  cases hreads with
  | null => rfl
  | true => rfl
  | false => rfl
  | text hs => exact skipString_of_stringTail hs
  | noItems hd hend => simp only [hend]
  | items hd hgo hvs =>
    simp only
    exact ih.items hvs
  | noEntries hd hend => simp only [hend]
  | entries hd hgo hes =>
    simp only
    exact ih.entries hes
  | number hc hn =>
    -- a digit or a minus starts none of the other values
    split
    · next h => exact absurd (List.cons.inj h).1 (ne_of_head hc (by decide) (by decide))
    · next h => exact absurd (List.cons.inj h).1 (ne_of_head hc (by decide) (by decide))
    · next h => exact absurd (List.cons.inj h).1 (ne_of_head hc (by decide) (by decide))
    · next h => exact absurd (List.cons.inj h).1 (ne_of_head hc (by decide) (by decide))
    · next h => exact absurd (List.cons.inj h).1 (ne_of_head hc (by decide) (by decide))
    · next h => exact absurd (List.cons.inj h).1 (ne_of_head hc (by decide) (by decide))
    · exact skipNumber_of_number hn

theorem Skips.items_succ (ih : Skips fuel) {vs : List Value}
    (h : Json.items (fuel + 1) depth cs = some (vs, rest)) :
    skipItems (fuel + 1) cs = some rest := by
  obtain ⟨v, after, hv, h⟩ := items_eq_some h
  rw [skipItems, ih.value hv]
  simp only [Option.bind_eq_bind, Option.bind_some]
  rcases h with ⟨hend, -⟩ | ⟨more, ws, hmore, hws, -⟩
  · rw [hend]
    rfl
  · rw [hmore]
    exact ih.items hws

theorem Skips.entries_succ (ih : Skips fuel) {es : Entries Value}
    (h : Json.entries (fuel + 1) depth cs = some (es, rest)) :
    skipEntries (fuel + 1) cs = some rest := by
  obtain ⟨start, key, afterKey, afterColon, v, after, hstart, hkey, hcolon, hv, h⟩ :=
    entries_eq_some h
  rw [skipEntries, hstart]
  simp only [skipString_of_stringTail hkey, Option.bind_eq_bind, Option.bind_some, hcolon,
    ih.value hv]
  rcases h with ⟨hend, -⟩ | ⟨more, ds, hmore, hds, -⟩
  · rw [hend]
    rfl
  · rw [hmore]
    exact ih.entries hds

end

/-- **Whatever is read is passed over**, by induction on the fuel. -/
theorem skips (fuel : Nat) : Skips fuel := by
  induction fuel with
  | zero => exact ⟨nofun, nofun, nofun⟩
  | succ fuel ih => exact ⟨ih.value_succ, ih.items_succ, ih.entries_succ⟩

/-! ### Known keys -/

section

variable {known : String → Bool} {fuel depth : Nat} {cs rest : List Char}

theorem knownValue_of_value {v : Value} (h : value fuel depth cs = some (v, rest)) (k : String) :
    knownValue known k fuel depth cs = some ([(k, v)].filter fun e => known e.1, rest) := by
  unfold knownValue
  split
  · next hk => simp [h, hk]
  · next hk => simp [(skips fuel).value h, hk]

theorem knownEntries_of_entries {es : Entries Value}
    (h : entries fuel depth cs = some (es, rest)) :
    knownEntries known fuel depth cs = some (es.filter fun e => known e.1, rest) := by
  induction fuel generalizing cs es with
  | zero => cases h
  | succ fuel ih =>
    obtain ⟨start, key, afterKey, afterColon, v, after, hstart, hkey, hcolon, hv, h⟩ :=
      entries_eq_some h
    rw [knownEntries, hstart]
    simp only [hkey, Option.bind_eq_bind, Option.bind_some, hcolon, knownValue_of_value hv]
    rcases h with ⟨hend, rfl⟩ | ⟨more, ds, hmore, hds, rfl⟩
    · rw [hend]
      rfl
    · rw [hmore]
      simp only [ih hds, Option.bind_some, Option.pure_def, ← List.filter_append,
        List.singleton_append]

/-- The value as a record has it: an object without the entries that have no known key. -/
def ofRecord (known : String → Bool) : Value → Value
  | .object es => .object (es.filter fun e => known e.1)
  | v => v

theorem ofRecord_of_number {v : Value} (h : number cs = some (v, rest)) : ofRecord known v = v := by
  have hd : v.depth < 1 := (fits_number Nat.one_pos h).depth
  cases v with
  | object es => simp [Value.depth] at hd
  | _ => rfl

theorem record_of_value {v : Value} (h : value (fuel + 1) maxDepth cs = some (v, rest)) :
    record known fuel cs = some (ofRecord known v, rest) := by
  have hreads := reads_of_value h
  rw [record, h]
  generalize skipSpace cs = cs' at hreads ⊢
  cases hreads with
  | null => rfl
  | true => rfl
  | false => rfl
  | text => rfl
  | noItems => rfl
  | items => rfl
  | noEntries hd hend =>
    simp only [hend]
    rfl
  | entries hd hgo hes =>
    simp only [knownEntries_of_entries hes]
    rfl
  | number hc hn =>
    rw [ofRecord_of_number hn]
    split
    · next h => exact absurd (List.cons.inj h).1 (ne_of_head hc (by decide) (by decide))
    · rfl

/-- **A text that is read** is read as a record with the same values. -/
theorem parseRecord_of_parse {text : String} {v : Value} (h : parse text = some v) :
    parseRecord known text = some (ofRecord known v) := by
  simp only [parse] at h
  split at h
  · next w rest hw =>
    simp only [parseRecord, record_of_value hw]
    split at h
    · next hend =>
      obtain rfl := Option.some.inj h
      rw [if_pos hend]
    · cases h
  · cases h

/-! ### What is written -/

theorem knownEntries_string {k : String} (hk : known k) (cs : List Char) (fuel depth : Nat) :
    knownEntries known (fuel + 1) depth (string k ++ ':' :: cs) =
      (value fuel depth cs).bind fun v =>
        match skipSpace v.2 with
        | '\x7d' :: rest => some ([(k, v.1)], rest)
        | ',' :: rest =>
          (knownEntries known fuel depth rest).bind fun es => some ((k, v.1) :: es.1, es.2)
        | _ => none := by
  have hlen : k.toList.length < (k.toList.flatMap stringChar ++ '"' :: ':' :: cs).length + 1 := by
    have := length_le_flatMap_stringChar k.toList
    simp only [List.length_append]
    omega
  simp only [string, List.cons_append, List.append_assoc, List.nil_append]
  rw [knownEntries, skipSpace_cons (by decide)]
  simp only [stringTail_chars hlen, Option.bind_eq_bind, Option.bind_some, String.ofList_toList]
  rw [skipSpace_cons (by decide)]
  simp only [knownValue, if_pos hk]
  rcases value fuel depth cs with _ | v <;> rfl

/-- What is written of known keys is read as it is in full. -/
theorem knownEntries_entryChars (es : Entries Value) (hne : es ≠ []) (hk : ∀ e ∈ es, known e.1)
    {fuel : Nat} (depth : Nat) (hfuel : 2 * (entryChars es).length + 1 < fuel) (rest : List Char) :
    knownEntries known fuel depth (entryChars es ++ '\x7d' :: rest) =
      entries fuel depth (entryChars es ++ '\x7d' :: rest) := by
  obtain ⟨fuel, rfl⟩ : ∃ f, fuel = f + 1 := ⟨fuel - 1, by omega⟩
  match es with
  | [] => exact absurd rfl hne
  | [(k, v)] =>
    simp only [entryChars, List.length_append, List.length_cons] at hfuel
    rw [entryChars, List.append_assoc, List.cons_append,
      knownEntries_string (hk _ List.mem_cons_self), entries_string,
      value_chars v depth (by omega) (closes_cons rest (.inr (.inr rfl)))]
    rcases v.reread depth with _ | w <;> rfl
  | (k, v) :: d :: ds =>
    have hchars : entryChars ((k, v) :: d :: ds) =
        string k ++ ':' :: (chars v ++ ',' :: entryChars (d :: ds)) := rfl
    simp only [hchars, List.length_append, List.length_cons] at hfuel
    have hmore := knownEntries_entryChars (d :: ds) (by simp)
      (fun e he => hk e (List.mem_cons_of_mem _ he)) depth (by omega : _ < fuel) rest
    rw [hchars, List.append_assoc, List.cons_append, List.append_assoc, List.cons_append,
      knownEntries_string (hk _ List.mem_cons_self), entries_string,
      value_chars v depth (by omega) (closes_cons _ (.inl rfl))]
    rcases v.reread depth with _ | w
    · rfl
    · simp only [Option.map_some, Option.bind_some, skipSpace_cons (c := ',') (by decide), hmore]

theorem record_chars {es : Entries Value} (hk : ∀ e ∈ es, known e.1)
    (hfuel : 2 * (chars (.object es)).length < fuel + 1) :
    record known fuel (chars (.object es)) = value (fuel + 1) maxDepth (chars (.object es)) := by
  match es with
  | [] => rfl
  | e :: es =>
    simp only [chars, List.length_cons, List.length_append, List.length_nil] at hfuel
    have hread := knownEntries_entryChars (e :: es) (by simp) hk (maxDepth - 1)
      (by omega : _ < fuel) []
    obtain ⟨cs, hcs⟩ := entryChars_head e es
    simp only [chars, hcs, List.cons_append] at hread ⊢
    rw [value_object (by decide), ← hread, record, skipSpace_cons (by decide)]
    rfl

theorem parseRecord_write {es : Entries Value} (hk : ∀ e ∈ es, known e.1) :
    parseRecord known (write (.object es)) = parse (write (.object es)) := by
  have hread : record known (2 * (chars (.object es)).length + 1) (chars (.object es)) =
      value (2 * (chars (.object es)).length + 2) maxDepth (chars (.object es)) :=
    record_chars hk (by omega)
  rcases hv : value (2 * (chars (.object es)).length + 2) maxDepth (chars (.object es)) with
    _ | ⟨v, rest⟩ <;>
  simp only [parse, parseRecord, write, String.toList_ofList, hread, hv]

/-! ### What a record is read as -/

theorem fits_knownValue {es : Entries Value} {k : String} (hd : 0 < depth)
    (h : knownValue known k fuel depth cs = some (es, rest)) : ∀ e ∈ es, e.2.Fits depth := by
  unfold knownValue at h
  split at h
  · obtain ⟨v, hv, h⟩ := Option.map_eq_some_iff.1 h
    obtain ⟨rfl, -⟩ := Prod.mk.inj h
    exact List.forall_mem_singleton.2 ((accepts fuel).value hd hv)
  · obtain ⟨after, -, h⟩ := Option.map_eq_some_iff.1 h
    obtain ⟨rfl, -⟩ := Prod.mk.inj h
    exact fun e he => absurd he List.not_mem_nil

theorem fits_knownEntries {es : Entries Value} (hd : 0 < depth)
    (h : knownEntries known fuel depth cs = some (es, rest)) : ∀ e ∈ es, e.2.Fits depth := by
  induction fuel generalizing cs es with
  | zero => cases h
  | succ fuel ih =>
    rw [knownEntries] at h
    split at h
    · obtain ⟨⟨key, after⟩, -, h⟩ := Option.bind_eq_some_iff.1 h
      simp only at h
      split at h
      · obtain ⟨⟨first, after'⟩, hfirst, h⟩ := Option.bind_eq_some_iff.1 h
        simp only at h
        split at h
        · obtain ⟨rfl, -⟩ := Prod.mk.inj (Option.some.inj h)
          exact fits_knownValue hd hfirst
        · obtain ⟨⟨ds, rest'⟩, hds, h⟩ := Option.bind_eq_some_iff.1 h
          obtain ⟨rfl, rfl⟩ := Prod.mk.inj (Option.some.inj h)
          exact List.forall_mem_append.2 ⟨fits_knownValue hd hfirst, ih hds⟩
        · cases h
      · cases h
    · cases h

theorem fits_record {v : Value} (h : record known fuel cs = some (v, rest)) : v.Fits maxDepth := by
  unfold record at h
  split at h
  · split at h
    · obtain ⟨rfl, -⟩ := Prod.mk.inj (Option.some.inj h)
      exact (Value.fits_object (by decide)).2 fun e he => absurd he List.not_mem_nil
    · obtain ⟨⟨es, after⟩, hes, h⟩ := Option.map_eq_some_iff.1 h
      obtain ⟨rfl, -⟩ := Prod.mk.inj h
      exact (Value.fits_object (by decide)).2 (fits_knownEntries (by decide) hes)
  · exact (accepts _).value (by decide) h

theorem fits_parseRecord {text : String} {v : Value} (h : parseRecord known text = some v) :
    v.Fits maxDepth := by
  simp only [parseRecord] at h
  split at h
  · next w rest hw =>
    split at h
    · obtain rfl := Option.some.inj h
      exact fits_record hw
    · cases h
  · cases h

end

end MailQueue.Json
