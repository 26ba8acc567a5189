import MailQueue.Proofs.Json.RoundTrip

/-!
# What the reader of JSON accepts

The values that a text can be read as: their integers are words, and lists and objects do not stand
deeper than the reader goes. An object may have a key twice; `Value.merged` gives it each key once.

* `Value.Worded` says that the integers are words, and `Value.Fits` adds the depth;
* `Json.Reads` are the ways in which a value is read, and `reads_of_value`, `items_eq_some` and
  `entries_eq_some` take a reader apart that has read something;
* `Json.accepts` is what the readers of values, items and entries accept;
* `Value.depth_merged_le` and `Value.lawful_merged`: with each key once, such a value stands no
  deeper and is one that a program can hold.
-/

namespace MailQueue

namespace Value

mutual

/-- The integers are words of 64 bits, signed or unsigned. -/
def Worded : Value → Prop
  | int i => -9223372036854775808 ≤ i ∧ i < (UInt64.size : Int)
  | list items => WordedItems items
  | object entries => WordedEntries entries
  | _ => True

def WordedItems : List Value → Prop
  | [] => True
  | v :: rest => Worded v ∧ WordedItems rest

def WordedEntries : List (String × Value) → Prop
  | [] => True
  | (_, v) :: rest => Worded v ∧ WordedEntries rest

end

theorem wordedItems_iff {vs : List Value} : WordedItems vs ↔ ∀ v ∈ vs, v.Worded := by
  induction vs with
  | nil => simp [WordedItems]
  | cons v vs ih => simp [WordedItems, ih]

theorem wordedEntries_iff {es : Entries Value} : WordedEntries es ↔ ∀ e ∈ es, e.2.Worded := by
  induction es with
  | nil => simp [WordedEntries]
  | cons e es ih => simp [WordedEntries, ih]

/-- What is read where lists and objects may stand less than `depth` deep. -/
structure Fits (depth : Nat) (v : Value) : Prop where
  worded : v.Worded
  depth : v.depth < depth

section

variable {depth : Nat} {vs : List Value} {es : Entries Value}

theorem fits_list (hd : 1 < depth) : Fits depth (list vs) ↔ ∀ v ∈ vs, Fits (depth - 1) v := by
  have hdepth : (list vs).depth < depth ↔ ∀ v ∈ vs, v.depth < depth - 1 := by
    have hle : depthItems vs ≤ depth - 2 ↔ ∀ v ∈ vs, v.depth ≤ depth - 2 := depthItems_le_iff
    rw [Value.depth]
    constructor
    · intro h v hv
      have := hle.1 (by omega) v hv
      omega
    · intro h
      have := hle.2 fun v hv => by have := h v hv; omega
      omega
  constructor
  · rintro ⟨hw, hlt⟩ v hv
    rw [Worded, wordedItems_iff] at hw
    exact ⟨hw v hv, hdepth.1 hlt v hv⟩
  · intro h
    refine ⟨?_, hdepth.2 fun v hv => (h v hv).depth⟩
    rw [Worded, wordedItems_iff]
    exact fun v hv => (h v hv).worded

theorem fits_object (hd : 1 < depth) :
    Fits depth (object es) ↔ ∀ e ∈ es, Fits (depth - 1) e.2 := by
  have hdepth : (object es).depth < depth ↔ ∀ e ∈ es, e.2.depth < depth - 1 := by
    have hle : depthEntries es ≤ depth - 2 ↔ ∀ e ∈ es, e.2.depth ≤ depth - 2 := depthEntries_le_iff
    rw [Value.depth]
    constructor
    · intro h e he
      have := hle.1 (by omega) e he
      omega
    · intro h
      have := hle.2 fun e he => by have := h e he; omega
      omega
  constructor
  · rintro ⟨hw, hlt⟩ e he
    rw [Worded, wordedEntries_iff] at hw
    exact ⟨hw e he, hdepth.1 hlt e he⟩
  · intro h
    refine ⟨?_, hdepth.2 fun e he => (h e he).depth⟩
    rw [Worded, wordedEntries_iff]
    exact fun e he => (h e he).worded

end

end Value

/-! ### The reader -/

namespace Json

open Number Value

/-- A literal without point and exponent is a word or a float. -/
theorem fits_wholeNumber {negative : Bool} {ds : List Char} {v : Value} {depth : Nat}
    (hd : 0 < depth) (h : wholeNumber negative ds = some v) : v.Fits depth := by
  simp only [wholeNumber] at h
  split at h
  · split at h
    · next hn =>
      obtain rfl := Option.some.inj h
      have hsize : (UInt64.size : Int) = 18446744073709551616 := rfl
      exact ⟨⟨by omega, by omega⟩, hd⟩
    · obtain ⟨x, -, rfl⟩ := Option.map_eq_some_iff.1 h
      exact ⟨trivial, hd⟩
  · split at h
    · next hn =>
      obtain rfl := Option.some.inj h
      exact ⟨⟨by omega, Int.ofNat_lt.2 hn⟩, hd⟩
    · obtain ⟨x, -, rfl⟩ := Option.map_eq_some_iff.1 h
      exact ⟨trivial, hd⟩

theorem fits_unsignedNumber {negative : Bool} {cs rest : List Char} {v : Value} {depth : Nat}
    (hd : 0 < depth) (h : unsignedNumber negative cs = some (v, rest)) : v.Fits depth := by
  simp only [unsignedNumber] at h
  split at h
  · cases h
  · obtain ⟨⟨fraction, rest'⟩, -, h⟩ := Option.bind_eq_some_iff.1 h
    obtain ⟨⟨e, rest''⟩, -, h⟩ := Option.bind_eq_some_iff.1 h
    simp only at h
    split at h
    · obtain ⟨w, hw, h⟩ := Option.bind_eq_some_iff.1 h
      obtain ⟨rfl, -⟩ := Prod.mk.inj (Option.some.inj h)
      exact fits_wholeNumber hd hw
    · obtain ⟨x, -, h⟩ := Option.bind_eq_some_iff.1 h
      obtain ⟨rfl, -⟩ := Prod.mk.inj (Option.some.inj h)
      exact ⟨trivial, hd⟩

theorem fits_number {cs rest : List Char} {v : Value} {depth : Nat} (hd : 0 < depth)
    (h : number cs = some (v, rest)) : v.Fits depth := by
  unfold number at h
  split at h
  · exact fits_unsignedNumber hd h
  · exact fits_unsignedNumber hd h

/-! ### How the readers read -/

theorem head_of_number {cs rest : List Char} {v : Value} (h : number cs = some (v, rest)) :
    ∃ c cs', cs = c :: cs' ∧ (c = '-' ∨ c.isDigit = true) := by
  unfold number at h
  split at h
  · exact ⟨_, _, rfl, .inl rfl⟩
  · simp only [unsignedNumber] at h
    split at h
    · cases h
    · next hwhole =>
      rcases cs with _ | ⟨c, cs⟩
      · exact absurd (.inl rfl) hwhole
      · by_cases hc : c.isDigit = true
        · exact ⟨c, cs, rfl, .inr hc⟩
        · exact absurd (.inl (by simp [digits, hc])) hwhole

/-- How a value is read that stands at the front of the characters. -/
inductive Reads (fuel depth : Nat) : List Char → Value → List Char → Prop
  | null {rest : List Char} : Reads fuel depth ('n' :: 'u' :: 'l' :: 'l' :: rest) .null rest
  | true {rest : List Char} : Reads fuel depth ('t' :: 'r' :: 'u' :: 'e' :: rest) (.bool true) rest
  | false {rest : List Char} :
      Reads fuel depth ('f' :: 'a' :: 'l' :: 's' :: 'e' :: rest) (.bool false) rest
  | text {start s rest : List Char} (h : stringTail (start.length + 1) start = some (s, rest)) :
      Reads fuel depth ('"' :: start) (.text (String.ofList s)) rest
  | noItems {start rest : List Char} (hd : 1 < depth) (hend : skipSpace start = ']' :: rest) :
      Reads fuel depth ('[' :: start) (.list []) rest
  | items {start rest : List Char} {vs : List Value} (hd : 1 < depth)
      (hgo : ∀ rest, skipSpace start ≠ ']' :: rest)
      (h : Json.items fuel (depth - 1) (skipSpace start) = some (vs, rest)) :
      Reads fuel depth ('[' :: start) (.list vs) rest
  | noEntries {start rest : List Char} (hd : 1 < depth) (hend : skipSpace start = '\x7d' :: rest) :
      Reads fuel depth ('\x7b' :: start) (.object []) rest
  | entries {start rest : List Char} {es : Entries Value} (hd : 1 < depth)
      (hgo : ∀ rest, skipSpace start ≠ '\x7d' :: rest)
      (h : Json.entries fuel (depth - 1) (skipSpace start) = some (es, rest)) :
      Reads fuel depth ('\x7b' :: start) (.object es) rest
  | number {c : Char} {cs rest : List Char} {v : Value} (hc : c = '-' ∨ c.isDigit = true)
      (h : Json.number (c :: cs) = some (v, rest)) : Reads fuel depth (c :: cs) v rest

section

variable {fuel depth : Nat} {cs rest : List Char}

/-- **There is no other way to read a value.** -/
theorem reads_of_value {v : Value} (h : value (fuel + 1) depth cs = some (v, rest)) :
    Reads fuel depth (skipSpace cs) v rest := by
  rw [value] at h
  generalize skipSpace cs = cs' at h ⊢
  split at h
  · obtain ⟨rfl, rfl⟩ := Prod.mk.inj (Option.some.inj h)
    exact .null
  · obtain ⟨rfl, rfl⟩ := Prod.mk.inj (Option.some.inj h)
    exact .true
  · obtain ⟨rfl, rfl⟩ := Prod.mk.inj (Option.some.inj h)
    exact .false
  · obtain ⟨⟨s, after⟩, hs, h⟩ := Option.bind_eq_some_iff.1 h
    obtain ⟨rfl, rfl⟩ := Prod.mk.inj (Option.some.inj h)
    exact .text hs
  · split at h
    · cases h
    · next hd =>
      split at h
      · next hend =>
        obtain ⟨rfl, rfl⟩ := Prod.mk.inj (Option.some.inj h)
        exact .noItems (Nat.not_le.1 hd) hend
      · next hgo =>
        obtain ⟨⟨vs, after⟩, hvs, h⟩ := Option.bind_eq_some_iff.1 h
        obtain ⟨rfl, rfl⟩ := Prod.mk.inj (Option.some.inj h)
        exact .items (Nat.not_le.1 hd) hgo hvs
  · split at h
    · cases h
    · next hd =>
      split at h
      · next hend =>
        obtain ⟨rfl, rfl⟩ := Prod.mk.inj (Option.some.inj h)
        exact .noEntries (Nat.not_le.1 hd) hend
      · next hgo =>
        obtain ⟨⟨es, after⟩, hes, h⟩ := Option.bind_eq_some_iff.1 h
        obtain ⟨rfl, rfl⟩ := Prod.mk.inj (Option.some.inj h)
        exact .entries (Nat.not_le.1 hd) hgo hes
  · obtain ⟨c, cs', rfl, hc⟩ := head_of_number h
    exact .number hc h

/-- How the items of a list are read: a value, and the other items. -/
theorem items_eq_some {vs : List Value} (h : items (fuel + 1) depth cs = some (vs, rest)) :
    ∃ v after, value fuel depth cs = some (v, after) ∧
      ((skipSpace after = ']' :: rest ∧ vs = [v]) ∨
        ∃ more ws, skipSpace after = ',' :: more ∧
          items fuel depth more = some (ws, rest) ∧ vs = v :: ws) := by
  rw [items] at h
  obtain ⟨⟨v, after⟩, hv, h⟩ := Option.bind_eq_some_iff.1 h
  refine ⟨v, after, hv, ?_⟩
  simp only at h
  split at h
  · next hend =>
    obtain ⟨rfl, rfl⟩ := Prod.mk.inj (Option.some.inj h)
    exact .inl ⟨hend, rfl⟩
  · next more hmore =>
    obtain ⟨⟨ws, rest'⟩, hws, h⟩ := Option.bind_eq_some_iff.1 h
    obtain ⟨rfl, rfl⟩ := Prod.mk.inj (Option.some.inj h)
    exact .inr ⟨more, ws, hmore, hws, rfl⟩
  · cases h

/-- How the entries of an object are read: a key, its value, and the other entries. -/
theorem entries_eq_some {es : Entries Value}
    (h : entries (fuel + 1) depth cs = some (es, rest)) :
    ∃ start key afterKey afterColon v after,
      skipSpace cs = '"' :: start ∧
      stringTail (start.length + 1) start = some (key, afterKey) ∧
      skipSpace afterKey = ':' :: afterColon ∧
      value fuel depth afterColon = some (v, after) ∧
      ((skipSpace after = '\x7d' :: rest ∧ es = [(String.ofList key, v)]) ∨
        ∃ more ds, skipSpace after = ',' :: more ∧
          entries fuel depth more = some (ds, rest) ∧ es = (String.ofList key, v) :: ds) := by
  rw [entries] at h
  split at h
  · next start hstart =>
    obtain ⟨⟨key, afterKey⟩, hkey, h⟩ := Option.bind_eq_some_iff.1 h
    simp only at h
    split at h
    · next afterColon hcolon =>
      obtain ⟨⟨v, after⟩, hv, h⟩ := Option.bind_eq_some_iff.1 h
      refine ⟨start, key, afterKey, afterColon, v, after, hstart, hkey, hcolon, hv, ?_⟩
      simp only at h
      split at h
      · next hend =>
        obtain ⟨rfl, rfl⟩ := Prod.mk.inj (Option.some.inj h)
        exact .inl ⟨hend, rfl⟩
      · next more hmore =>
        obtain ⟨⟨ds, rest'⟩, hds, h⟩ := Option.bind_eq_some_iff.1 h
        obtain ⟨rfl, rfl⟩ := Prod.mk.inj (Option.some.inj h)
        exact .inr ⟨more, ds, hmore, hds, rfl⟩
      · cases h
    · cases h
  · cases h

/-! ### What they accept -/

/-- What the readers accept that have so much fuel. -/
structure Accepts (fuel : Nat) : Prop where
  value : ∀ {depth cs v rest}, 0 < depth → value fuel depth cs = some (v, rest) → v.Fits depth
  items : ∀ {depth cs vs rest}, 0 < depth → items fuel depth cs = some (vs, rest) →
    ∀ v ∈ vs, v.Fits depth
  entries : ∀ {depth cs es rest}, 0 < depth → entries fuel depth cs = some (es, rest) →
    ∀ e ∈ es, e.2.Fits depth

theorem Accepts.value_succ (ih : Accepts fuel) {v : Value} (hd : 0 < depth)
    (h : Json.value (fuel + 1) depth cs = some (v, rest)) : v.Fits depth := by
  have hreads := reads_of_value h
  generalize skipSpace cs = cs' at hreads
  cases hreads with
  | null => exact ⟨trivial, hd⟩
  | true => exact ⟨trivial, hd⟩
  | false => exact ⟨trivial, hd⟩
  | text => exact ⟨trivial, hd⟩
  | noItems hdepth => exact (fits_list hdepth).2 fun v hv => absurd hv List.not_mem_nil
  | items hdepth hgo hvs => exact (fits_list hdepth).2 (ih.items (by omega) hvs)
  | noEntries hdepth => exact (fits_object hdepth).2 fun e he => absurd he List.not_mem_nil
  | entries hdepth hgo hes => exact (fits_object hdepth).2 (ih.entries (by omega) hes)
  | number hc hn => exact fits_number hd hn

theorem Accepts.items_succ (ih : Accepts fuel) {vs : List Value} (hd : 0 < depth)
    (h : Json.items (fuel + 1) depth cs = some (vs, rest)) : ∀ v ∈ vs, v.Fits depth := by
  obtain ⟨v, after, hv, ⟨-, rfl⟩ | ⟨more, ws, -, hws, rfl⟩⟩ := items_eq_some h
  · exact List.forall_mem_singleton.2 (ih.value hd hv)
  · exact List.forall_mem_cons.2 ⟨ih.value hd hv, ih.items hd hws⟩

theorem Accepts.entries_succ (ih : Accepts fuel) {es : Entries Value} (hd : 0 < depth)
    (h : Json.entries (fuel + 1) depth cs = some (es, rest)) : ∀ e ∈ es, e.2.Fits depth := by
  obtain ⟨_, _, _, _, v, _, -, -, -, hv, ⟨-, rfl⟩ | ⟨more, ds, -, hds, rfl⟩⟩ := entries_eq_some h
  · exact List.forall_mem_singleton.2 (ih.value hd hv)
  · exact List.forall_mem_cons.2 ⟨ih.value hd hv, ih.entries hd hds⟩

end

/-- **What the readers accept**, by induction on the fuel. -/
theorem accepts (fuel : Nat) : Accepts fuel := by
  induction fuel with
  | zero => exact ⟨nofun, nofun, nofun⟩
  | succ fuel ih => exact ⟨ih.value_succ, ih.items_succ, ih.entries_succ⟩

end Json

/-! ### Each key once -/

theorem Entries.mem_merge {α : Type} {l : Entries α} {e : String × α} (h : e ∈ l.merge) :
    e ∈ l := by
  have hfold : ∀ (l acc : Entries α), e ∈ l.foldl (fun acc d => put acc d.1 d.2) acc →
      e ∈ acc ∨ e ∈ l := by
    intro l
    induction l with
    | nil => exact fun acc h => .inl h
    | cons d l ih =>
      intro acc h
      rcases ih _ h with h | h
      · rcases mem_put h with rfl | h
        · exact .inr List.mem_cons_self
        · exact .inl h
      · exact .inr (List.mem_cons_of_mem _ h)
  exact (hfold l [] h).resolve_left List.not_mem_nil

namespace Value

theorem mem_mergedEntries {es : Entries Value} {e : String × Value} (h : e ∈ mergedEntries es) :
    ∃ d ∈ es, e = (d.1, d.2.merged) := by
  induction es with
  | nil => cases h
  | cons d es ih =>
    rw [mergedEntries] at h
    rcases List.mem_cons.1 h with rfl | h
    · exact ⟨d, List.mem_cons_self, rfl⟩
    · obtain ⟨d', hd, rfl⟩ := ih h
      exact ⟨d', List.mem_cons_of_mem _ hd, rfl⟩

mutual

theorem depth_merged_le (v : Value) : v.merged.depth ≤ v.depth := by
  match v with
  | null | bool _ | int _ | float _ | text _ => exact Nat.le_refl _
  | list vs =>
    have h := depthItems_merged_le vs
    simp only [merged, depth]
    omega
  | object es =>
    have h := depthEntries_merged_le es
    have hmerge : depthEntries (Entries.merge (mergedEntries es)) ≤ depthEntries es := by
      refine Nat.le_trans (depthEntries_le_iff.2 fun e he => ?_) h
      exact depthEntries_le_iff.1 (Nat.le_refl _) e (Entries.mem_merge he)
    simp only [merged, depth]
    omega

theorem depthItems_merged_le (vs : List Value) :
    depthItems (mergedItems vs) ≤ depthItems vs := by
  match vs with
  | [] => exact Nat.le_refl _
  | v :: vs =>
    have hv := depth_merged_le v
    have hvs := depthItems_merged_le vs
    simp only [mergedItems, depthItems]
    omega

theorem depthEntries_merged_le (es : List (String × Value)) :
    depthEntries (mergedEntries es) ≤ depthEntries es := by
  match es with
  | [] => exact Nat.le_refl _
  | (k, v) :: es =>
    have hv := depth_merged_le v
    have hes := depthEntries_merged_le es
    simp only [mergedEntries, depthEntries]
    omega

end

theorem isFinite_of_faithful {x : Float} (h : (float x).Faithful) : x.isFinite = true := by
  by_contra hx
  rw [Faithful, Json.float, if_neg hx] at h
  cases h

mutual

/-- **With each key once**, a value that is read is one that a program can hold, if its floats are
read back. -/
theorem lawful_merged (v : Value) (hw : v.Worded) (hf : v.merged.Faithful) : v.merged.Lawful := by
  match v with
  | null | bool _ | text _ => trivial
  | int i =>
    rw [Worded] at hw
    exact hw
  | float x => exact isFinite_of_faithful hf
  | list vs =>
    rw [Worded] at hw
    rw [merged, Faithful] at hf
    rw [merged, Lawful]
    exact lawfulItems_merged vs hw hf
  | object es =>
    rw [Worded] at hw
    rw [merged, Faithful, faithfulEntries_iff] at hf
    rw [merged, Lawful, lawfulEntries_iff]
    exact ⟨Entries.nodup_keys_merge _, fun e he =>
      lawfulEntries_merged es hw e (Entries.mem_merge he) (hf e he)⟩

theorem lawfulItems_merged (vs : List Value) (hw : WordedItems vs)
    (hf : FaithfulItems (mergedItems vs)) : LawfulItems (mergedItems vs) := by
  match vs with
  | [] => trivial
  | v :: vs =>
    rw [WordedItems] at hw
    rw [mergedItems, FaithfulItems] at hf
    rw [mergedItems, LawfulItems]
    exact ⟨lawful_merged v hw.1 hf.1, lawfulItems_merged vs hw.2 hf.2⟩

theorem lawfulEntries_merged (es : List (String × Value)) (hw : WordedEntries es) :
    ∀ e ∈ mergedEntries es, e.2.Faithful → e.2.Lawful := by
  match es with
  | [] => exact fun e he => absurd he List.not_mem_nil
  | (k, v) :: es =>
    rw [WordedEntries] at hw
    rw [mergedEntries, List.forall_mem_cons]
    exact ⟨lawful_merged v hw.1, lawfulEntries_merged es hw.2⟩

end

end Value

end MailQueue
