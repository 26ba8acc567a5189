import MailQueue.Proofs.Letter

/-!
# Letters that can be read

The persisted form writes the further fields of a mail beside the well-known ones. A key written
twice is refused by the reader, as are values that stand too deep, so that a letter may be written
that is never read again.

* `once_append` reads a field that may stand in either of two lists of fields;
* `Mail.Readable` says what the further fields of a mail must be like;
* `Mail.ofEntries_isOk` and `Mail.isSome_reread?_iff`: just those mails are read back;
* `Task.isSome_ofLetter_iff`: a letter can be read just when each of its mails is readable.
-/

namespace MailQueue

open Reading

namespace Entries

variable {α : Type} {l : Entries α}

theorem filter_key (h : l.keys.Nodup) (k : String) :
    l.filter (fun e => e.1 == k) = ((l.get? k).map fun v => (k, v)).toList := by
  induction l with
  | nil => rfl
  | cons e l ih =>
    obtain ⟨k', v⟩ := e
    obtain ⟨hk', hn⟩ := List.nodup_cons.1 h
    rw [get?_cons]
    by_cases hk : k' = k
    · subst hk
      have hnone : Entries.get? l k' = none := get?_eq_none_iff.2 hk'
      rw [if_pos rfl, List.filter_cons_of_pos (by simp), ih hn, hnone]
      rfl
    · rw [if_neg hk, List.filter_cons_of_neg (by simpa using hk), ih hn]

end Entries

theorem once_append {a b : Entries Value} (ha : a.keys.Nodup) (hb : b.keys.Nodup) (k : String) :
    once (a ++ b) k =
      match a.get? k, b.get? k with
      | none, o => .ok o
      | some v, none => .ok (some v)
      | some _, some _ => .error (.repeated k) := by
  rw [once, List.filter_append, Entries.filter_key ha, Entries.filter_key hb]
  rcases a.get? k with _ | v <;> rcases b.get? k with _ | w <;> rfl

/-! ### Values -/

namespace Value

/-- What a text that may be absent is read from. -/
def IsText (v : Value) : Prop := v = .null ∨ ∃ s, v = .text s

theorem optional_text_isOk {es : Entries Value} {k : String} {o : Option Value}
    (h : once es k = .ok o) :
    (∃ a, Reading.optional Reading.text es k = .ok a) ↔ ∀ v, o = some v → v.IsText := by
  rw [Reading.optional, h]
  rcases o with _ | v
  · simpa using ⟨_, rfl⟩
  · cases v <;>
      simp [IsText, bind, Except.bind, pure, Except.pure, Reading.text, Functor.map, Except.map]

/-- What is read back is of the same kind. -/
theorem isText_reread {v w : Value} (hl : v.Lawful) {depth : Nat} (h : v.reread depth = some w) :
    w.IsText ↔ v.IsText := by
  cases v with
  | null | bool _ | text _ =>
    obtain rfl := Option.some.inj h
    exact Iff.rfl
  | int i =>
    rw [Lawful] at hl
    rw [reread, Json.number_intDigits hl.1 hl.2] at h
    obtain rfl := Option.some.inj h
    exact Iff.rfl
  | float x =>
    rw [Lawful] at hl
    obtain ⟨o, ho⟩ := Json.number_float hl
    rw [reread, if_pos hl, ho] at h
    cases o with
    | none => cases h
    | some y =>
      obtain rfl := Option.some.inj h
      simp [IsText]
  | list items =>
    rw [reread] at h
    split at h
    · cases h
    · obtain ⟨vs, -, rfl⟩ := Option.map_eq_some_iff.1 h
      simp [IsText]
  | object entries =>
    rw [reread] at h
    split at h
    · cases h
    · obtain ⟨es, -, rfl⟩ := Option.map_eq_some_iff.1 h
      simp [IsText]

theorem get?_rereadEntries {es ds : Entries Value} {depth : Nat}
    (h : rereadEntries depth es = some ds) :
    ds.keys = es.keys ∧ ∀ k, ds.get? k = (es.get? k).bind fun v => v.reread depth := by
  induction es generalizing ds with
  | nil =>
    obtain rfl := Option.some.inj h
    exact ⟨rfl, fun k => rfl⟩
  | cons e es ih =>
    obtain ⟨k, v⟩ := e
    rw [rereadEntries] at h
    obtain ⟨w, hw, h⟩ := Option.bind_eq_some_iff.1 h
    obtain ⟨ds, hds, rfl⟩ := Option.map_eq_some_iff.1 h
    obtain ⟨hkeys, hget⟩ := ih hds
    refine ⟨congrArg (k :: ·) hkeys, fun k' => ?_⟩
    rw [Entries.get?_cons, Entries.get?_cons]
    split
    · exact hw.symm
    · exact hget k'

end Value

/-! ### Mails -/

namespace Mail

variable {m : Mail}

theorem ofEntries_eq_ok_iff {es : Entries Value} {m : Mail} :
    ofEntries es = .ok m ↔
      es.forM checkEntry = .ok () ∧ required Recipient.ofValue es "to" = .ok m.recipient ∧
        Reading.optional Reading.text es "from" = .ok m.sender ∧
        Reading.optional Reading.text es "subject" = .ok m.subject ∧
        Reading.optional Reading.text es "text" = .ok m.text ∧
        Reading.optional Reading.text es "html" = .ok m.html ∧
        Fields.ofEntries (Value.mergedEntries
          (es.filter fun e => decide (e.1 ∉ knownKeys))) = m.extra := by
  rcases m with ⟨r, sender, subject, text, html, extra⟩
  unfold ofEntries
  rcases es.forM checkEntry with e | ⟨⟩
  · simp [bind, Except.bind]
  rcases required Recipient.ofValue es "to" with e | r'
  · simp [bind, Except.bind]
  rcases Reading.optional Reading.text es "from" with e | sender'
  · simp [bind, Except.bind]
  rcases Reading.optional Reading.text es "subject" with e | subject'
  · simp [bind, Except.bind]
  rcases Reading.optional Reading.text es "text" with e | text'
  · simp [bind, Except.bind]
  rcases Reading.optional Reading.text es "html" with e | html'
  · simp [bind, Except.bind]
  simp [bind, Except.bind, pure, Except.pure]

/-- A letter with the mail in it can be read: no further field has the name of the recipient, one
with the name of a text is a text in the place of an absent one, and the values of the further
fields stand not too deep and hold no float that is refused. -/
structure Readable (m : Mail) : Prop where
  recipient : "to" ∉ m.extra.keys
  texts : ∀ e ∈ m.texts, ∀ v, m.extra.get? e.1 = some v → e.2 = none ∧ v.IsText
  depth : Value.depthEntries m.extra.entries ≤ 124
  legible : Value.LegibleEntries m.extra.entries

theorem nodup_known (m : Mail) : m.known.keys.Nodup :=
  List.Nodup.sublist (keys_known_sublist m) (by decide)

theorem get?_known_to (m : Mail) : m.known.get? "to" = some m.recipient.toValue := rfl

theorem get?_known_text {e : String × Option String} (he : e ∈ m.texts) :
    m.known.get? e.1 = e.2.map Value.text := by
  rcases m with ⟨r, sender, subject, text, html, extra⟩
  simp only [texts, List.mem_cons, List.not_mem_nil, or_false] at he
  rcases he with rfl | rfl | rfl | rfl <;>
    cases sender <;> cases subject <;> cases text <;> cases html <;> rfl

theorem mem_texts_of_mem_knownKeys {k : String} (h : k ∈ knownKeys) (hto : k ≠ "to") :
    ∃ e ∈ m.texts, e.1 = k := by
  simpa [knownKeys, texts, hto, eq_comm] using h

section

variable {es : Entries Value} (hn : es.keys.Nodup)

include hn

theorem required_to_isOk :
    (∃ r, required Recipient.ofValue (m.known ++ es) "to" = .ok r) ↔ "to" ∉ es.keys := by
  rw [← Entries.get?_eq_none_iff, required, once_append m.nodup_known hn, get?_known_to]
  rcases es.get? "to" with _ | v
  · simpa using ⟨m.recipient, m.recipient.ofValue_toValue⟩
  · simp [bind, Except.bind]

theorem optional_known_isOk {e : String × Option String} (he : e ∈ m.texts) :
    (∃ a, Reading.optional Reading.text (m.known ++ es) e.1 = .ok a) ↔
      ∀ v, es.get? e.1 = some v → e.2 = none ∧ v.IsText := by
  have honce := once_append m.nodup_known hn e.1
  rw [get?_known_text he] at honce
  rcases e with ⟨k, _ | s⟩ <;> rcases hv : es.get? k with _ | v <;>
    simp only [Option.map_none, Option.map_some, hv] at honce
  · simp [Value.optional_text_isOk honce]
  · simp [Value.optional_text_isOk honce]
  · simp [Value.optional_text_isOk honce, Value.IsText]
  · simp [Reading.optional, honce, bind, Except.bind]

end

theorem checkEntry_text {e : String × Value} (hto : e.1 ≠ "to")
    (h : e.1 ∈ knownKeys → e.2.IsText) : checkEntry e = .ok () := by
  rw [checkEntry, if_neg hto]
  split
  · next hk =>
    rcases e with ⟨k, v⟩
    rcases h hk with hv | ⟨s, hv⟩ <;> simp only at hv <;> subst hv <;> rfl
  · rfl

/-- Further fields are read along with the well-known ones if none of them stands in the way. -/
theorem ofEntries_isOk {es : Entries Value} (hn : es.keys.Nodup) :
    (∃ m', ofEntries (m.known ++ es) = .ok m') ↔
      "to" ∉ es.keys ∧ ∀ e ∈ m.texts, ∀ v, es.get? e.1 = some v → e.2 = none ∧ v.IsText := by
  constructor
  · rintro ⟨m', hm'⟩
    obtain ⟨-, hto, hsender, hsubject, htext, hhtml, -⟩ := ofEntries_eq_ok_iff.1 hm'
    refine ⟨(required_to_isOk hn).1 ⟨_, hto⟩, fun e he => (optional_known_isOk hn he).1 ?_⟩
    simp only [texts, List.mem_cons, List.not_mem_nil, or_false] at he
    rcases he with rfl | rfl | rfl | rfl
    · exact ⟨_, hsender⟩
    · exact ⟨_, hsubject⟩
    · exact ⟨_, htext⟩
    · exact ⟨_, hhtml⟩
  · rintro ⟨hto, htexts⟩
    have hcheck : (m.known ++ es).forM checkEntry = .ok () := by
      refine forM_eq_ok fun e he => ?_
      rcases List.mem_append.1 he with he | he
      · exact checkEntry_known he
      · have hne : e.1 ≠ "to" := fun h => hto (h ▸ List.mem_map_of_mem he)
        refine checkEntry_text hne fun hk => ?_
        obtain ⟨d, hd, hde⟩ := mem_texts_of_mem_knownKeys hk hne
        exact (htexts d hd e.2 (hde ▸ Entries.get?_of_mem hn he)).2
    have hopt : ∀ e ∈ m.texts, ∃ a, Reading.optional Reading.text (m.known ++ es) e.1 = .ok a :=
      fun e he => (optional_known_isOk hn he).2 (htexts e he)
    obtain ⟨r, hr⟩ := (required_to_isOk hn).2 hto
    obtain ⟨sender, hsender⟩ := hopt ("from", m.sender) (by simp [texts])
    obtain ⟨subject, hsubject⟩ := hopt ("subject", m.subject) (by simp [texts])
    obtain ⟨text, htext⟩ := hopt ("text", m.text) (by simp [texts])
    obtain ⟨html, hhtml⟩ := hopt ("html", m.html) (by simp [texts])
    exact ⟨⟨r, sender, subject, text, html, _⟩,
      ofEntries_eq_ok_iff.2 ⟨hcheck, hr, hsender, hsubject, htext, hhtml, rfl⟩⟩

theorem isText_under {es : Entries Value} (hl : Value.LawfulEntries m.extra.entries)
    (hes : Value.rereadEntries 125 m.extra.entries = some es) (k : String) (o : Option String) :
    (∀ v, es.get? k = some v → o = none ∧ v.IsText) ↔
      ∀ v, m.extra.get? k = some v → o = none ∧ v.IsText := by
  have hget := (Value.get?_rereadEntries hes).2 k
  rcases hv : m.extra.entries.get? k with _ | v <;> rw [hv] at hget
  · simp [Fields.get?, hget, hv]
  · have hlv := Value.lawfulEntries_iff.1 hl _ (Entries.mem_of_get? hv)
    have hw : ∃ w, v.reread 125 = some w := by
      have hmem : k ∈ es.keys := by
        rw [(Value.get?_rereadEntries hes).1]
        exact List.mem_map_of_mem (f := Prod.fst) (Entries.mem_of_get? hv)
      rcases hw : v.reread 125 with _ | w
      · rw [Option.bind_some, hw] at hget
        exact absurd hmem (Entries.get?_eq_none_iff.1 hget)
      · exact ⟨w, rfl⟩
    obtain ⟨w, hw⟩ := hw
    rw [Option.bind_some, hw] at hget
    simp [Fields.get?, hget, hv, Value.isText_reread hlv hw]

/-- **A letter gives a mail back** just when it is readable. -/
theorem isSome_reread?_iff (hl : Value.LawfulEntries m.extra.entries) :
    m.reread?.isSome ↔ m.Readable := by
  have hread := Value.isSome_rereadEntries m.extra.entries hl (show 0 < 125 by omega)
  rw [reread?]
  rcases hes : Value.rereadEntries 125 m.extra.entries with _ | es <;> rw [hes] at hread
  · have hnot : ¬m.Readable := fun h =>
      absurd (hread.2 ⟨Nat.lt_succ_of_le h.depth, h.legible⟩) (by simp)
    simpa using hnot
  · obtain ⟨hdepth, hlegible⟩ := hread.1 rfl
    have hkeys := (Value.get?_rereadEntries hes).1
    have hok := ofEntries_isOk (m := m) (hkeys ▸ m.extra.nodup : es.keys.Nodup)
    simp only [hkeys, isText_under hl hes] at hok
    have hsome : (ofEntries (m.known ++ es)).toOption.isSome ↔
        ∃ m', ofEntries (m.known ++ es) = .ok m' := by
      rcases ofEntries (m.known ++ es) with e | m' <;> simp [Except.toOption]
    rw [Option.bind_some, hsome, hok]
    exact ⟨fun h => ⟨h.1, h.2, Nat.le_of_lt_succ hdepth, hlegible⟩, fun h => ⟨h.recipient, h.texts⟩⟩

theorem isSome_mapM_reread? {ms : List Mail} :
    (ms.mapM reread?).isSome ↔ ∀ m ∈ ms, m.reread?.isSome := by
  induction ms with
  | nil => simp
  | cons m ms ih =>
    rw [List.mapM_cons, List.forall_mem_cons, ← ih]
    rcases m.reread? with _ | m'
    · simp
    · rcases ms.mapM reread? with _ | ms' <;> simp

end Mail

/-! ### Tasks -/

namespace Task

/-- **A letter can be read** just when each of its mails is readable. -/
theorem isSome_ofLetter_iff {t : Task} (ht : t.transport < UInt64.size)
    (hl : ∀ m ∈ t.fragments, Value.LawfulEntries m.extra.entries) :
    (ofLetter t.letter).isSome ↔ ∀ m ∈ t.fragments, m.Readable := by
  rw [ofLetter_letter_eq ht, Option.isSome_map, Mail.isSome_mapM_reread?]
  exact forall₂_congr fun m hm => Mail.isSome_reread?_iff (hl m hm)

end Task

end MailQueue
