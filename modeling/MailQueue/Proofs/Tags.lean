import MailQueue.Proofs.Template

/-!
# Tags

What becomes of a text when its tags are taken out. A tag starts at a `<` and ends at the first `>`
after it; a `<` that nothing closes stays, and so does a `>` that closes nothing.

* `Template.HasTag` says that a text has a tag;
* `Template.Cutting` reads a text from the left in `Cut`s, the tags and the characters that stay;
  `Cutting.exists_of_text` says that each text has such a reading;
* `withoutTags_of_cutting`: what stays is what `stripTags` leaves, and `Cutting.not_hasTag`: it has
  no tag, whatever has come to stand side by side;
* `Template.tags_stripped` is what this comes to for texts and for what a template is filled with.
-/

namespace MailQueue.Template

variable {c : Char} {cs inner : List Char}

/-- Somewhere a `<` stands, and a `>` somewhere after it. -/
def HasTag (cs : List Char) : Prop :=
  ∃ front inner rest, cs = front ++ '<' :: (inner ++ '>' :: rest)

theorem not_hasTag_nil : ¬HasTag [] := by
  rintro ⟨front, inner, rest, h⟩
  simp at h

/-- The first tag starts at the first character, or after it. -/
theorem hasTag_cons : HasTag (c :: cs) ↔ c = '<' ∧ '>' ∈ cs ∨ HasTag cs := by
  constructor
  · rintro ⟨front, inner, rest, h⟩
    rcases front with _ | ⟨d, front⟩
    · obtain ⟨rfl, rfl⟩ := List.cons.inj h
      exact .inl ⟨rfl, by simp⟩
    · exact .inr ⟨front, inner, rest, (List.cons.inj h).2⟩
  · rintro (⟨rfl, h⟩ | ⟨front, inner, rest, rfl⟩)
    · obtain ⟨inner, rest, rfl⟩ := List.append_of_mem h
      exact ⟨[], inner, rest, rfl⟩
    · exact ⟨c :: front, inner, rest, rfl⟩

/-- A text without a `<` has no tag. -/
theorem not_hasTag_of_not_mem (h : '<' ∉ cs) : ¬HasTag cs := by
  rintro ⟨front, inner, rest, rfl⟩
  simp at h

/-! ### A text cut into tags and the rest -/

/-- What a text is cut into: a character that stays, or a tag, with what stands inside it. -/
inductive Cut where
  | kept (c : Char)
  | tag (inner : List Char)

def Cut.written : Cut → List Char
  | .kept c => [c]
  | .tag inner => '<' :: (inner ++ ['>'])

def Cut.left : Cut → List Char
  | .kept c => [c]
  | .tag _ => []

/-- A text cut from the left: a tag goes up to the first `>`, and a `<` stays only when there is
none. -/
inductive Cutting : List Char → List Cut → Prop
  | done : Cutting [] []
  | kept {c : Char} {cs : List Char} {cuts : List Cut} : (c = '<' → '>' ∉ cs) →
      Cutting cs cuts → Cutting (c :: cs) (.kept c :: cuts)
  | tag {inner cs : List Char} {cuts : List Cut} : '>' ∉ inner → Cutting cs cuts →
      Cutting ('<' :: (inner ++ '>' :: cs)) (.tag inner :: cuts)

variable {cuts : List Cut}

/-- Each text can be cut. -/
theorem Cutting.exists_of_text (cs : List Char) : ∃ cuts, Cutting cs cuts := by
  -- by the length, since a tag takes several characters at once
  induction hlen : cs.length using Nat.strong_induction_on generalizing cs with
  | _ n ih =>
    rcases cs with _ | ⟨c, cs⟩
    · exact ⟨[], .done⟩
    by_cases htag : c = '<' ∧ '>' ∈ cs
    · obtain ⟨rfl, hclose⟩ := htag
      obtain ⟨inner, rest, rfl, hinner⟩ := List.eq_append_cons_of_mem hclose
      obtain ⟨cuts, hcuts⟩ := ih rest.length (by simp at hlen; omega) rest rfl
      exact ⟨_, .tag hinner hcuts⟩
    · obtain ⟨cuts, hcuts⟩ := ih cs.length (by simp at hlen; omega) cs rfl
      exact ⟨_, .kept (fun hc hclose => htag ⟨hc, hclose⟩) hcuts⟩

theorem Cutting.flatMap_written (h : Cutting cs cuts) : cuts.flatMap Cut.written = cs := by
  induction h with
  | done => rfl
  | kept _ _ ih => rw [List.flatMap_cons, ih]; rfl
  | tag _ _ ih => simp [List.flatMap_cons, ih, Cut.written]

/-- What stays of a text is part of it, in order. -/
theorem Cutting.left_sublist (h : Cutting cs cuts) : (cuts.flatMap Cut.left).Sublist cs := by
  rw [← h.flatMap_written]
  clear h
  induction cuts with
  | nil => exact .refl _
  | cons cut cuts ih =>
    rw [List.flatMap_cons, List.flatMap_cons]
    refine .append ?_ ih
    cases cut with
    | kept c => exact .refl _
    | tag inner => exact List.nil_sublist _

theorem Cutting.not_mem_inner (h : Cutting cs cuts) (hcut : .tag inner ∈ cuts) : '>' ∉ inner := by
  induction h with
  | done => cases hcut
  | kept _ _ ih =>
    rcases List.mem_cons.1 hcut with hcut | hcut
    · cases hcut
    · exact ih hcut
  | tag hinner _ ih =>
    rcases List.mem_cons.1 hcut with hcut | hcut
    · cases hcut
      exact hinner
    · exact ih hcut

theorem Cutting.not_mem_after {front after : List Cut}
    (h : Cutting cs (front ++ .kept '<' :: after)) : '>' ∉ after.flatMap Cut.written := by
  induction front generalizing cs with
  | nil =>
    cases h with
    | kept hopen hrest => rw [hrest.flatMap_written]; exact hopen rfl
  | cons cut front ih =>
    cases h with
    | kept _ hrest => exact ih hrest
    | tag _ hrest => exact ih hrest

/-- **What stays has no tag.** A `<` stays only where no `>` follows, so none follows it either when
the tags in between are gone. -/
theorem Cutting.not_hasTag (h : Cutting cs cuts) : ¬HasTag (cuts.flatMap Cut.left) := by
  induction h with
  | done => exact not_hasTag_nil
  | @kept c cs cuts hopen hrest ih =>
    show ¬HasTag (c :: cuts.flatMap Cut.left)
    rw [hasTag_cons]
    rintro (⟨hc, hclose⟩ | htag)
    · exact hopen hc (hrest.left_sublist.subset hclose)
    · exact ih htag
  | tag _ _ ih => exact ih

/-- A text without a tag stays as it is. -/
theorem Cutting.left_eq_of_not_hasTag (h : Cutting cs cuts) (hno : ¬HasTag cs) :
    cuts.flatMap Cut.left = cs := by
  induction h with
  | done => rfl
  | @kept c cs cuts _ _ ih =>
    show c :: cuts.flatMap Cut.left = c :: cs
    rw [ih fun htag => hno (hasTag_cons.2 (.inr htag))]
  | tag => exact absurd (hasTag_cons.2 (.inl ⟨rfl, by simp⟩)) hno

/-! ### Taking out the tags -/

theorem withoutTags_skip (skip : Nat) (cs : List Char) :
    withoutTags skip cs = withoutTags 0 (cs.drop skip) := by
  induction cs generalizing skip with
  | nil => cases skip <;> rfl
  | cons c cs ih =>
    cases skip with
    | zero => rfl
    | succ skip => exact ih skip

theorem withoutTags_kept (h : c = '<' → '>' ∉ cs) :
    withoutTags 0 (c :: cs) = c :: withoutTags 0 cs := by
  rw [withoutTags]
  split
  · next hc =>
    have hnone : cs.findIdx? (· == '>') = none := by
      rw [List.findIdx?_eq_none_iff]
      intro d hd
      have hne : d ≠ '>' := fun he => h hc (he ▸ hd)
      simp [hne]
    rw [hnone]
  · rfl

theorem withoutTags_tag (h : '>' ∉ inner) :
    withoutTags 0 ('<' :: (inner ++ '>' :: cs)) = withoutTags 0 cs := by
  have hsome : (inner ++ '>' :: cs).findIdx? (· == '>') = some inner.length := by
    rw [List.findIdx?_append, List.findIdx?_eq_none_iff.2 fun d hd => by
      have hne : d ≠ '>' := fun he => h (he ▸ hd)
      simp [hne]]
    simp [List.findIdx?_cons]
  have hrest : (inner ++ '>' :: cs).drop (inner.length + 1) = cs := by
    rw [← List.drop_drop, List.drop_left]
    rfl
  rw [withoutTags, if_pos rfl, hsome]
  show withoutTags (inner.length + 1) _ = _
  rw [withoutTags_skip, hrest]

/-- **What stays is what is left of the cuts.** -/
theorem withoutTags_of_cutting (h : Cutting cs cuts) :
    withoutTags 0 cs = cuts.flatMap Cut.left := by
  induction h with
  | done => rfl
  | kept hopen _ ih => rw [withoutTags_kept hopen, ih]; rfl
  | tag hinner _ ih => rw [withoutTags_tag hinner, ih]; rfl

theorem not_hasTag_withoutTags (cs : List Char) : ¬HasTag (withoutTags 0 cs) := by
  obtain ⟨cuts, h⟩ := Cutting.exists_of_text cs
  rw [withoutTags_of_cutting h]
  exact h.not_hasTag

theorem withoutTags_eq_self_iff : withoutTags 0 cs = cs ↔ ¬HasTag cs := by
  constructor
  · intro h
    rw [← h]
    exact not_hasTag_withoutTags cs
  · intro h
    obtain ⟨cuts, hcuts⟩ := Cutting.exists_of_text cs
    rw [withoutTags_of_cutting hcuts]
    exact hcuts.left_eq_of_not_hasTag h

/-! ### Texts and templates -/

/-- What is left of a text without its tags. -/
structure Stripped (s t : String) : Prop where
  /-- No tag is left behind. -/
  clean : ¬HasTag t.toList
  /-- There is nothing more to take out. -/
  again : stripTags t = t
  /-- The text is the same just when it has no tag. -/
  same_iff : t = s ↔ ¬HasTag s.toList
  /-- Tags are taken out, each up to the first `>`, and a `<` is left only where none follows; all
  other characters are left, in order. -/
  cut : ∃ cuts : List Cut, s.toList = cuts.flatMap Cut.written ∧
    t.toList = cuts.flatMap Cut.left ∧ (∀ inner, .tag inner ∈ cuts → '>' ∉ inner) ∧
    ∀ front after, cuts = front ++ .kept '<' :: after → '>' ∉ after.flatMap Cut.written

theorem stripped (s : String) : Stripped s (stripTags s) where
  clean := by
    rw [stripTags, String.toList_ofList]
    exact not_hasTag_withoutTags s.toList
  again := by
    rw [stripTags, stripTags, String.toList_ofList,
      withoutTags_eq_self_iff.2 (not_hasTag_withoutTags s.toList)]
  same_iff := by
    rw [← withoutTags_eq_self_iff, ← String.toList_inj, stripTags, String.toList_ofList]
  cut := by
    obtain ⟨cuts, h⟩ := Cutting.exists_of_text s.toList
    refine ⟨cuts, h.flatMap_written.symm, ?_, fun inner => h.not_mem_inner, ?_⟩
    · rw [stripTags, String.toList_ofList, withoutTags_of_cutting h]
    · rintro front after rfl
      exact h.not_mem_after

theorem Placeholder.not_hasTag {braces : Nat} {name written : List Char}
    (h : Placeholder braces name written) : ¬HasTag written := by
  obtain @⟨left, right, hleft, hright, -, hname⟩ := h
  obtain ⟨hl, hn, hr⟩ := not_mem_between hleft hname hright (c := '<') (by decide) (by decide)
  refine not_hasTag_of_not_mem ?_
  simp [List.mem_replicate, hl, hn, hr]

/-- Where the placeholders of two braces of a template stand in the end, once those of three are
filled in, nothing has a tag. -/
def FilledClean (template : String) (values : Payload) : Prop :=
  ∃ pieces, Scan 2 (substitute 3 (lookup values) 0 template.toList) pieces ∧
    render template values = String.ofList (pieces.flatMap (Piece.filled (plain values))) ∧
    ∀ name written, .slot name written ∈ pieces →
      ¬HasTag (Piece.filled (plain values) (.slot name written))

theorem Scan.placeholder {braces : Nat} {pieces : List Piece} {name written : List Char}
    (h : Scan braces cs pieces) (hslot : .slot name written ∈ pieces) :
    Placeholder braces name written := by
  induction h with
  | done => cases hslot
  | char _ _ ih =>
    rcases List.mem_cons.1 hslot with hslot | hslot
    · cases hslot
    · exact ih hslot
  | slot hwritten _ ih =>
    rcases List.mem_cons.1 hslot with hslot | hslot
    · cases hslot
      exact hwritten
    · exact ih hslot

theorem filledClean (template : String) (values : Payload) : FilledClean template values := by
  obtain ⟨pieces, hscan⟩ :=
    Scan.exists_of_text 2 (substitute 3 (lookup values) 0 template.toList)
  refine ⟨pieces, hscan, congrArg String.ofList (substitute_of_scan (by decide) hscan),
    fun name written hslot => ?_⟩
  rcases htext : lookup values name with _ | text
  · rw [Piece.filled, plain, htext]
    exact (hscan.placeholder hslot).not_hasTag
  · rw [Piece.filled, plain, htext]
    exact not_hasTag_withoutTags text

/-- **No tag is left behind**, neither in a text without its tags nor where a template is filled
with such a text. -/
theorem tags_stripped (s : String) : Stripped s (stripTags s) ∧
    ∀ (template : String) (values : Payload), FilledClean template values :=
  ⟨stripped s, filledClean⟩

end MailQueue.Template
