import Mathlib.Data.List.TakeWhile
import MailQueue.Template

/-!
# Placeholders

What a placeholder looks like, said apart from how it is recognised, and what becomes of a text
whose placeholders are filled.

* `Template.Placeholder` is the form of a placeholder, and `placeholder?_eq_some_iff` says that
  exactly these are recognised;
* `Template.Scan` reads a text from the left in `Piece`s, the placeholders and the characters
  between them; `Scan.exists_of_text` and `Scan.unique` say that each text has one such reading;
* `Template.substitute_of_scan`: what is filled in is filled in piece by piece.
-/

namespace MailQueue.Template

variable {braces : Nat} {name written cs rest : List Char} {fill : List Char → Option (List Char)}

/-! ### The form of a placeholder -/

/-- The room for one blank on an inner side. -/
def Margin (cs : List Char) : Prop := cs.length ≤ 1 ∧ ∀ c ∈ cs, Text.isBlank c = true

/-- The form of a placeholder of so many braces with this name. -/
inductive Placeholder (braces : Nat) (name : List Char) : List Char → Prop
  | intro {left right : List Char} : Margin left → Margin right → name ≠ [] →
      (∀ c ∈ name, isNameChar c = true) →
      Placeholder braces name
        (List.replicate braces '{' ++ (left ++ (name ++ (right ++ List.replicate braces '}'))))

theorem not_mem_between {left right name : List Char} (hleft : Margin left)
    (hname : ∀ c ∈ name, isNameChar c = true) (hright : Margin right) {c : Char}
    (hblank : Text.isBlank c = false) (hchar : isNameChar c = false) :
    c ∉ left ∧ c ∉ name ∧ c ∉ right :=
  ⟨fun h => by simp [hleft.2 c h] at hblank, fun h => by simp [hname c h] at hchar,
    fun h => by simp [hright.2 c h] at hblank⟩

theorem toNat_of_isAlphanum {c : Char} (h : c.isAlphanum = true) :
    48 ≤ c.toNat ∧ c.toNat ≤ 122 := by
  have hcases : (decide (65 ≤ c.val ∧ c.val ≤ 90) ||
      decide (97 ≤ c.val) && decide (c.val ≤ 122) ||
      decide (48 ≤ c.val) && decide (c.val ≤ 57)) = true := h
  simp only [Bool.or_eq_true, Bool.and_eq_true, decide_eq_true_eq, UInt32.le_iff_toNat_le,
    UInt32.reduceToNat] at hcases
  show 48 ≤ c.val.toNat ∧ c.val.toNat ≤ 122
  omega

theorem not_isBlank_of_isNameChar {c : Char} (h : isNameChar c = true) :
    Text.isBlank c = false := by
  simp only [isNameChar, Bool.or_eq_true, beq_iff_eq] at h
  rcases h with (h | rfl) | rfl
  · have hrange := toNat_of_isAlphanum h
    simp only [Text.isBlank, Bool.or_eq_false_iff, Bool.and_eq_false_iff, beq_eq_false_iff_ne,
      decide_eq_false_iff_not]
    omega
  · rfl
  · rfl

theorem isNameChar_of_isBlank {c : Char} (h : Text.isBlank c = true) : isNameChar c = false :=
  Bool.eq_false_iff.2 fun hname => by simp [not_isBlank_of_isNameChar hname] at h

theorem dropExactly_eq_some_iff {c : Char} {count : Nat} :
    dropExactly c count cs = some rest ↔ cs = List.replicate count c ++ rest := by
  induction count generalizing cs with
  | zero => simp [dropExactly]
  | succ count ih =>
    rcases cs with _ | ⟨d, cs⟩
    · simp [dropExactly, List.replicate_succ]
    · by_cases hd : d = c <;> simp [dropExactly, List.replicate_succ, hd, ih]

theorem exists_margin (cs : List Char) : ∃ margin, Margin margin ∧ cs = margin ++ dropBlank cs := by
  rcases cs with _ | ⟨c, cs⟩
  · exact ⟨[], by simp [Margin], rfl⟩
  · by_cases hc : Text.isBlank c = true
    · exact ⟨[c], by simp [Margin, hc], by simp [dropBlank, hc]⟩
    · exact ⟨[], by simp [Margin], by simp [dropBlank, hc]⟩

theorem dropBlank_append {margin : List Char} (h : Margin margin)
    (hrest : ∀ c ∈ cs.head?, Text.isBlank c = false) : dropBlank (margin ++ cs) = cs := by
  obtain ⟨hlen, hblank⟩ := h
  rcases margin with _ | ⟨c, _ | ⟨d, margin⟩⟩
  · rcases cs with _ | ⟨c, cs⟩
    · rfl
    · simp [dropBlank, hrest c rfl]
  · simp [dropBlank, hblank c]
  · simp at hlen

theorem span_append {p : Char → Bool} {front : List Char} (hfront : ∀ c ∈ front, p c = true)
    (hcs : ∀ c ∈ cs.head?, p c = false) :
    (front ++ cs).takeWhile p = front ∧ (front ++ cs).dropWhile p = cs := by
  rw [List.takeWhile_append_of_pos hfront, List.dropWhile_append_of_pos hfront]
  rcases cs with _ | ⟨c, cs⟩
  · simp
  · simp [hcs c rfl]

/-- The steps of the recognition, one equation each. -/
theorem placeholder?_eq_some :
    placeholder? braces cs = some (name, rest) ↔ ∃ inner,
      cs = List.replicate braces '{' ++ inner ∧ (dropBlank inner).takeWhile isNameChar = name ∧
        name ≠ [] ∧
        dropBlank ((dropBlank inner).dropWhile isNameChar) = List.replicate braces '}' ++ rest := by
  simp only [placeholder?, Option.bind_eq_bind, Option.bind_eq_some_iff, dropExactly_eq_some_iff]
  refine exists_congr fun inner => and_congr_right fun _ => ?_
  split
  · next hempty =>
    refine iff_of_false (by simp) ?_
    rintro ⟨rfl, hne, -⟩
    exact hne (List.isEmpty_iff.1 hempty)
  · next hne =>
    constructor
    · intro h
      obtain ⟨tail, htail, hpair⟩ := Option.bind_eq_some_iff.1 h
      cases hpair
      exact ⟨rfl, by simpa using hne, dropExactly_eq_some_iff.1 htail⟩
    · rintro ⟨rfl, -, h⟩
      rw [dropExactly_eq_some_iff.2 h]
      rfl

theorem Placeholder.recognised (hb : 0 < braces) (h : Placeholder braces name written)
    (rest : List Char) : placeholder? braces (written ++ rest) = some (name, rest) := by
  obtain @⟨left, right, hleft, hright, hne, hname⟩ := h
  have hclose : ∀ c ∈ (List.replicate braces '}' ++ rest).head?, c = '}' := by
    obtain ⟨n, rfl⟩ := Nat.exists_eq_add_of_lt hb
    simp [List.replicate_succ]
  -- the name ends where a blank or a brace follows, and begins where the blank before it ends
  have hafter : ∀ c ∈ (right ++ (List.replicate braces '}' ++ rest)).head?,
      isNameChar c = false := by
    intro c hc
    rcases right with _ | ⟨d, right⟩
    · rw [hclose c hc]
      rfl
    · obtain rfl := Option.some.inj hc
      exact isNameChar_of_isBlank (hright.2 _ List.mem_cons_self)
  have hfront : ∀ c ∈ (name ++ (right ++ (List.replicate braces '}' ++ rest))).head?,
      Text.isBlank c = false := by
    obtain ⟨d, name, rfl⟩ := List.exists_cons_of_ne_nil hne
    intro c hc
    obtain rfl := Option.some.inj hc
    exact not_isBlank_of_isNameChar (hname _ List.mem_cons_self)
  obtain ⟨htake, hdrop⟩ := span_append hname hafter
  refine placeholder?_eq_some.2
    ⟨left ++ (name ++ (right ++ (List.replicate braces '}' ++ rest))), by simp, ?_, hne, ?_⟩
  · rw [dropBlank_append hleft hfront, htake]
  · rw [dropBlank_append hleft hfront, hdrop, dropBlank_append hright]
    intro c hc
    rw [hclose c hc]
    rfl

/-- **Exactly the placeholders are recognised.** -/
theorem placeholder?_eq_some_iff (hb : 0 < braces) :
    placeholder? braces cs = some (name, rest) ↔
      ∃ written, Placeholder braces name written ∧ cs = written ++ rest := by
  constructor
  · intro h
    obtain ⟨inner, rfl, hname, hne, hrest⟩ := placeholder?_eq_some.1 h
    obtain ⟨left, hleft, hinner⟩ := exists_margin inner
    obtain ⟨right, hright, hafter⟩ := exists_margin ((dropBlank inner).dropWhile isNameChar)
    have hchars : ∀ c ∈ name, isNameChar c = true := fun c hc =>
      List.mem_takeWhile_imp (hname ▸ hc)
    refine ⟨_, .intro hleft hright hne hchars, ?_⟩
    have hsplit : dropBlank inner = name ++ (right ++ (List.replicate braces '}' ++ rest)) := by
      rw [← hrest, ← hafter, ← hname, List.takeWhile_append_dropWhile]
    rw [hinner, hsplit]
    simp only [List.append_assoc]
  · rintro ⟨written, h, rfl⟩
    exact h.recognised hb rest

theorem Placeholder.ne_nil (h : Placeholder braces name written) : written ≠ [] := by
  obtain @⟨left, right, -, -, hne, -⟩ := h
  simp [hne]

/-- At most one placeholder stands at the front of a text. -/
theorem Placeholder.unique (hb : 0 < braces) {name' written' rest' : List Char}
    (h : Placeholder braces name written) (h' : Placeholder braces name' written')
    (heq : written ++ rest = written' ++ rest') :
    name = name' ∧ written = written' ∧ rest = rest' := by
  have hrec := h.recognised hb rest
  rw [heq, h'.recognised hb] at hrec
  cases hrec
  exact ⟨rfl, List.append_cancel_right heq, rfl⟩

/-! ### A text read from the left -/

/-- What a text is read in: a placeholder, with its name and as it is written, or a character that
starts none. -/
inductive Piece where
  | char (c : Char)
  | slot (name written : List Char)

/-- What stands in the place of a piece: a placeholder that has no text stays as it is written. -/
def Piece.filled (fill : List Char → Option (List Char)) : Piece → List Char
  | .char c => [c]
  | .slot name written => (fill name).getD written

/-- No placeholder stands at the front. -/
def Bare (braces : Nat) (cs : List Char) : Prop :=
  ∀ name written rest, Placeholder braces name written → cs ≠ written ++ rest

/-- A text read from the left: a placeholder is a piece as soon as it starts, and what comes next is
read after its end. -/
inductive Scan (braces : Nat) : List Char → List Piece → Prop
  | done : Scan braces [] []
  | char {c : Char} {cs : List Char} {pieces : List Piece} : Bare braces (c :: cs) →
      Scan braces cs pieces → Scan braces (c :: cs) (.char c :: pieces)
  | slot {name written cs : List Char} {pieces : List Piece} : Placeholder braces name written →
      Scan braces cs pieces → Scan braces (written ++ cs) (.slot name written :: pieces)

variable {pieces : List Piece}

/-- Each text has a reading. -/
theorem Scan.exists_of_text (braces : Nat) (cs : List Char) : ∃ pieces, Scan braces cs pieces := by
  -- by the length, since a placeholder takes several characters at once
  induction hlen : cs.length using Nat.strong_induction_on generalizing cs with
  | _ n ih =>
    by_cases h : ∃ name written rest, Placeholder braces name written ∧ cs = written ++ rest
    · obtain ⟨name, written, rest, hwritten, rfl⟩ := h
      have hpos := List.length_pos_iff.2 hwritten.ne_nil
      obtain ⟨pieces, hpieces⟩ := ih rest.length (by simp at hlen; omega) rest rfl
      exact ⟨_, .slot hwritten hpieces⟩
    · rcases cs with _ | ⟨c, cs⟩
      · exact ⟨[], .done⟩
      · obtain ⟨pieces, hpieces⟩ := ih cs.length (by simp at hlen; omega) cs rfl
        exact ⟨_, .char (fun name written rest hw he => h ⟨name, written, rest, hw, he⟩) hpieces⟩

/-- No text has two. -/
theorem Scan.unique (hb : 0 < braces) {others : List Piece} (h : Scan braces cs pieces)
    (hother : Scan braces cs others) : pieces = others := by
  -- the text is an index of both readings, so it is made a variable before the second is taken apart
  induction h generalizing others with
  | done =>
    generalize hcs : ([] : List Char) = cs at hother
    cases hother with
    | done => rfl
    | char => cases hcs
    | slot hwritten => exact absurd (List.append_eq_nil_iff.1 hcs.symm).1 hwritten.ne_nil
  | char hnone _ ih =>
    generalize hcs : (_ :: _ : List Char) = cs at hother
    cases hother with
    | done => cases hcs
    | char _ hrest =>
      cases hcs
      rw [ih hrest]
    | slot hwritten => exact absurd hcs (hnone _ _ _ hwritten)
  | slot hwritten _ ih =>
    generalize hcs : (_ ++ _ : List Char) = cs at hother
    cases hother with
    | done => exact absurd (List.append_eq_nil_iff.1 hcs).1 hwritten.ne_nil
    | char hnone => exact absurd hcs.symm (hnone _ _ _ hwritten)
    | slot hwritten' hrest =>
      obtain ⟨rfl, rfl, rfl⟩ := hwritten.unique hb hwritten' hcs
      rw [ih hrest]

/-- A text stays if none of its placeholders has a text. -/
theorem Scan.flatMap_filled_of_none (h : Scan braces cs pieces)
    (hnone : ∀ name written, Piece.slot name written ∈ pieces → fill name = none) :
    pieces.flatMap (Piece.filled fill) = cs := by
  induction h with
  | done => rfl
  | char _ _ ih =>
    rw [List.flatMap_cons, ih fun name written h => hnone name written (List.mem_cons_of_mem _ h)]
    rfl
  | slot _ _ ih =>
    rw [List.flatMap_cons, ih fun name written h => hnone name written (List.mem_cons_of_mem _ h),
      Piece.filled, hnone _ _ List.mem_cons_self]
    rfl

/-! ### Filling in -/

theorem substitute_skip (braces : Nat) (fill : List Char → Option (List Char)) (skip : Nat)
    (cs : List Char) : substitute braces fill skip cs = substitute braces fill 0 (cs.drop skip) := by
  induction cs generalizing skip with
  | nil => cases skip <;> rfl
  | cons c cs ih =>
    cases skip with
    | zero => rfl
    | succ skip => exact ih skip

theorem substitute_slot (hb : 0 < braces) (h : Placeholder braces name written) :
    substitute braces fill 0 (written ++ cs) =
      (fill name).getD written ++ substitute braces fill 0 cs := by
  have hrec := h.recognised hb cs
  obtain ⟨c, tail, rfl⟩ := List.exists_cons_of_ne_nil h.ne_nil
  have hlen : (c :: (tail ++ cs)).length - cs.length = tail.length + 1 := by
    simp only [List.length_cons, List.length_append]
    omega
  rw [List.cons_append] at hrec ⊢
  rw [substitute, hrec]
  dsimp only
  rw [hlen, substitute_skip, Nat.add_sub_cancel, List.drop_left, List.take_succ_cons,
    List.take_left]

theorem substitute_char (hb : 0 < braces) {c : Char} (h : Bare braces (c :: cs)) :
    substitute braces fill 0 (c :: cs) = c :: substitute braces fill 0 cs := by
  have hnone : placeholder? braces (c :: cs) = none := by
    refine Option.eq_none_iff_forall_not_mem.2 ?_
    rintro ⟨name, rest⟩ hsome
    obtain ⟨written, hwritten, heq⟩ := (placeholder?_eq_some_iff hb).1 hsome
    exact h name written rest hwritten heq
  rw [substitute, hnone]

/-- **A text is filled piece by piece.** -/
theorem substitute_of_scan (hb : 0 < braces) (h : Scan braces cs pieces) :
    substitute braces fill 0 cs = pieces.flatMap (Piece.filled fill) := by
  induction h with
  | done => rfl
  | char hnone _ ih => rw [substitute_char hb hnone, ih, List.flatMap_cons]; rfl
  | slot hwritten _ ih => rw [substitute_slot hb hwritten, ih, List.flatMap_cons]; rfl

/-- What a placeholder of two braces is filled in with: the text of its name, without its tags. -/
def plain (values : Payload) (name : List Char) : Option (List Char) :=
  (lookup values name).map (withoutTags 0)

/-- In a template that is one placeholder of three braces, what that is filled in with is looked
through again. -/
theorem render_slot {values : Payload} {template text : String}
    (h : Placeholder 3 name template.toList) (htext : lookup values name = some text.toList)
    (hscan : Scan 2 text.toList pieces) :
    render template values = String.ofList (pieces.flatMap (Piece.filled (plain values))) := by
  have hraw : substitute 3 (lookup values) 0 template.toList = text.toList := by
    rw [← List.append_nil template.toList, substitute_slot (by decide) h, htext,
      Option.getD_some, substitute, List.append_nil]
  rw [render, renderChars, hraw]
  exact congrArg String.ofList (substitute_of_scan (by decide) hscan)

end MailQueue.Template
