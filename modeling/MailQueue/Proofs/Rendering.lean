import Mathlib.Data.List.Forall2
import MailQueue.Proofs.Template

/-!
# Filling a template

A template put together from chunks, each a literal without braces or a placeholder, in any order
and with nothing between them. Both passes over the text find the placeholders of the chunks and no
others, so that each chunk is filled by itself.

* `Template.Shows` says which text a value shows, and `Template.Hollow` which values show none;
  `fillText_eq_some_iff` and `fillText_eq_none_iff` say that `fillText` goes by this;
* `Template.Chunk` is a chunk and `Template.Rendered` what becomes of it;
* `substitute_three` and `substitute_two` are the two passes;
* `Template.render_chunks`: a template is filled chunk by chunk, as long as no value filled in
  between three braces brings braces of its own.
-/

namespace MailQueue.Template

variable {braces : Nat} {name slot text inner rest : List Char}
  {fill : List Char → Option (List Char)} {values : Payload} {v : Value}

/-! ### What values show -/

/-- The text that a value shows: a number as it is written, a text as it is. -/
inductive Shows : Value → List Char → Prop
  | text {s : String} : s ≠ "" → Shows (.text s) s.toList
  | int {i : Int} : i ≠ 0 → Shows (.int i) (Json.chars (.int i))
  | float {x : Float} : (x == 0) = false → Shows (.float x) (Json.chars (.float x))
  | yes : Shows (.bool true) "true".toList

/-- The values that show nothing. -/
inductive Hollow : Value → Prop
  | null : Hollow .null
  | no : Hollow (.bool false)
  | zero : Hollow (.int 0)
  | float {x : Float} : (x == 0) = true → Hollow (.float x)
  | empty : Hollow (.text "")
  | list {items : List Value} : Hollow (.list items)
  | object {entries : List (String × Value)} : Hollow (.object entries)

theorem Shows.fillText (h : Shows v text) : fillText v = some text := by
  cases h with
  | @text s hs =>
    have hempty : s.isEmpty = false := by simpa using hs
    simp [Template.fillText, hempty]
  | int hi => simp [Template.fillText, hi, Json.chars]
  | float hx => simp [Template.fillText, hx, Json.chars]
  | yes => rfl

theorem Hollow.fillText (h : Hollow v) : fillText v = none := by
  cases h with
  | float hx => simp [Template.fillText, hx]
  | _ => rfl

theorem shows_or_hollow (v : Value) : (∃ text, Shows v text) ∨ Hollow v := by
  cases v with
  | null => exact .inr .null
  | bool b =>
    cases b with
    | false => exact .inr .no
    | true => exact .inl ⟨_, .yes⟩
  | int i =>
    by_cases hi : i = 0
    · exact .inr (hi ▸ .zero)
    · exact .inl ⟨_, .int hi⟩
  | float x =>
    cases hx : x == 0 with
    | false => exact .inl ⟨_, .float hx⟩
    | true => exact .inr (.float hx)
  | text s =>
    by_cases hs : s = ""
    · exact .inr (hs ▸ .empty)
    · exact .inl ⟨_, .text hs⟩
  | list => exact .inr .list
  | object => exact .inr .object

theorem fillText_eq_some_iff : fillText v = some text ↔ Shows v text := by
  refine ⟨fun h => ?_, Shows.fillText⟩
  rcases shows_or_hollow v with ⟨text', hshows⟩ | hhollow
  · rw [hshows.fillText] at h
    exact Option.some.inj h ▸ hshows
  · rw [hhollow.fillText] at h
    cases h

theorem fillText_eq_none_iff : fillText v = none ↔ Hollow v := by
  refine ⟨fun h => ?_, Hollow.fillText⟩
  rcases shows_or_hollow v with ⟨text', hshows⟩ | hhollow
  · rw [hshows.fillText] at h
    cases h
  · exact hhollow

/-- The value of this name shows this text. -/
def Shown (values : Payload) (name text : List Char) : Prop :=
  ∃ v, values.get? (String.ofList name) = some v ∧ Shows v text

/-- There is no value of this name that shows a text. -/
def Vacant (values : Payload) (name : List Char) : Prop :=
  ∀ v, values.get? (String.ofList name) = some v → Hollow v

theorem lookup_eq_some_iff : lookup values name = some text ↔ Shown values name text := by
  simp only [lookup, Option.bind_eq_some_iff, fillText_eq_some_iff, Shown]

theorem lookup_eq_none_iff : lookup values name = none ↔ Vacant values name := by
  simp only [lookup, Option.bind_eq_none_iff, fillText_eq_none_iff, Vacant]

/-! ### Chunks -/

/-- No brace stands in the text. -/
def Braceless (text : List Char) : Prop := '{' ∉ text ∧ '}' ∉ text

/-- What a template is put together from. -/
inductive Chunk where
  | literal (text : List Char) (h : Braceless text)
  | triple (name written : List Char) (h : Placeholder 3 name written)
  | double (name written : List Char) (h : Placeholder 2 name written)

def Chunk.written : Chunk → List Char
  | .literal text _ => text
  | .triple _ written _ => written
  | .double _ written _ => written

/-- What becomes of a chunk: a placeholder that has no text stays as it is written. -/
inductive Rendered (values : Payload) : Chunk → List Char → Prop
  | literal {text : List Char} {h : Braceless text} : Rendered values (.literal text h) text
  | triple {name written text : List Char} {h : Placeholder 3 name written} :
      Shown values name text → Rendered values (.triple name written h) text
  | double {name written text : List Char} {h : Placeholder 2 name written} :
      Shown values name text →
      Rendered values (.double name written h) (stripTags (String.ofList text)).toList
  | tripleLeft {name written : List Char} {h : Placeholder 3 name written} :
      Vacant values name → Rendered values (.triple name written h) written
  | doubleLeft {name written : List Char} {h : Placeholder 2 name written} :
      Vacant values name → Rendered values (.double name written h) written

/-- A chunk after the first pass. -/
def Chunk.raw (values : Payload) : Chunk → List Char
  | .literal text _ => text
  | .triple name written _ => (lookup values name).getD written
  | .double _ written _ => written

/-- A chunk after both passes. -/
def Chunk.filled (values : Payload) : Chunk → List Char
  | .literal text _ => text
  | .triple name written _ => (lookup values name).getD written
  | .double name written _ => (plain values name).getD written

theorem rendered_filled (values : Payload) (chunk : Chunk) :
    Rendered values chunk (chunk.filled values) := by
  cases chunk with
  | literal text h => exact .literal
  | triple name written h =>
    rcases hl : lookup values name with _ | text <;> simp only [Chunk.filled, hl]
    · exact .tripleLeft (lookup_eq_none_iff.1 hl)
    · exact .triple (lookup_eq_some_iff.1 hl)
  | double name written h =>
    rcases hl : lookup values name with _ | text <;> simp only [Chunk.filled, plain, hl]
    · exact .doubleLeft (lookup_eq_none_iff.1 hl)
    · have hdouble : Rendered values (.double name written h) _ :=
        .double (lookup_eq_some_iff.1 hl)
      simpa [stripTags] using hdouble

/-! ### Where no placeholder starts -/

theorem bare_of_not_prefix {cs : List Char} (h : ¬List.replicate braces '{' <+: cs) :
    Bare braces cs := by
  rintro name written rest ⟨⟩ rfl
  exact h (by simp only [List.append_assoc]; exact List.prefix_append _ _)

/-- What follows the opening braces of a placeholder is no brace. -/
theorem bare_of_more_braces (braces : Nat) (cs : List Char) :
    Bare braces (List.replicate braces '{' ++ '{' :: cs) := by
  rintro name written rest @⟨left, right, hleft, -, hne, hname⟩ h
  simp only [List.append_assoc] at h
  have h := List.append_cancel_left h
  rcases left with _ | ⟨c, left⟩
  · obtain ⟨c, name, rfl⟩ := List.exists_cons_of_ne_nil hne
    obtain rfl := (List.cons.inj h).1
    exact absurd (hname _ List.mem_cons_self) (by decide)
  · obtain rfl := (List.cons.inj h).1
    exact absurd (hleft.2 _ List.mem_cons_self) (by decide)

theorem substitute_literal (hb : 0 < braces) (h : '{' ∉ text) :
    substitute braces fill 0 (text ++ rest) = text ++ substitute braces fill 0 rest := by
  induction text with
  | nil => rfl
  | cons c text ih =>
    obtain ⟨hc, htext⟩ := not_or.1 (fun hmem => h (List.mem_cons.2 hmem))
    have hbare : Bare braces (c :: (text ++ rest)) := bare_of_not_prefix fun hpre => by
      obtain ⟨n, rfl⟩ := Nat.exists_eq_add_of_lt hb
      rw [Nat.zero_add, List.replicate_succ, List.cons_prefix_cons] at hpre
      exact hc hpre.1
    rw [List.cons_append, substitute_char hb hbare, ih htext, List.cons_append]

theorem substitute_few {count : Nat} (hcount : count < braces) (hne : inner ≠ [])
    (hinner : '{' ∉ inner) :
    substitute braces fill 0 (List.replicate count '{' ++ (inner ++ rest)) =
      List.replicate count '{' ++ (inner ++ substitute braces fill 0 rest) := by
  induction count with
  | zero => exact substitute_literal (by omega) hinner
  | succ count ih =>
    have hbare : Bare braces (List.replicate (count + 1) '{' ++ (inner ++ rest)) :=
      bare_of_not_prefix fun hpre => by
        obtain ⟨d, inner, rfl⟩ := List.exists_cons_of_ne_nil hne
        obtain ⟨more, rfl⟩ := Nat.exists_eq_add_of_lt hcount
        rw [Nat.add_assoc, ← List.replicate_append_replicate, List.prefix_append_right_inj,
          List.replicate_succ, List.cons_append, List.cons_prefix_cons] at hpre
        exact hinner (hpre.1 ▸ List.mem_cons_self)
    rw [List.replicate_succ, List.cons_append] at hbare ⊢
    rw [substitute_char (by omega) hbare, ih (by omega), List.cons_append]

/-! ### Placeholders of one kind under the pass for another -/

/-- Behind its opening braces a placeholder has no further one. -/
theorem Placeholder.exists_inner (h : Placeholder braces name slot) :
    ∃ inner, slot = List.replicate braces '{' ++ inner ∧ inner ≠ [] ∧ '{' ∉ inner := by
  obtain @⟨left, right, hleft, hright, hne, hname⟩ := h
  obtain ⟨hl, hn, hr⟩ := not_mem_between hleft hname hright (c := '{') (by decide) (by decide)
  exact ⟨_, rfl, by simp [hne], by simp [List.mem_replicate, hl, hn, hr]⟩

/-- Between the outermost braces of a placeholder stands one with a pair of braces less. -/
theorem Placeholder.peel (h : Placeholder (braces + 1) name slot) :
    ∃ within, Placeholder braces name within ∧ slot = '{' :: (within ++ ['}']) := by
  obtain @⟨left, right, hleft, hright, hne, hname⟩ := h
  refine ⟨_, .intro hleft hright hne hname, ?_⟩
  rw [List.replicate_succ, List.replicate_succ' (a := '}')]
  simp only [List.append_assoc, List.cons_append]

/-- A placeholder of two braces stays in the pass for three. -/
theorem substitute_of_fewer {more : Nat} (h : Placeholder braces name slot)
    (hmore : braces < more) :
    substitute more fill 0 (slot ++ rest) = slot ++ substitute more fill 0 rest := by
  obtain ⟨inner, rfl, hne, hinner⟩ := h.exists_inner
  rw [List.append_assoc, substitute_few hmore hne hinner, List.append_assoc]

/-- A placeholder of three braces that nothing is filled in for stays in the pass for two, which
finds one of its own name inside. -/
theorem substitute_of_more (hb : 0 < braces) (h : Placeholder (braces + 1) name slot)
    (hfill : fill name = none) :
    substitute braces fill 0 (slot ++ rest) = slot ++ substitute braces fill 0 rest := by
  have hbare : Bare braces (slot ++ rest) := by
    obtain ⟨inner, rfl, -, -⟩ := h.exists_inner
    rw [List.replicate_succ', List.append_assoc, List.append_assoc]
    exact bare_of_more_braces braces _
  obtain ⟨within, hwithin, rfl⟩ := h.peel
  have hclose : '{' ∉ ['}'] := by decide
  rw [List.cons_append] at hbare ⊢
  rw [substitute_char hb hbare, List.append_assoc, substitute_slot hb hwithin, hfill,
    Option.getD_none, substitute_literal hb hclose]
  simp

/-! ### The two passes -/

/-- The first pass fills the placeholders of three braces. -/
theorem substitute_three (chunks : List Chunk) :
    substitute 3 (lookup values) 0 (chunks.flatMap Chunk.written) =
      chunks.flatMap (Chunk.raw values) := by
  induction chunks with
  | nil => rfl
  | cons chunk chunks ih =>
    rw [List.flatMap_cons, List.flatMap_cons, ← ih]
    cases chunk with
    | literal text h => exact substitute_literal (by decide) h.1
    | triple name written h => exact substitute_slot (by decide) h
    | double name written h => exact substitute_of_fewer h (by decide)

/-- The second pass fills those of two, and finds nothing in what the first has filled in. -/
theorem substitute_two {chunks : List Chunk}
    (h : ∀ name written hw, .triple name written hw ∈ chunks → ∀ text,
      Shown values name text → Braceless text) :
    substitute 2 (plain values) 0 (chunks.flatMap (Chunk.raw values)) =
      chunks.flatMap (Chunk.filled values) := by
  induction chunks with
  | nil => rfl
  | cons chunk chunks ih =>
    have hrest := ih fun name written hw hmem => h name written hw (List.mem_cons_of_mem _ hmem)
    rw [List.flatMap_cons, List.flatMap_cons, ← hrest]
    cases chunk with
    | literal text hw => exact substitute_literal (by decide) hw.1
    | double name written hw => exact substitute_slot (by decide) hw
    | triple name written hw =>
      rcases hl : lookup values name with _ | text <;> simp only [Chunk.raw, Chunk.filled, hl]
      · exact substitute_of_more (by decide) hw (by rw [plain, hl]; rfl)
      · have hshown := lookup_eq_some_iff.1 hl
        exact substitute_literal (by decide)
          (h name written hw List.mem_cons_self text hshown).1

/-- **A template is filled chunk by chunk.** -/
theorem render_chunks (chunks : List Chunk) (values : Payload)
    (h : ∀ name written hw, .triple name written hw ∈ chunks → ∀ text,
      Shown values name text → Braceless text) :
    ∃ outs, List.Forall₂ (Rendered values) chunks outs ∧
      render (String.ofList (chunks.flatMap Chunk.written)) values =
        String.ofList outs.flatten := by
  refine ⟨chunks.map (Chunk.filled values), ?_, ?_⟩
  · rw [List.forall₂_map_right_iff]
    exact List.forall₂_same.2 fun chunk _ => rendered_filled values chunk
  · have hraw : substitute 3 (lookup values) 0 (chunks.flatMap Chunk.written) =
        chunks.flatMap (Chunk.raw values) := substitute_three chunks
    have hfilled := substitute_two h
    rw [render, renderChars, String.toList_ofList, hraw]
    exact congrArg String.ofList (hfilled.trans List.flatMap_def)

/-- A text with tags, a text with braces, and a number. -/
def shelf : Payload :=
  ((Fields.empty.put "a" (.text "<i>x</i>")).put "b" (.text "<b>\x7b\x7ba\x7d\x7d</b>")).put
    "n" (.int 3)

/-- A placeholder whose name is one letter, with blanks on its inner sides or without. -/
theorem placeholder_letter (braces : Nat) {c : Char} (hc : isNameChar c = true)
    {margin : List Char} (hm : Margin margin) :
    Placeholder braces [c]
      (List.replicate braces '{' ++ (margin ++ ([c] ++ (margin ++ List.replicate braces '}')))) :=
  .intro hm hm (by simp) (by simpa using hc)

/-- Placeholders side by side, two of them without a value. -/
def page : List Chunk :=
  have hnone : Margin [] := ⟨by simp, by simp⟩
  have hblank : Margin [' '] := ⟨by simp, by simp [Text.isBlank]⟩
  [.triple ['a'] _ (placeholder_letter 3 (by decide) hnone),
    .double ['b'] _ (placeholder_letter 2 (by decide) hblank),
    .triple ['z'] _ (placeholder_letter 3 (by decide) hnone),
    .double ['z'] _ (placeholder_letter 2 (by decide) hnone),
    .literal ['<', 'p', '>'] ⟨by decide, by decide⟩,
    .double ['n'] _ (placeholder_letter 2 (by decide) hnone)]

theorem render_chunks_page :
    (∀ name written hw, .triple name written hw ∈ page → ∀ text,
      Shown shelf name text → Braceless text) ∧
    (∃ outs, List.Forall₂ (Rendered shelf) page outs ∧
      render (String.ofList (page.flatMap Chunk.written)) shelf = String.ofList outs.flatten) ∧
    render (String.ofList (page.flatMap Chunk.written)) shelf =
      "<i>x</i>\x7b\x7ba\x7d\x7d\x7b\x7b\x7bz\x7d\x7d\x7d\x7b\x7bz\x7d\x7d<p>3" := by
  have h : ∀ name written hw, .triple name written hw ∈ page → ∀ text,
      Shown shelf name text → Braceless text := by
    intro name written hw hmem text hshown
    have hlookup := lookup_eq_some_iff.2 hshown
    have hname : name = ['a'] ∨ name = ['z'] := by
      simp only [page, List.mem_cons, List.not_mem_nil, Chunk.triple.injEq, reduceCtorEq] at hmem
      tauto
    rcases hname with rfl | rfl
    · have ha : lookup shelf ['a'] = some "<i>x</i>".toList := rfl
      obtain rfl := Option.some.inj (ha.symm.trans hlookup)
      exact ⟨by decide, by decide⟩
    · have hz : lookup shelf ['z'] = none := rfl
      cases hz.symm.trans hlookup
  exact ⟨h, render_chunks page shelf h, by decide +kernel⟩

end MailQueue.Template
