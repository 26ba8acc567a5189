import MailQueue.KeyValue.Keys

/-!
# Patterns in full

What a server makes of a pattern: beside stars and question marks it knows classes of characters in
brackets, and backslashes. A scope stands in its pattern as it is, so that the marks of a scope with
brackets or backslashes may not match the pattern of that scope.

* `Matches` says which texts match a pattern;
* `Keys.matches_mark`: the marks of a scope without brackets and backslashes do;
* `Keys.not_matches_mark`: those of another do not.
-/

namespace MailQueue.KeyValue

/-- The ranges of a class of characters, and what follows the class. -/
def classRanges : List Char → List (Char × Char) × List Char
  | '\\' :: c :: rest => ((c, c) :: (classRanges rest).1, (classRanges rest).2)
  | ']' :: rest => ([], rest)
  | a :: '-' :: b :: rest => ((a, b) :: (classRanges rest).1, (classRanges rest).2)
  | c :: rest => ((c, c) :: (classRanges rest).1, (classRanges rest).2)
  | [] => ([], [])

/-- The character is in one of the ranges, which may be written either way round. -/
def InRanges (ranges : List (Char × Char)) (c : Char) : Prop :=
  ∃ r ∈ ranges, (r.1 ≤ c ∧ c ≤ r.2) ∨ (r.2 ≤ c ∧ c ≤ r.1)

/-- A text matches a pattern: a star stands for any run of characters, a question mark for any one,
a class in brackets for one of its characters or, after a caret, for one of the others, and any
other character for itself, as does one after a backslash. -/
inductive Matches : List Char → List Char → Prop where
  | done : Matches [] []
  | runEnds {p cs : List Char} (h : Matches p cs) : Matches ('*' :: p) cs
  | runGoesOn {p cs : List Char} {c : Char} (h : Matches ('*' :: p) cs) :
      Matches ('*' :: p) (c :: cs)
  | any {p cs : List Char} {c : Char} (h : Matches p cs) : Matches ('?' :: p) (c :: cs)
  | oneOf {p cs : List Char} {c : Char} (hp : p.head? ≠ some '^')
      (hc : InRanges (classRanges p).1 c) (h : Matches (classRanges p).2 cs) :
      Matches ('[' :: p) (c :: cs)
  | noneOf {p cs : List Char} {c : Char} (hc : ¬InRanges (classRanges p).1 c)
      (h : Matches (classRanges p).2 cs) : Matches ('[' :: '^' :: p) (c :: cs)
  | escaped {p cs : List Char} {c : Char} (h : Matches p cs) : Matches ('\\' :: c :: p) (c :: cs)
  | backslash : Matches ['\\'] ['\\']
  | same {p cs : List Char} {c : Char} (hc : c ∉ ['*', '?', '[', '\\']) (h : Matches p cs) :
      Matches (c :: p) (c :: cs)

theorem matches_star (cs : List Char) : Matches ['*'] cs := by
  induction cs with
  | nil => exact .runEnds .done
  | cons c cs ih => exact .runGoesOn ih

/-- A pattern without brackets and backslashes matches itself, whatever its stars and question marks
stand for elsewhere. -/
theorem matches_append {p : List Char} (h : '[' ∉ p ∧ '\\' ∉ p) {q cs : List Char}
    (hq : Matches q cs) : Matches (p ++ q) (p ++ cs) := by
  induction p with
  | nil => exact hq
  | cons c p ih =>
    simp only [List.mem_cons, not_or] at h
    have ih := ih ⟨h.1.2, h.2.2⟩
    by_cases hstar : c = '*'
    · subst hstar
      exact .runGoesOn (.runEnds ih)
    · by_cases hany : c = '?'
      · subst hany
        exact .any ih
      · refine .same ?_ ih
        simp [hstar, hany, Ne.symm h.1.1, Ne.symm h.2.1]

/-- The marks of a scope without brackets and backslashes match its pattern. -/
theorem Keys.matches_mark {k : Keys} (h : '[' ∉ k.scope.toList ∧ '\\' ∉ k.scope.toList)
    (id : TaskId) : Matches k.markPattern.toList (k.mark id).toList := by
  have hpattern : k.markPattern.toList = (k.base.toList ++ ":sendat:".toList) ++ ['*'] := by
    simp [markPattern]
  have hmark : (k.mark id).toList = (k.base.toList ++ ":sendat:".toList) ++ id.text.toList := by
    simp [mark]
  rw [hpattern, hmark]
  refine matches_append ?_ (matches_star _)
  simpa [base] using h

theorem matches_of_append {p : List Char} (h : ∀ c ∈ p, c ∉ ['*', '?', '[', '\\'])
    {q cs : List Char} (hq : Matches (p ++ q) (p ++ cs)) : Matches q cs := by
  induction p with
  | nil => exact hq
  | cons c p ih =>
    refine ih (fun d hd => h d (List.mem_cons_of_mem _ hd)) ?_
    have hc := h c List.mem_cons_self
    simp only [List.cons_append] at hq
    generalize p ++ q = pq at hq ⊢
    generalize p ++ cs = pcs at hq ⊢
    cases hq with
    | same _ hq => exact hq
    | _ => simp at hc

/-- The brackets of a scope make a class of its pattern, and no mark of the scope matches. -/
theorem Keys.not_matches_mark (id : TaskId) :
    ¬Matches (Keys.mk "a[b]").markPattern.toList ((Keys.mk "a[b]").mark id).toList := by
  intro h
  have hpattern : (Keys.mk "a[b]").markPattern.toList =
      "mailtime:a".toList ++ "[b]:sendat:*".toList := by
    simp [markPattern, base]
  have hmark : ((Keys.mk "a[b]").mark id).toList =
      "mailtime:a".toList ++ ("[b]:sendat:".toList ++ id.text.toList) := by
    simp [mark, base]
  rw [hpattern, hmark] at h
  have hplain : ("mailtime:a".toList.all fun c => decide (c ∉ ['*', '?', '[', '\\'])) = true := by
    decide
  have h := matches_of_append (fun c hc => of_decide_eq_true (List.all_eq_true.1 hplain c hc)) h
  have hclass : classRanges "b]:sendat:*".toList = ([('b', 'b')], ":sendat:*".toList) := by decide
  have h : Matches ('[' :: "b]:sendat:*".toList) ('[' :: ("b]:sendat:".toList ++ id.text.toList)) :=
    h
  cases h with
  | oneOf _ hc =>
    rw [hclass] at hc
    revert hc
    simp [InRanges]
  | same hc => simp at hc

end MailQueue.KeyValue
