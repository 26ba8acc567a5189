import MailQueue.Proofs.Marks

/-!
# Keys of different scopes

Scopes share a server and put nothing but their names between their keys.

* `Keys.idOfMark?_eq_some_iff` tells which keys a scope reads as its marks, with `idOfMark?_letter`,
  `idOfMark?_mark_eq` and `idOfMark?_pointer` for the keys that are in use;
* `letter_eq_letter_iff`, `mark_eq_mark_iff` and `pointer_eq_pointer_iff` tell when two keys are one;
* `Keys.Foreign` says of a key that the scope neither reads it as a mark nor keeps a letter there,
  as `foreign_letter`, `foreign_mark` and `foreign_pointer` say of keys of other scopes and of its
  own pointers;
* `foreign_pointer_of_colon` says it of all pointers, for a scope without a colon, and
  `not_foreign_pointer` that it is not so for every scope;
* `told_apart`: a key tells its scope, its kind and its task.

A scope may have colons in its name, and the words for the kinds of keys. So a key is not taken
apart from the front: the text of an identifier has 26 characters, and no text of another length is
read as one, so that two keys which end with identifiers are cut at the same place.
-/

namespace MailQueue.KeyValue.Keys

/-- Where a server keeps something for a task of a scope. -/
inductive Place where
  | letter (k : Keys) (id : TaskId)
  | mark (k : Keys) (id : TaskId)

def Place.key : Place → String
  | letter k id => k.letter id
  | mark k id => k.mark id

variable {g k : Keys} {a b id : TaskId} {key : String}

theorem eq_of_base (h : g.base.toList = k.base.toList) : g = k := by
  obtain ⟨x⟩ := g
  obtain ⟨y⟩ := k
  simp only [base, String.toList_append] at h
  exact congrArg Keys.mk (String.toList_inj.1 (List.append_cancel_left h))

theorem idOfMark?_eq_some_iff : k.idOfMark? key = some id ↔
    ∃ cs, key.toList = k.base.toList ++ (":sendat:".toList ++ cs) ∧
      TaskId.parse? (String.ofList cs) = some id := by
  simp only [idOfMark?, Option.bind_eq_bind, Option.bind_eq_some_iff, dropStart?_eq_some_iff]
  constructor
  · rintro ⟨rest, hkey, cs, rfl, hid⟩
    exact ⟨cs, hkey, hid⟩
  · rintro ⟨cs, hkey, hid⟩
    exact ⟨_, hkey, cs, rfl, hid⟩

theorem length_text (id : TaskId) : id.text.toList.length = 26 := by
  rw [TaskId.text, String.toList_ofList, TaskId.length_digits]

/-- Keys that end with an identifier are equal in what stands before it. -/
theorem append_ids {xs ys cs ds : List Char} (h : xs ++ cs = ys ++ ds) (hc : cs.length = 26)
    (hd : ds.length = 26) : xs = ys ∧ cs = ds :=
  List.append_inj' h (hc.trans hd.symm)

/-! ### Letters and marks -/

theorem eq_of_letter (h : g.letter a = k.letter b) : g = k := by
  have h := congrArg String.toList h
  rw [toList_letter, toList_letter, ← List.append_assoc, ← List.append_assoc] at h
  exact eq_of_base (List.append_cancel_right (append_ids h (length_text a) (length_text b)).1)

theorem eq_of_idOfMark? (h : k.idOfMark? (g.mark a) = some id) : g = k := by
  obtain ⟨cs, h, hid⟩ := idOfMark?_eq_some_iff.1 h
  rw [toList_mark, ← List.append_assoc, ← List.append_assoc] at h
  exact eq_of_base (List.append_cancel_right
    (append_ids h (length_text a) (TaskId.digits_of_parse? hid).1).1)

/-- A mark gives back its task to its own scope and nothing to any other. -/
theorem idOfMark?_mark_eq (g k : Keys) (a : TaskId) :
    k.idOfMark? (g.mark a) = if g = k then some a else none := by
  split
  · next h => rw [h, idOfMark?_mark]
  · next h =>
    exact Option.eq_none_iff_forall_ne_some.2 fun id hid => h (eq_of_idOfMark? hid)

theorem letter_eq_letter_iff : g.letter a = k.letter b ↔ g = k ∧ a = b := by
  constructor
  · intro h
    obtain rfl := eq_of_letter h
    exact ⟨rfl, letter_injective h⟩
  · rintro ⟨rfl, rfl⟩
    rfl

theorem mark_eq_mark_iff : g.mark a = k.mark b ↔ g = k ∧ a = b := by
  constructor
  · intro h
    have hread : k.idOfMark? (g.mark a) = some b := by rw [h, idOfMark?_mark]
    obtain rfl := eq_of_idOfMark? hread
    exact ⟨rfl, mark_injective h⟩
  · rintro ⟨rfl, rfl⟩
    rfl

theorem mark_eq_of_idOfMark? (h : k.idOfMark? (g.mark a) = some id) : g.mark a = k.mark id := by
  obtain rfl := eq_of_idOfMark? h
  rw [idOfMark?_mark] at h
  rw [Option.some.inj h]

/-- No letter of any scope is read as a mark. -/
theorem idOfMark?_letter (g k : Keys) (a : TaskId) : k.idOfMark? (g.letter a) = none := by
  refine Option.eq_none_iff_forall_ne_some.2 fun id h => ?_
  obtain ⟨cs, h, hid⟩ := idOfMark?_eq_some_iff.1 h
  rw [toList_letter, ← List.append_assoc, ← List.append_assoc] at h
  have h := (append_ids h (length_text a) (TaskId.digits_of_parse? hid).1).1
  have h : ":letter:".toList = ":sendat:".toList := (List.append_inj' h (by decide)).2
  exact absurd h (by decide)

theorem letter_ne_mark_of (g k : Keys) (a b : TaskId) : g.letter a ≠ k.mark b := by
  intro h
  have hnone := idOfMark?_letter g k a
  rw [h, idOfMark?_mark] at hnone
  cases hnone

/-! ### Pointers -/

/-- No pointer of the scope itself is read as a mark. -/
theorem idOfMark?_pointer (k : Keys) (r : Recipient) : k.idOfMark? (k.pointer r) = none := by
  refine Option.eq_none_iff_forall_ne_some.2 fun id hid => ?_
  obtain ⟨cs, h, -⟩ := idOfMark?_eq_some_iff.1 hid
  rw [toList_pointer] at h
  have h := List.append_cancel_left h
  simp at h

theorem pointer_eq_pointer_iff {r r' : Recipient} :
    k.pointer r = k.pointer r' ↔ r.groupingKey = r'.groupingKey := by
  constructor
  · intro h
    have h := congrArg String.toList h
    rw [toList_pointer, toList_pointer] at h
    exact String.toList_inj.1 (List.append_cancel_left (List.append_cancel_left h))
  · intro h
    rw [pointer, pointer, h]

/-! ### Keys of no concern -/

/-- The scope neither reads the key as a mark nor keeps a letter there. -/
structure Foreign (k : Keys) (key : String) : Prop where
  mark : k.idOfMark? key = none
  letter : ∀ id, key ≠ k.letter id

theorem Foreign.ne_mark (h : k.Foreign key) (id : TaskId) : key ≠ k.mark id := by
  rintro rfl
  have hmark := h.mark
  rw [idOfMark?_mark] at hmark
  cases hmark

theorem foreign_letter (h : g ≠ k) (a : TaskId) : k.Foreign (g.letter a) :=
  ⟨idOfMark?_letter g k a, fun _ he => h (eq_of_letter he)⟩

theorem foreign_mark (h : g ≠ k) (a : TaskId) : k.Foreign (g.mark a) where
  mark := by rw [idOfMark?_mark_eq, if_neg h]
  letter id he := letter_ne_mark_of k g id a he.symm

theorem foreign_pointer (k : Keys) (r : Recipient) : k.Foreign (k.pointer r) where
  mark := idOfMark?_pointer k r
  letter id := pointer_ne_letter r id

/-! ### Pointers of other scopes -/

/-- The first colon of a text splits it in one way only. -/
theorem append_colon {xs ys cs ds : List Char} (hx : ':' ∉ xs)
    (h : xs ++ ':' :: cs = ys ++ ':' :: ds) :
    (xs = ys ∧ cs = ds) ∨ ':' ∈ cs ∧ ∃ us, cs = us ++ ':' :: ds := by
  rcases List.append_eq_append_iff.1 h with ⟨us, rfl, hu⟩ | ⟨us, rfl, hu⟩
  · rcases us with _ | ⟨c, us⟩
    · exact .inl ⟨by simp, (List.cons.inj hu).2⟩
    · have hcs : cs = us ++ ':' :: ds := (List.cons.inj hu).2
      exact .inr ⟨by simp [hcs], us, hcs⟩
  · rcases us with _ | ⟨c, us⟩
    · exact .inl ⟨by simp, (List.cons.inj hu).2.symm⟩
    · obtain ⟨rfl, -⟩ := List.cons.inj hu
      simp at hx

theorem colon_not_mem {cs : List Char} (h : TaskId.parse? (String.ofList cs) = some id) :
    ':' ∉ cs := by
  intro hcolon
  obtain ⟨n, hn⟩ := (TaskId.digits_of_parse? h).2 ':' hcolon
  have hnone : TaskId.digitValue? ':' = none := by decide
  rw [hnone] at hn
  cases hn

/-- Behind a scope without a colon the kind of a key is told from its second colon on. -/
theorem pointer_ne_of_colon (h : ':' ∉ k.scope.toList) (g : Keys) (r : Recipient)
    (kind : List Char) {cs : List Char} (hkind : ':' ∉ kind) (hc : kind.head? ≠ some 'c')
    (hid : TaskId.parse? (String.ofList cs) = some id) :
    (g.pointer r).toList ≠ k.base.toList ++ (':' :: (kind ++ ':' :: cs)) := by
  intro he
  rw [toList_pointer, base, base] at he
  simp only [String.toList_append, List.append_assoc] at he
  have he : k.scope.toList ++ ':' :: (kind ++ ':' :: cs) =
      g.scope.toList ++ ':' :: ("concatletter".toList ++ ':' :: r.groupingKey.toList) :=
    (List.append_cancel_left he).symm
  rcases append_colon h he with ⟨-, hkey⟩ | ⟨-, us, hkey⟩
  · rcases kind with _ | ⟨c, kind⟩
    · cases hkey
    · exact hc (congrArg some (List.cons.inj hkey).1)
  · rcases append_colon hkind hkey with ⟨-, rfl⟩ | ⟨hmem, -⟩
    · exact colon_not_mem hid (by simp)
    · exact colon_not_mem hid hmem

theorem foreign_pointer_of_colon (h : ':' ∉ k.scope.toList) (g : Keys) (r : Recipient) :
    k.Foreign (g.pointer r) where
  mark := by
    refine Option.eq_none_iff_forall_ne_some.2 fun id hid => ?_
    obtain ⟨cs, hkey, hparse⟩ := idOfMark?_eq_some_iff.1 hid
    exact pointer_ne_of_colon h g r "sendat".toList (by decide) (by decide) hparse hkey
  letter id he := by
    have hparse : TaskId.parse? (String.ofList id.digits) = some id := TaskId.parse?_text id
    refine pointer_ne_of_colon h g r "letter".toList (by decide) (by decide) hparse ?_
    simp [he, toList_letter, TaskId.text]

/-- A pointer of one scope may be the mark of a task of another. -/
theorem not_foreign_pointer : ¬(Keys.mk "x:concatletter:foo").Foreign
    ((Keys.mk "x").pointer (.one "foo:sendat:0000000000000000000000000A")) := fun h =>
  h.ne_mark (.ofNat 10) (by decide)

/-! ### What a key tells -/

/-- No two places have one key. -/
theorem Place.key_injective : Function.Injective Place.key := by
  intro p q h
  cases p with
  | letter g a =>
    cases q with
    | letter k b =>
      obtain ⟨rfl, rfl⟩ := letter_eq_letter_iff.1 h
      rfl
    | mark k b => exact absurd h (letter_ne_mark_of g k a b)
  | mark g a =>
    cases q with
    | letter k b => exact absurd h.symm (letter_ne_mark_of k g b a)
    | mark k b =>
      obtain ⟨rfl, rfl⟩ := mark_eq_mark_iff.1 h
      rfl

/-- **Keys tell their scope and their task**, whatever the scopes are called. A mark gives back its
task to its own scope alone, and nothing else that a scope keeps is read as a mark. Letters and
marks stand under keys of their own, also those of different scopes, and so do the pointers of a
scope, one for each grouping key. -/
theorem told_apart :
    (∀ (g k : Keys) (id : TaskId), k.idOfMark? (g.mark id) = if g = k then some id else none) ∧
    (∀ (g k : Keys) (id : TaskId), k.idOfMark? (g.letter id) = none) ∧
    (∀ (k : Keys) (r : Recipient), k.idOfMark? (k.pointer r) = none) ∧
    Function.Injective Place.key ∧
    (∀ (k : Keys) (r : Recipient) (id : TaskId),
      k.pointer r ≠ k.letter id ∧ k.pointer r ≠ k.mark id) ∧
    ∀ (k : Keys) (r r' : Recipient),
      k.pointer r = k.pointer r' ↔ r.groupingKey = r'.groupingKey :=
  ⟨idOfMark?_mark_eq, idOfMark?_letter, idOfMark?_pointer, Place.key_injective,
    fun _ r id => ⟨pointer_ne_letter r id, pointer_ne_mark r id⟩,
    fun _ _ _ => pointer_eq_pointer_iff⟩

/-- The name of a scope may go on like a mark of another one, but then too much follows to be an
identifier. -/
example : (Keys.mk "x").idOfMark?
    ((Keys.mk "x:sendat:0000000000000000000000000A").mark (.ofNat 10)) = none := by decide

end MailQueue.KeyValue.Keys
