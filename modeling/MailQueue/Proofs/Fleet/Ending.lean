import MailQueue.Proofs.Fleet.Attempt

/-!
# How an attempt goes, and how it ends

The transport that an attempt goes through, the write that ends the work on its task, and the event
that tells of it.

* `sends_of_course`: a message goes to the transport that was picked, and `rotated_of_course`: from
  there the task moves on;
* `given_up_of_telling`: the listeners are told that a task is given up after the write that does
  it;
* `events_of_course`: they are told of an attempt once, at its end.
-/

namespace MailQueue

open Queue

def Fleet.told? : Fleet.Exchange → Option Event
  | ⟨.tell e, _⟩ => some e
  | _ => none

namespace Attempt

open Fleet

variable {q : Queue} {t : Task} {l : List Fleet.Exchange} {d e : Attempt} {a : Ask} {x : a.Answer}

/-! ### The transport of an attempt -/

/-- The transport that was picked, as long as it matters. -/
def index? : Attempt → Option Nat
  | sending index _ | timing index _ => some index
  | _ => none

lemma eq_of_index?_after {index j : Nat} {r : Except DeliveryError SendReport}
    (h : (after q t index r).index? = some j) : index = j := by
  rcases after_eq (q := q) (t := t) index r with ⟨e, -, he | he | he⟩ | ⟨report, -, he | he⟩ <;>
    rw [he] at h <;> cases h
  rfl

lemma eq_of_index?_chosen {index j : Nat} (h : (chosen q t index).index? = some j) :
    index = j := by
  rcases chosen_eq (q := q) (t := t) index with ⟨message, he⟩ | ⟨e, he⟩ <;> rw [he] at h
  · exact Option.some.inj h
  · exact eq_of_index?_after h

lemma Advance.index {j : Nat} (h : Advance q t d a x e) (he : e.index? = some j) :
    d.index? = some j ∨ (⟨a, x⟩ : Fleet.Exchange) = ⟨.pick t.transport, j⟩ := by
  cases h with
  | picked index =>
    obtain rfl := eq_of_index?_chosen he
    exact .inr rfl
  | sent index message o =>
    obtain rfl := eq_of_index?_after he
    exact .inl rfl
  | _ => cases he

lemma picked_of_course {j : Nat} (h : Course (Advance q t) (begin t) l d)
    (hd : d.index? = some j) : ⟨.pick t.transport, j⟩ ∈ l := by
  induction h with
  | refl => unfold begin at hd; split at hd <;> cases hd
  | snoc h step ih =>
    rcases step.index hd with hd | hx
    · exact List.mem_append_left _ (ih hd)
    · rw [hx]
      exact List.mem_append_right _ (List.mem_singleton_self _)

lemma picks_of_course {stored j : Nat} (h : Course (Advance q t) (begin t) l d)
    (hx : ⟨.pick stored, j⟩ ∈ l) : stored = t.transport := by
  induction h with
  | refl => cases hx
  | snoc h step ih =>
    rcases List.mem_append.1 hx with hx | hx
    · exact ih hx
    · cases List.mem_singleton.1 hx
      cases step
      rfl

/-- **A message goes to the transport that was picked.** -/
lemma sends_of_course {j : Nat} {message : Mail} {o : SendOutcome}
    (h : Course (Advance q t) (begin t) l d) (hx : ⟨.send j message, o⟩ ∈ l) :
    ⟨.pick t.transport, j⟩ ∈ l := by
  induction h with
  | refl => cases hx
  | snoc h step ih =>
    refine List.mem_append_left _ ?_
    rcases List.mem_append.1 hx with hx | hx
    · exact ih hx
    · cases List.mem_singleton.1 hx
      cases step
      exact picked_of_course h rfl

/-- **A task that is put back moves on** from the transport that was picked. -/
lemma rotated_of_course {retryAt : Instant} {transport : Nat} {error : DeliveryError}
    (h : Course (Advance q t) (begin t) l (puttingBack retryAt transport error)) :
    ∃ index, ⟨.pick t.transport, index⟩ ∈ l ∧
      transport = q.pool.afterFailure index (claimed t).attempts := by
  obtain ⟨l', index, now, hd, rfl, -, ht⟩ := timing_of_course h
  exact ⟨index, List.mem_append_left _ (picked_of_course hd rfl), ht⟩

/-! ### The end of an attempt -/

/-- Whether finished tasks are kept, where that decides how a task is given up. -/
def keeping? : Attempt → Option Bool
  | marking _ => some true
  | dropping _ => some false
  | _ => none

lemma keeping?_after {index : Nat} {r : Except DeliveryError SendReport} {b : Bool}
    (h : (after q t index r).keeping? = some b) : q.config.keepHistory = b := by
  unfold after at h
  rcases r with e | report
  · cases hk : q.config.keepHistory <;> simp only [hk] at h <;> split at h <;> cases h <;> rfl
  · cases hk : q.config.keepHistory <;> simp only [hk] at h <;> cases h

lemma keeping_of_course {b : Bool} (h : Course (Advance q t) (begin t) l d)
    (hd : d.keeping? = some b) : q.config.keepHistory = b := by
  cases h with
  | refl => unfold begin at hd; split at hd <;> cases hd
  | snoc h step =>
    cases step with
    | picked index =>
      rcases chosen_eq (q := q) (t := t) index with ⟨message, he⟩ | ⟨e, he⟩ <;> rw [he] at hd
      · cases hd
      · exact keeping?_after hd
    | sent => exact keeping?_after hd
    | _ => cases hd

/-- The listeners are told that a task is given up after the write that does it: the task is marked
where finished tasks are kept, and removed elsewhere. -/
lemma given_up_of_telling {event : Event}
    (h : Course (Advance q t) (begin t) l (telling event .failed)) :
    ∃ l' error, event = .failed (claimed t) error .gaveUp ∧
      ((q.config.keepHistory = true ∧ Course (Advance q t) (begin t) l' (marking error) ∧
          ∃ answer, l = l' ++ [⟨.store (.mutate t.id .fail), answer⟩]) ∨
        (q.config.keepHistory = false ∧ Course (Advance q t) (begin t) l' (dropping error) ∧
          ∃ answer, l = l' ++ [⟨.store (.delete t.id), answer⟩])) := by
  generalize hd : telling event .failed = d at h
  cases h with
  | refl => unfold begin at hd; split at hd <;> cases hd
  | snoc h step =>
    cases step with
    | marked error answer =>
      cases hd
      exact ⟨_, error, rfl, .inl ⟨keeping_of_course h rfl, h, answer, rfl⟩⟩
    | dropped error answer =>
      cases hd
      exact ⟨_, error, rfl, .inr ⟨keeping_of_course h rfl, h, answer, rfl⟩⟩
    | picked index =>
      rcases chosen_eq (q := q) (t := t) index with ⟨message, he⟩ | ⟨e, he⟩ <;> rw [he] at hd
      · cases hd
      · cases (telling_of_after hd).1
    | sent => cases (telling_of_after hd).1
    | _ => cases hd

lemma untold_of_course (h : Course (Advance q t) (begin t) l d) :
    (∃ o, d = finished o) ∨ l.filterMap told? = [] := by
  induction h with
  | refl => exact .inr rfl
  | snoc h step ih =>
    cases step with
    | told event o => exact .inl ⟨o, rfl⟩
    | _ =>
      refine .inr ?_
      rw [List.filterMap_append, ih.resolve_left (by simp)]
      rfl

/-- **The listeners are told of an attempt once**, by the event that ends it. -/
lemma events_of_course {event : Event} {o : TaskOutcome}
    (h : Course (Advance q t) (begin t) l (telling event o)) :
    (l ++ [(⟨.tell event, ()⟩ : Fleet.Exchange)]).filterMap told? = [event] := by
  rw [List.filterMap_append, (untold_of_course h).resolve_left (by simp)]
  rfl

end Attempt

end MailQueue
