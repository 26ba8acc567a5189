import MailQueue.KeyValue.Client
import MailQueue.KeyValue.Server
import MailQueue.Proofs.TaskId
import MailQueue.Proofs.Value

/-!
# Keys that last

The letters and marks of a scope stand under different keys, and none of them ever expires. What a
server holds under such a key does not depend on the time.

* `Keys.letter_injective`, `Keys.mark_injective`, `Keys.letter_ne_mark` and the two facts about
  pointers keep the keys apart;
* `Server.Lasting` says that a key does not expire, and `Server.text?` is what stands under it,
  with `get?_of_lasting`;
* `text?_set`, `text?_del`, `runScript_replace` and `runScript_remove` say what a write does;
* `Server.Calm`: no command fails and no one else writes, which commands leave so.
-/

namespace MailQueue

namespace Entries

variable {α : Type} {l : Entries α} {key : String}

theorem get?_filter {p : String × α → Bool} (h : ∀ e ∈ l, e.1 = key → p e = true) :
    Entries.get? (l.filter p) key = l.get? key := by
  induction l with
  | nil => rfl
  | cons e l ih =>
    have ih := ih fun d hd => h d (List.mem_cons_of_mem _ hd)
    obtain ⟨k, v⟩ := e
    by_cases hk : k = key
    · rw [List.filter_cons_of_pos (h (k, v) List.mem_cons_self hk), get?_cons, get?_cons, if_pos hk,
        if_pos hk]
    · rw [get?_cons, if_neg hk, ← ih]
      cases hp : p (k, v) with
      | true => rw [List.filter_cons_of_pos hp, get?_cons, if_neg hk]
      | false => rw [List.filter_cons_of_neg (by simp [hp])]

end Entries

namespace KeyValue

namespace Keys

variable (k : Keys)

theorem toList_letter (id : TaskId) :
    (k.letter id).toList = k.base.toList ++ (":letter:".toList ++ id.text.toList) := by
  simp [letter]

theorem toList_mark (id : TaskId) :
    (k.mark id).toList = k.base.toList ++ (":sendat:".toList ++ id.text.toList) := by
  simp [mark]

theorem toList_pointer (r : Recipient) :
    (k.pointer r).toList =
      k.base.toList ++ (":concatletter:".toList ++ r.groupingKey.toList) := by
  simp [pointer]

variable {k}

theorem letter_injective {a b : TaskId} (h : k.letter a = k.letter b) : a = b := by
  have h := congrArg String.toList h
  rw [toList_letter, toList_letter] at h
  have h := List.append_cancel_left (List.append_cancel_left h)
  exact TaskId.text_injective (String.toList_inj.1 h)

theorem mark_injective {a b : TaskId} (h : k.mark a = k.mark b) : a = b := by
  have h := congrArg String.toList h
  rw [toList_mark, toList_mark] at h
  have h := List.append_cancel_left (List.append_cancel_left h)
  exact TaskId.text_injective (String.toList_inj.1 h)

theorem letter_ne_mark (a b : TaskId) : k.letter a ≠ k.mark b := by
  intro h
  have h := congrArg String.toList h
  rw [toList_letter, toList_mark] at h
  have h := List.append_cancel_left h
  simp at h

theorem pointer_ne_letter (r : Recipient) (a : TaskId) : k.pointer r ≠ k.letter a := by
  intro h
  have h := congrArg String.toList h
  rw [toList_pointer, toList_letter] at h
  have h := List.append_cancel_left h
  simp at h

theorem pointer_ne_mark (r : Recipient) (a : TaskId) : k.pointer r ≠ k.mark a := by
  intro h
  have h := congrArg String.toList h
  rw [toList_pointer, toList_mark] at h
  have h := List.append_cancel_left h
  simp at h

end Keys

namespace Server

/-- Nothing under the key expires. -/
def Lasting (s : Server) (key : String) : Prop := ∀ e ∈ s.entries, e.1 = key → e.2.expires = none

def text? (s : Server) (key : String) : Option String := (s.entries.get? key).map Cell.value

variable {s : Server} {key key' value : String} {now : Int}

theorem get?_live {es : Entries Cell} (h : ∀ e ∈ es, e.1 = key → e.2.expires = none) (now : Int) :
    (live now es).get? key = es.get? key := by
  refine Entries.get?_filter fun e he hk => ?_
  rw [h e he hk]

theorem get?_of_lasting (h : s.Lasting key) (now : Int) : s.get? now key = s.text? key := by
  rw [get?, get?_live h, text?]

theorem mem_live {es : Entries Cell} {e : String × Cell} (h : e ∈ live now es) : e ∈ es :=
  List.mem_of_mem_filter h

theorem Lasting.set {expires : Option Int} (h : s.Lasting key') (hk : key = key' → expires = none)
    (now : Int) (value : String) : (s.set now key value expires).Lasting key' := by
  intro e he hek
  rcases Entries.mem_put (mem_live he) with rfl | he
  · exact hk hek
  · exact h e (mem_live he) hek

theorem text?_set {expires : Option Int} (h : s.Lasting key') (hk : key = key' → expires = none)
    (now : Int) (value : String) :
    (s.set now key value expires).text? key' = if key = key' then some value else s.text? key' := by
  have hput : ∀ e ∈ (live now s.entries).put key ⟨value, expires⟩, e.1 = key' →
      e.2.expires = none := by
    intro e he hek
    rcases Entries.mem_put he with rfl | he
    · exact hk hek
    · exact h e (mem_live he) hek
  rw [text?, Server.set, get?_live hput, Entries.get?_put]
  split
  · rfl
  · rw [get?_live h, text?]

theorem Lasting.del (h : s.Lasting key') (now : Int) (key : String) :
    (s.del now key).2.Lasting key' :=
  fun e he hek => h e (mem_live (List.mem_of_mem_filter he)) hek

theorem text?_del (h : s.Lasting key') (now : Int) (key : String) :
    (s.del now key).2.text? key' = if key = key' then none else s.text? key' := by
  rw [text?, Server.del, Entries.get?_erase]
  split
  · rfl
  · rw [get?_live h, text?]

theorem mem_set {expires : Option Int} {e : String × Cell}
    (h : e ∈ (s.set now key value expires).entries) : e.1 = key ∨ e ∈ s.entries :=
  (Entries.mem_put (mem_live h)).imp (fun he => congrArg Prod.fst he) mem_live

theorem mem_del {e : String × Cell} (h : e ∈ (s.del now key).2.entries) : e ∈ s.entries :=
  mem_live (List.mem_of_mem_filter h)

/-! ### Commands -/

/-- No command is going to fail, and nobody writes on the way to a script. -/
structure Calm (s : Server) : Prop where
  failing : s.failing = []
  beforeScript : s.beforeScript = []

theorem Calm.takeFailure (h : s.Calm) (name : String) : s.takeFailure name = (false, s) := by
  simp only [Server.takeFailure, h.failing]

theorem Calm.takeFailures (h : s.Calm) (names : List String) :
    s.takeFailures names = (false, s) := by
  unfold Server.takeFailures
  induction names with
  | nil => rfl
  | cons name names ih =>
    rw [List.foldl_cons, h.takeFailure]
    exact ih

theorem Calm.answer_get (h : s.Calm) (now : Int) (key : String) :
    s.answer now (.get key) = (some (s.get? now key), s) := by
  simp only [Server.answer, h.takeFailure]
  rfl

theorem Calm.answer_load (h : s.Calm) (now : Int) (script : Script) :
    s.answer now (.load script) = (some (), { s with known := script :: s.known }) := by
  simp only [Server.answer, h.takeFailure]
  rfl

section Run

variable {script : Script} {letterKey markKey expected replacement mark : String}

theorem Calm.answer_run_of_unknown (h : s.Calm) (hs : script ∉ s.known) :
    s.answer now (.run script letterKey markKey expected replacement mark) = (.unknown, s) := by
  simp only [Server.answer, h.takeFailure, Bool.false_eq_true, if_false, if_pos hs]

theorem Calm.answer_run (h : s.Calm) (hs : script ∈ s.known) :
    s.answer now (.run script letterKey markKey expected replacement mark) =
      (.applied (s.runScript now script letterKey markKey expected replacement mark).1,
        (s.runScript now script letterKey markKey expected replacement mark).2) := by
  have hrun : s.beforeRun now = s := by simp only [beforeRun, h.beforeScript]
  simp only [Server.answer, h.takeFailure, Bool.false_eq_true, if_false, hs, not_true, hrun]

theorem runScript_of_ne (h : s.get? now letterKey ≠ some expected) :
    s.runScript now script letterKey markKey expected replacement mark = (0, s) := by
  unfold runScript
  rw [if_pos h]

theorem runScript_replace (h : s.get? now letterKey = some expected) :
    s.runScript now .replace letterKey markKey expected replacement mark =
      (1, if mark.isEmpty then ((s.set now letterKey replacement none).del now markKey).2
        else (s.set now letterKey replacement none).set now markKey mark none) := by
  unfold runScript
  rw [if_neg (not_not.2 h)]

theorem runScript_remove (h : s.get? now letterKey = some expected) :
    s.runScript now .remove letterKey markKey expected replacement mark =
      (1, ((s.del now letterKey).2.del now markKey).2) := by
  unfold runScript
  rw [if_neg (not_not.2 h)]

theorem runScript_applied (h : s.get? now letterKey = some expected) :
    (s.runScript now script letterKey markKey expected replacement mark).1 = 1 := by
  cases script with
  | replace => exact congrArg Prod.fst (runScript_replace h)
  | remove => exact congrArg Prod.fst (runScript_remove h)

end Run

theorem Calm.answer_transaction (h : s.Calm) (now : Int) (writes : List Write) :
    s.answer now (.transaction writes) =
      ((writeAll now s writes).1.mapM id, (writeAll now s writes).2) := by
  simp only [Server.answer, h.takeFailures, Bool.false_eq_true, if_false]

/-- A key that may expire is set, or this is refused; other keys stay as they are. -/
theorem write_expiring (h : s.Lasting key') (hk : key ≠ key') (now t : Int) (value : String) :
    (write now s (.set key value (some t))).2.text? key' = s.text? key' ∧
      (write now s (.set key value (some t))).2.Lasting key' := by
  have hno : key = key' → some t = none := fun e => absurd e hk
  simp only [write]
  split
  · exact ⟨rfl, h⟩
  · exact ⟨by rw [text?_set h hno, if_neg hk], h.set hno now value⟩

theorem mem_write_set {expires : Option Int} {e : String × Cell}
    (h : e ∈ (write now s (.set key value expires)).2.entries) : e.1 = key ∨ e ∈ s.entries := by
  rcases expires with _ | t
  · exact mem_set h
  · simp only [write] at h
    split at h
    · exact .inr h
    · exact mem_set h

/-! ### What no command touches -/

theorem Calm.set (h : s.Calm) (now : Int) (key value : String) (expires : Option Int) :
    (s.set now key value expires).Calm := ⟨h.failing, h.beforeScript⟩

theorem Calm.del (h : s.Calm) (now : Int) (key : String) : (s.del now key).2.Calm :=
  ⟨h.failing, h.beforeScript⟩

theorem writeAll_eq (s : Server) (now : Int) (writes : List Write) :
    ∃ entries, (writeAll now s writes).2 = { s with entries := entries } := by
  induction writes generalizing s with
  | nil => exact ⟨s.entries, rfl⟩
  | cons w writes ih =>
    have hw : ∃ entries, (write now s w).2 = { s with entries := entries } := by
      cases w with
      | del key => exact ⟨_, rfl⟩
      | set key value expires =>
        cases expires with
        | none => exact ⟨_, rfl⟩
        | some t =>
          by_cases ht : t ≤ 0
          · exact ⟨s.entries, by rw [write, if_pos ht]⟩
          · exact ⟨_, by rw [write, if_neg ht]; rfl⟩
    obtain ⟨entries, hw⟩ := hw
    obtain ⟨entries', hrest⟩ := ih (write now s w).2
    rw [hw] at hrest
    refine ⟨entries', ?_⟩
    show (writeAll now (write now s w).2 writes).2 = _
    rw [hw]
    exact hrest

theorem Calm.writeAll (h : s.Calm) (now : Int) (writes : List Write) :
    (writeAll now s writes).2.Calm := by
  obtain ⟨entries, he⟩ := writeAll_eq s now writes
  rw [he]
  exact ⟨h.failing, h.beforeScript⟩

theorem Calm.answer_eq (h : s.Calm) (now : Int) (c : Command) :
    ∃ entries, (s.answer now c).2 = { s with
      entries := entries
      known := match c with
        | .load script => script :: s.known
        | _ => s.known } := by
  cases c with
  | get key => exact ⟨s.entries, by rw [h.answer_get]⟩
  | scan cursor pattern count => exact ⟨s.entries, by simp only [Server.answer, h.takeFailure]⟩
  | load script => exact ⟨s.entries, by rw [h.answer_load]⟩
  | ping => exact ⟨s.entries, by simp only [Server.answer, h.takeFailure]⟩
  | transaction writes =>
    rw [h.answer_transaction]
    exact writeAll_eq s now writes
  | run script letterKey markKey expected replacement mark =>
    by_cases hs : script ∈ s.known
    · rw [h.answer_run hs]
      by_cases hl : s.get? now letterKey = some expected
      · cases script with
        | replace =>
          rw [runScript_replace hl]
          cases mark.isEmpty <;> exact ⟨_, rfl⟩
        | remove =>
          rw [runScript_remove hl]
          exact ⟨_, rfl⟩
      · rw [runScript_of_ne hl]
        exact ⟨s.entries, rfl⟩
    · rw [h.answer_run_of_unknown hs]
      exact ⟨s.entries, rfl⟩

theorem Calm.answer (h : s.Calm) (now : Int) (c : Command) : (s.answer now c).2.Calm := by
  obtain ⟨entries, he⟩ := h.answer_eq now c
  rw [he]
  exact ⟨h.failing, h.beforeScript⟩

theorem Calm.known_answer (h : s.Calm) (now : Int) (c : Command) :
    (s.answer now c).2.known = match c with
      | .load script => script :: s.known
      | _ => s.known := by
  obtain ⟨entries, he⟩ := h.answer_eq now c
  rw [he]

end Server

end KeyValue

end MailQueue
