import MailQueue.Proofs.Mirror.Invariant

/-!
# Runs of calls that are written down

A run as a list of moves: calls start, and the next command of a call is answered.

* `play` is the state that a move leads to, `playAll` that of a list;
* `run_of_playAll`: what is played is a run, when the calls of its list may be made, and
  `durable_of_playAll` when letters give back what they hand over;
* `Shared.fresh` is an empty server, which is in step with an empty store: `inStep_fresh`.
-/

namespace MailQueue.Mirror

open Interleaving KeyValue

def Shared.fresh (now : Int) : Shared := ⟨{}, now, []⟩

inductive Move where
  /-- The time of the server changes. -/
  | clock (now : Int)
  | start (j : Job)
  /-- The next command of the call of this number is answered. -/
  | reply (n : Nat)

def respond (s : State) (n : Nat) : State :=
  match s.threads[n]? with
  | some ⟨j, .ask q next⟩ =>
    s.answered n j q (s.shared.server.answer s.shared.now q).1 next
      { s.shared with server := (s.shared.server.answer s.shared.now q).2 }
  | _ => s

variable (f : Mirror)

def play (s : State) : Move → State
  | .clock now => { s with shared := { s.shared with now := now } }
  | .start j => s.started f.rules j { s.shared with issued := j.issues ++ s.shared.issued }
  | .reply n => respond s n

def playAll (s : State) (mvs : List Move) : State := mvs.foldl f.play s

def jobs (mvs : List Move) : List Job :=
  mvs.filterMap fun mv => match mv with
    | .start j => some j
    | _ => none

variable {f} {s t : State}

theorem run_respond (s : State) (n : Nat) : Run f.rules s (respond s n) := by
  unfold respond
  split
  · next asks => exact .snoc .refl (.answer asks ⟨rfl, rfl⟩)
  · exact .refl

theorem issued_respond (s : State) (n : Nat) : (respond s n).shared.issued = s.shared.issued := by
  unfold respond
  split <;> rfl

theorem run_of_playAll {mvs : List Move} (hp : ∀ j ∈ jobs mvs, j.Plain)
    (hnew : ((jobs mvs).flatMap Job.issues ++ s.shared.issued).Nodup) :
    Run f.rules s (f.playAll s mvs) := by
  induction mvs generalizing s with
  | nil => exact .refl
  | cons mv mvs ih =>
    cases mv with
    | clock now =>
      have hstep : Run f.rules s (f.play s (.clock now)) := .snoc .refl (.move ⟨now, rfl⟩)
      exact hstep.trans (ih hp hnew)
    | start j =>
      have hp' : ∀ j' ∈ jobs mvs, j'.Plain := fun j' hj' => hp j' (List.mem_cons_of_mem _ hj')
      have hnew : (j.issues ++ ((jobs mvs).flatMap Job.issues ++ s.shared.issued)).Nodup := by
        rw [← List.append_assoc]
        exact hnew
      have hfresh : ∀ id ∈ j.issues, id ∉ s.shared.issued := by
        intro id hid hmem
        exact (List.nodup_append.1 hnew).2.2 id hid id (List.mem_append_right _ hmem) rfl
      have hrest : ((jobs mvs).flatMap Job.issues ++ (j.issues ++ s.shared.issued)).Nodup := by
        refine (List.Perm.nodup_iff ?_).1 hnew
        rw [← List.append_assoc, ← List.append_assoc]
        exact List.Perm.append_right _ List.perm_append_comm
      have hstep : Run f.rules s (f.play s (.start j)) :=
        .snoc .refl (.start ⟨hp j List.mem_cons_self, hfresh, rfl⟩)
      exact hstep.trans (ih hp' hrest)
    | reply n =>
      refine (run_respond s n).trans (ih hp ?_)
      rw [issued_respond]
      exact hnew

theorem durable_respond {n : Nat} (h : Durable s) : Durable (respond s n) := by
  unfold respond
  split
  · next asks =>
    intro k j w hk
    obtain ⟨w', hk'⟩ := job_of_answered asks hk
    exact h k j w' hk'
  · exact h

theorem durable_of_playAll {mvs : List Move} (hd : ∀ j ∈ jobs mvs, j.Durable) (h : Durable s) :
    Durable (f.playAll s mvs) := by
  induction mvs generalizing s with
  | nil => exact h
  | cons mv mvs ih =>
    cases mv with
    | clock now => exact ih hd h
    | start j =>
      refine ih (fun j' hj' => hd j' (List.mem_cons_of_mem _ hj')) fun n j' w hn => ?_
      rcases getElem?_started hn with ⟨-, hs⟩ | ⟨-, hth⟩
      · exact h n j' w hs
      · obtain ⟨rfl, -⟩ := Thread.mk.inj hth
        exact hd _ List.mem_cons_self
    | reply n => exact ih hd (durable_respond h)

theorem inStep_fresh (f : Mirror) (now : Int) :
    f.InStep (.fresh now) { binding := some f.binding } where
  mirrors := ⟨fun _ => rfl, fun _ => rfl⟩
  calm := ⟨rfl, rfl⟩
  lasting id := ⟨fun e he => absurd he List.not_mem_nil, fun e he => absurd he List.not_mem_nil⟩
  binding := rfl
  plain id t ht := by cases ht
  issued id t ht := by cases ht

end MailQueue.Mirror
