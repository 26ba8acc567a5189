import MailQueue.Proofs.Mirror.InStep

/-!
# One command of a call

What one step of a call can be, as long as server and memory are in step.

* `Turn` says it for an update: what was found, what was answered and where that leads; `turn` is
  the proof;
* `UpdateAt` is the state of an update in a run, and `single` the state of a call of one command;
* `view_of_ask` and `view_of_done` are what is known of a call that goes on or has ended;
* `Asks` says what a call asks for whatever it is answered, and `asks_of_path` that it asks for
  nothing else.
-/

namespace MailQueue.Mirror

open Interleaving KeyValue KeyValue.Client

/-! ### Calls of one command -/

theorem single {α : Type} {q : Command} {result : q.Answer → α}
    {l : List (Exchange Command Command.Answer)} {p : Work α}
    (h : Program.Path (.ask q fun a => .done (result a)) l p) :
    (l = [] ∧ p = .ask q fun a => .done (result a)) ∨
      ∃ a, l = [⟨q, a⟩] ∧ p = .done (result a) := by
  rcases h.of_ask with hleft | ⟨a, l', rfl, hrest⟩
  · exact .inl hleft
  · obtain ⟨rfl, hp⟩ := hrest.of_done
    exact .inr ⟨a, rfl, hp⟩

def insertResult : Option (List Nat) → Except StoreError Unit
  | none => .error serverError
  | some _ => .ok ()

def deleteResult : Option (List Nat) → Except StoreError Bool
  | some (removed :: _) => .ok (decide (0 < removed))
  | _ => .error serverError

variable {f : Mirror} {s : State} {x : Shared} {m : Memory}

theorem work_insert (f : Mirror) (task : Task) :
    f.rules.work (.insert task) =
      .ask (.transaction (f.client.insertWrites f.binding task)) fun a =>
        .done (insertResult a) := by
  refine congrArg (Program.ask _) (funext fun a => ?_)
  cases a <;> rfl

theorem work_delete (f : Mirror) (id : TaskId) :
    f.rules.work (.delete id) =
      .ask (.transaction [.del (f.keys.letter id), .del (f.keys.mark id)]) fun a =>
        .done (deleteResult a) := by
  refine congrArg (Program.ask _) (funext fun a => ?_)
  rcases a with _ | _ | ⟨n, ns⟩ <;> rfl

/-! ### Updates -/

/-- What one command of an update can be. -/
inductive Turn (f : Mirror) (id : TaskId) (decide : Task → Option Decision) (x : Shared) :
    Update → (q : Command) → q.Answer → Update → Server → Prop where
  | gone (rounds : Nat) (h : x.server.text? (f.keys.letter id) = none) :
      Turn f id decide x (.reading rounds) (.get (f.keys.letter id)) (some none)
        (.finished (.ok false)) x.server
  | left (rounds : Nat) (raw : String) (t : Task)
      (h : x.server.text? (f.keys.letter id) = some raw) (ht : Task.ofLetter raw = some t)
      (hd : decide t = none) :
      Turn f id decide x (.reading rounds) (.get (f.keys.letter id)) (some (some raw))
        (.finished (.ok false)) x.server
  | read (rounds : Nat) (raw : String) (t : Task) (d : Decision)
      (h : x.server.text? (f.keys.letter id) = some raw) (ht : Task.ofLetter raw = some t)
      (hd : decide t = some d) :
      Turn f id decide x (.reading rounds) (.get (f.keys.letter id)) (some (some raw))
        (.swapping rounds ⟨raw, d⟩ false) x.server
  | unknown (rounds : Nat) (w : Swap) :
      Turn f id decide x (.swapping rounds w false) (Update.command f.client id w) .unknown
        (.teaching rounds w) x.server
  | taught (rounds : Nat) (w : Swap) :
      Turn f id decide x (.teaching rounds w) (.load w.decision.script) (some ())
        (.swapping rounds w true) { x.server with known := w.decision.script :: x.server.known }
  | lost (rounds : Nat) (w : Swap) (taught : Bool)
      (h : x.server.text? (f.keys.letter id) ≠ some w.raw) :
      Turn f id decide x (.swapping rounds w taught) (Update.command f.client id w) (.applied 0)
        (Update.again id rounds) x.server
  | won (rounds : Nat) (w : Swap) (taught : Bool) (t : Task)
      (h : x.server.text? (f.keys.letter id) = some w.raw) (ht : Task.ofLetter w.raw = some t)
      (hd : decide t = some w.decision) :
      Turn f id decide x (.swapping rounds w taught) (Update.command f.client id w) (.applied 1)
        (.finished (.ok true))
        (x.server.runScript x.now w.decision.script (f.keys.letter id) (f.keys.mark id) w.raw
          w.decision.letter w.decision.mark).2

/-- What an update has read is a letter that its decision was made on, and no round is counted
twice. -/
def Sound (decide : Task → Option Decision) (limit : Nat) : Update → Prop
  | .reading rounds => rounds < limit
  | .swapping rounds w _ => rounds < limit ∧
      ∃ t, Task.ofLetter w.raw = some t ∧ decide t = some w.decision
  | .teaching rounds w => rounds < limit ∧
      ∃ t, Task.ofLetter w.raw = some t ∧ decide t = some w.decision
  | .finished _ => True

/-- The server knows the script of an update that made it known. -/
def Known (known : List Script) : Update → Prop
  | .swapping _ w true => w.decision.script ∈ known
  | _ => True

variable {id : TaskId} {decide : Task → Option Decision}

theorem sound_again {rounds limit : Nat} (h : rounds < limit) :
    Sound decide limit (Update.again id rounds) := by
  cases rounds with
  | zero => trivial
  | succ rounds => exact Nat.lt_of_succ_lt h

theorem sound_of_course {c : Client} {rounds : Nat}
    {l : List (Exchange Command Command.Answer)} {d : Update}
    (h : Course (Update.Advance c id decide) (.reading rounds) l d) :
    Sound decide (rounds + 1) d := by
  induction h with
  | refl => exact Nat.lt_succ_self rounds
  | snoc _ step ih =>
    cases step with
    | looked r found =>
      rcases found with _ | _ | raw
      · trivial
      · trivial
      · simp only [Update.looked]
        rcases ht : Task.ofLetter raw with _ | t
        · trivial
        · dsimp only
          rcases hd : decide t with _ | decision
          · trivial
          · exact ⟨ih, t, ht, hd⟩
    | swapped r w wasTaught result =>
      cases result with
      | applied n =>
        simp only [Update.swapped]
        split
        · trivial
        · exact sound_again ih.1
      | unknown =>
        cases wasTaught with
        | false => exact ih
        | true => trivial
      | failed => trivial
    | taught r w answer =>
      rcases answer with _ | _
      · trivial
      · exact ih

theorem turn_looked (h : f.InStep x m) (rounds : Nat) :
    Turn f id decide x (.reading rounds) (.get (f.keys.letter id))
      (x.server.answer x.now (.get (f.keys.letter id))).1
      (Update.looked decide rounds (x.server.answer x.now (.get (f.keys.letter id))).1)
      (x.server.answer x.now (.get (f.keys.letter id))).2 := by
  rw [h.calm.answer_get, h.get?_letter]
  have hl := h.mirrors.letters id
  rw [h.get?_letter] at hl
  rcases hraw : x.server.text? (f.keys.letter id) with _ | raw
  · exact .gone rounds hraw
  · rw [hraw] at hl
    rcases hg : m.get? id with _ | t <;> rw [hg] at hl
    · cases hl
    · have ht : Task.ofLetter raw = some t := Option.some.inj hl
      simp only [Update.looked, ht]
      rcases hd : decide t with _ | decision
      · exact .left rounds raw t hraw ht hd
      · exact .read rounds raw t decision hraw ht hd

/-- A known script writes if the letter is what was read, and else does nothing. -/
theorem turn_swapped (h : f.InStep x m) {limit rounds : Nat} {w : Swap} {wasTaught : Bool}
    (hs : Sound decide limit (.swapping rounds w wasTaught))
    (hkn : w.decision.script ∈ x.server.known) :
    Turn f id decide x (.swapping rounds w wasTaught) (Update.command f.client id w)
      (x.server.answer x.now (Update.command f.client id w)).1
      (Update.swapped id rounds w wasTaught
        (x.server.answer x.now (Update.command f.client id w)).1)
      (x.server.answer x.now (Update.command f.client id w)).2 := by
  have hans : x.server.answer x.now (Update.command f.client id w) = _ := h.calm.answer_run hkn
  rw [hans]
  by_cases hraw : x.server.text? (f.keys.letter id) = some w.raw
  · obtain ⟨t, ht, hd⟩ := hs.2
    have hget : x.server.get? x.now (f.client.keys.letter id) = some w.raw :=
      (h.get?_letter x.now id).trans hraw
    rw [Server.runScript_applied hget]
    exact .won rounds w wasTaught t hraw ht hd
  · have hget : x.server.get? x.now (f.client.keys.letter id) ≠ some w.raw := fun he =>
      hraw ((h.get?_letter x.now id).symm.trans he)
    rw [Server.runScript_of_ne hget]
    exact .lost rounds w wasTaught hraw

/-- **An update takes one of these turns**, as long as server and memory are in step. -/
theorem turn (h : f.InStep x m) {limit : Nat} {d e : Update} (hs : Sound decide limit d)
    (hk : Known x.server.known d) {q : Command} {a : q.Answer}
    (step : Update.Advance f.client id decide d q a e) (ha : a = (x.server.answer x.now q).1) :
    Turn f id decide x d q a e (x.server.answer x.now q).2 := by
  subst ha
  cases step with
  | looked rounds => exact turn_looked h rounds
  | taught rounds w =>
    rw [h.calm.answer_load x.now w.decision.script]
    exact .taught rounds w
  | swapped rounds w wasTaught =>
    by_cases hkn : w.decision.script ∈ x.server.known
    · exact turn_swapped h hs hkn
    · -- a script that was made known stays so
      cases wasTaught with
      | true => exact absurd hk hkn
      | false =>
        have hans : x.server.answer x.now (Update.command f.client id w) = _ :=
          h.calm.answer_run_of_unknown hkn
        rw [hans]
        exact .unknown rounds w

/-! ### Calls in a run -/

/-- How far a call that updates has come. -/
structure UpdateAt (f : Mirror) (s : State) (n : Nat) (j : Job)
    (decide : Task → Option Decision) (d : Update) : Prop where
  decides : Decides f.binding j decide
  thread : ∃ w, s.threads[n]? = some ⟨j, w⟩
  course : Course (Update.Advance f.client j.id decide) (.reading 7) (s.past n) d

variable {x₀ : Shared} {n : Nat}

theorem updateAt_of_mutate {p : Patch} {w : Work (Job.mutate id p).Result}
    (h : Run f.rules { shared := x₀ } s) (hn : s.threads[n]? = some ⟨.mutate id p, w⟩) :
    ∃ d, UpdateAt f s n (.mutate id p) (patchDecision p) d ∧
      w = d.work f.client id (patchDecision p) := by
  obtain ⟨d, hd, hw⟩ := Update.course 7 (h.path hn)
  exact ⟨d, ⟨decides_mutate id p, ⟨w, hn⟩, hd⟩, hw⟩

theorem updateAt_of_cancel {w : Work (Job.cancel id).Result}
    (h : Run f.rules { shared := x₀ } s) (hn : s.threads[n]? = some ⟨.cancel id, w⟩) :
    ∃ d, UpdateAt f s n (.cancel id) (cancelDecision f.binding) d ∧
      w = d.work f.client id (cancelDecision f.binding) := by
  obtain ⟨d, hd, hw⟩ := Update.course 7 (h.path hn)
  exact ⟨d, ⟨decides_cancel id, ⟨w, hn⟩, hd⟩, hw⟩

theorem view_of_ask {j : Job} {q : Command} {next : q.Answer → Work j.Result}
    (h : Run f.rules { shared := x₀ } s) (asks : s.threads[n]? = some ⟨j, .ask q next⟩)
    (a : q.Answer) :
    (∃ decide d e, UpdateAt f s n j decide d ∧ Update.Advance f.client j.id decide d q a e) ∨
      (∃ task, j = .insert task ∧ s.past n = [] ∧
        q = .transaction (f.client.insertWrites f.binding task)) ∨
      ∃ id, j = .delete id ∧ s.past n = [] ∧
        q = .transaction [.del (f.keys.letter id), .del (f.keys.mark id)] := by
  cases j with
  | insert task =>
    have hp := h.path asks
    rw [work_insert] at hp
    rcases single hp with ⟨hl, hask⟩ | ⟨b, -, hdone⟩
    · obtain ⟨rfl, -⟩ := Program.ask.inj hask
      exact .inr (.inl ⟨task, rfl, hl, rfl⟩)
    · cases hdone
  | delete id =>
    have hp := h.path asks
    rw [work_delete] at hp
    rcases single hp with ⟨hl, hask⟩ | ⟨b, -, hdone⟩
    · obtain ⟨rfl, -⟩ := Program.ask.inj hask
      exact .inr (.inr ⟨id, rfl, hl, rfl⟩)
    · cases hdone
  | mutate id p =>
    obtain ⟨d, hd, hw⟩ := updateAt_of_mutate h asks
    obtain ⟨e, step, -⟩ := Update.follow hw.symm a
    exact .inl ⟨_, d, e, hd, step⟩
  | cancel id =>
    obtain ⟨d, hd, hw⟩ := updateAt_of_cancel h asks
    obtain ⟨e, step, -⟩ := Update.follow hw.symm a
    exact .inl ⟨_, d, e, hd, step⟩

theorem view_of_done {j : Job} {r : j.Result} (h : Run f.rules { shared := x₀ } s)
    (hn : s.threads[n]? = some ⟨j, .done r⟩) :
    (∃ decide, UpdateAt f s n j decide (.finished (j.said r))) ∨
      (∃ task a, j = .insert task ∧
        s.past n = [⟨.transaction (f.client.insertWrites f.binding task), a⟩] ∧
        j.said r = (insertResult a).map fun _ => true) ∨
      ∃ id a, j = .delete id ∧
        s.past n = [⟨.transaction [.del (f.keys.letter id), .del (f.keys.mark id)], a⟩] ∧
        j.said r = deleteResult a := by
  cases j with
  | insert task =>
    have hp := h.path hn
    rw [work_insert] at hp
    rcases single hp with ⟨-, hask⟩ | ⟨a, hl, hdone⟩
    · cases hask
    · cases hdone
      exact .inr (.inl ⟨task, a, rfl, hl, rfl⟩)
  | delete id =>
    have hp := h.path hn
    rw [work_delete] at hp
    rcases single hp with ⟨-, hask⟩ | ⟨a, hl, hdone⟩
    · cases hask
    · cases hdone
      exact .inr (.inr ⟨id, a, rfl, hl, rfl⟩)
  | mutate id p =>
    obtain ⟨d, hd, hw⟩ := updateAt_of_mutate h hn
    obtain rfl := Update.finished_of_done hw.symm
    exact .inl ⟨_, hd⟩
  | cancel id =>
    obtain ⟨d, hd, hw⟩ := updateAt_of_cancel h hn
    obtain rfl := Update.finished_of_done hw.symm
    exact .inl ⟨_, hd⟩

/-! ### What a call asks for -/

/-- What an update decides by. -/
inductive Deciding (b : Binding) : Job → (Task → Option Decision) → Prop where
  | mutate (id : TaskId) (p : Patch) : Deciding b (.mutate id p) (patchDecision p)
  | cancel (id : TaskId) : Deciding b (.cancel id) (cancelDecision b)

/-- What a call asks for. A script writes what was decided on a letter that was read. -/
inductive Asks (f : Mirror) (j : Job) : Command → Prop where
  | look (key : String) : Asks f j (.get key)
  | teach (script : Script) : Asks f j (.load script)
  | swap (w : Swap) (t : Task) (decide : Task → Option Decision) (hj : Deciding f.binding j decide)
      (ht : Task.ofLetter w.raw = some t) (hd : decide t = some w.decision) :
      Asks f j (Update.command f.client j.id w)
  | insert (task : Task) (hj : j = .insert task) :
      Asks f j (.transaction (f.client.insertWrites f.binding task))
  | delete (id : TaskId) (hj : j = .delete id) :
      Asks f j (.transaction [.del (f.keys.letter id), .del (f.keys.mark id)])

theorem asks_of_course {j : Job} (hj : Deciding f.binding j decide)
    {l : List (Exchange Command Command.Answer)} {d : Update}
    (h : Course (Update.Advance f.client j.id decide) (.reading 7) l d)
    {q : Command} {next : q.Answer → Work (Except StoreError Bool)}
    (hq : d.work f.client j.id decide = .ask q next) : Asks f j q := by
  have hs := sound_of_course h
  cases d with
  | reading rounds =>
    cases hq
    exact .look _
  | swapping rounds w taught =>
    obtain ⟨-, t, ht, hd⟩ := hs
    cases taught with
    | false =>
      rw [Update.work_swapping] at hq
      cases hq
      exact .swap w t decide hj ht hd
    | true =>
      cases hq
      exact .swap w t decide hj ht hd
  | teaching rounds w =>
    cases hq
    exact .teach _
  | finished result => cases hq

/-- **A call asks for nothing else**, whatever it is answered. -/
theorem asks_of_path {j : Job} {l : List (Exchange Command Command.Answer)} {q : Command}
    {next : q.Answer → Work j.Result}
    (h : Program.Path (f.client.answer j.call) l (.ask q next)) : Asks f j q := by
  cases j with
  | insert task =>
    have h : Program.Path (f.rules.work (.insert task)) l (.ask q next) := h
    rw [work_insert] at h
    rcases single h with ⟨-, hask⟩ | ⟨a, -, hdone⟩
    · obtain ⟨rfl, -⟩ := Program.ask.inj hask
      exact .insert task rfl
    · cases hdone
  | delete id =>
    have h : Program.Path (f.rules.work (.delete id)) l (.ask q next) := h
    rw [work_delete] at h
    rcases single h with ⟨-, hask⟩ | ⟨a, -, hdone⟩
    · obtain ⟨rfl, -⟩ := Program.ask.inj hask
      exact .delete id rfl
    · cases hdone
  | mutate id p =>
    obtain ⟨d, hd, hw⟩ := Update.course 7 h
    exact asks_of_course (.mutate id p) hd hw.symm
  | cancel id =>
    obtain ⟨d, hd, hw⟩ := Update.course 7 h
    exact asks_of_course (.cancel id) hd hw.symm

end MailQueue.Mirror
