import MailQueue.Proofs.Mirror.Play
import MailQueue.Proofs.Mirror.Rivals

/-!
# A store on a server and a store in memory

Calls that have ended, and what they have done.

* `Moment` is the moment of a record, and `moment` says that each record has one;
* `writesOf_eq` and `writesOf_update` count the writes of a call;
* `last_of_finished` is the last command of an update, and `rivals_of_conflicts` is what an update
  met that gave up;
* `refines` puts all of this together, and `not_refinesAlways` says what it needs of the mails.
-/

namespace MailQueue.Mirror

open Interleaving KeyValue KeyValue.Client

variable {f : Mirror} {m : Memory} {s : State} {x₀ : Shared} {n : Nat}

/-! ### The moment of a record -/

structure Moment (f : Mirror) (x₀ : Shared) (s : State) (pre : List Entry) (e : Entry)
    (t u : State) : Prop where
  run : Run f.rules { shared := x₀ } t
  step : Step f.rules t u
  rest : Run f.rules u s
  before : t.log = pre
  after : u.log = pre ++ [e]
  shared : t.shared = e.before
  asks : ∃ next, t.threads[e.thread]? = some ⟨e.job, .ask e.ask next⟩
  answer : e.answer = (e.before.server.answer e.before.now e.ask).1

variable {pre : List Entry} {e : Entry} {t u : State}

theorem moment (hr : Run f.rules { shared := x₀ } s) {post : List Entry}
    (hlog : s.log = pre ++ e :: post) : ∃ t u, Moment f x₀ s pre e t u := by
  obtain ⟨t, next, x, ht, hpre, hbefore, asks, ⟨ha, hx⟩, hrest⟩ := hr.split hlog
  have hstep : Step f.rules t (t.answered e.thread e.job e.ask e.answer next x) :=
    .answer asks (by rw [hbefore]; exact ⟨ha, hx⟩)
  have hafter : (t.answered e.thread e.job e.ask e.answer next x).log = pre ++ [e] := by
    rw [State.log_answered hbefore, hpre]
  exact ⟨t, _, ht, hstep, hrest, hpre, hafter, hbefore, ⟨next, asks⟩, ha⟩

theorem Durable.of_run {s t : State} (hd : Durable t) (h : Run f.rules s t) : Durable s := by
  intro n j w hn
  obtain ⟨w', hn'⟩ := h.job_stays hn
  exact hd n j w' hn'

namespace Moment

theorem going (h : Moment f x₀ s pre e t u) (hx : f.InStep x₀ m) (hdur : Durable s) :
    Going f m t :=
  Mirror.going hx h.run ((hdur.of_run h.rest).of_step h.step)

theorem inStep (h : Moment f x₀ s pre e t u) (hx : f.InStep x₀ m) (hdur : Durable s) :
    f.InStep e.before (replay m pre) := by
  rw [← h.before, ← h.shared]
  exact (h.going hx hdur).inStep

theorem answered (h : Moment f x₀ s pre e t u) (hx : f.InStep x₀ m) (hdur : Durable s) :
    ∃ y, Answered f e.job e.ask e.answer e.before y (replay m pre) := by
  obtain ⟨next, asks⟩ := h.asks
  refine ⟨{ e.before with server := (e.before.server.answer e.before.now e.ask).2 }, ?_⟩
  rw [h.answer, ← h.before, ← h.shared]
  exact Mirror.answered h.run (h.going hx hdur) asks
    ((hdur.of_run h.rest).of_step h.step _ _ _ asks)

end Moment

/-! ### Counting writes -/

theorem writesOf_eq (hr : Run f.rules { shared := x₀ } s) {j : Job} {w : Work j.Result}
    (hn : s.threads[n]? = some ⟨j, w⟩) :
    writesOf s.log n = (s.past n).countP fun x => writes j x.1 x.2 := by
  rw [State.past, pastIn, List.countP_map, List.countP_filter, writesOf]
  refine List.countP_congr fun e he => ?_
  by_cases hen : e.thread = n
  · subst hen
    obtain rfl := hr.job_eq he hn
    rfl
  · simp [hen]

/-- The writes of an update on its way. -/
def wrote : Update → Nat
  | .finished (.ok true) => 1
  | _ => 0

theorem countP_of_course (j : Job) {c : Client} {id : TaskId} {decide : Task → Option Decision}
    {rounds : Nat} {l : List (Exchange Command Command.Answer)} {d : Update}
    (h : Course (Update.Advance c id decide) (.reading rounds) l d) :
    l.countP (fun x => writes j x.1 x.2) = wrote d := by
  induction h with
  | refl => rfl
  | snoc _ step ih =>
    rw [List.countP_append, ih, List.countP_singleton]
    cases step with
    | looked r found =>
      rw [writes_get]
      rcases found with _ | _ | raw
      · rfl
      · rfl
      · simp only [Update.looked]
        rcases Task.ofLetter raw with _ | t
        · rfl
        · dsimp only
          rcases decide t with _ | decision <;> rfl
    | taught r w answer =>
      rw [writes_load]
      cases answer <;> rfl
    | swapped r w wasTaught result =>
      rw [writes_command]
      cases result with
      | applied k =>
        by_cases hk : k = 1
        · subst hk
          rfl
        · have hne : RunResult.applied k ≠ .applied 1 := fun he => hk (RunResult.applied.inj he)
          rw [decide_eq_false hne]
          simp only [Update.swapped, if_neg hk]
          cases r <;> rfl
      | unknown => cases wasTaught <;> rfl
      | failed => rfl

theorem writesOf_update (hr : Run f.rules { shared := x₀ } s) {j : Job}
    {decide : Task → Option Decision} {d : Update} (hd : UpdateAt f s n j decide d) :
    writesOf s.log n = wrote d := by
  obtain ⟨w, hn⟩ := hd.thread
  rw [writesOf_eq hr hn, countP_of_course j hd.course]

/-! ### Updates that are over -/

theorem last_of_finished (h : f.InStep x₀ m) (hr : Run f.rules { shared := x₀ } s)
    (hdur : Durable s) {j : Job} {decide : Task → Option Decision} {o : Except StoreError Bool}
    (hd : UpdateAt f s n j decide (.finished o)) :
    ∃ pre e post t u d v, s.log = pre ++ e :: post ∧ e.thread = n ∧ (∀ e' ∈ post, e'.thread ≠ n) ∧
      Moment f x₀ s pre e t u ∧ UpdateAt f u n j decide (.finished o) ∧
      Turn f j.id decide e.before d e.ask e.answer (.finished o) v := by
  obtain ⟨w, hn⟩ := hd.thread
  have hcourse := hd.course
  rcases List.eq_nil_or_concat (s.past n) with hnil | ⟨l, ⟨q, a⟩, hl⟩
  · rw [hnil] at hcourse
    cases hcourse.eq_of_nil
  · rw [List.concat_eq_append] at hl
    rw [hl] at hcourse
    obtain ⟨d, hc, step⟩ := hcourse.of_snoc
    obtain ⟨pre, e, post, hlog, rfl, hx, hpast, hpost⟩ := exists_last hl
    obtain ⟨t, u, ht⟩ := moment hr hlog
    have hjob := hr.job_eq (by rw [hlog]; simp) hn
    -- where the update is before its last command, and after it
    have hat : UpdateAt f t e.thread j decide d := by
      obtain ⟨next, asks⟩ := ht.asks
      refine ⟨hd.decides, ?_, ?_⟩
      · subst hjob
        exact ⟨_, asks⟩
      · rw [State.past, ht.before, hpast]
        exact hc
    have hover : UpdateAt f u e.thread j decide (.finished o) := by
      obtain ⟨next, asks⟩ := ht.asks
      refine ⟨hd.decides, hjob ▸ ht.step.job_stays asks, ?_⟩
      rw [State.past, ht.after, ← pastIn_append_of_forall_ne _ hpost, List.append_assoc,
        List.singleton_append, ← hlog]
      exact hd.course
    have hknown := (ht.going h hdur).known _ _ _ _ hat
    rw [ht.shared] at hknown
    have hstep : Update.Advance f.client j.id decide d e.ask e.answer (.finished o) := by
      obtain ⟨k, j', q', a', x⟩ := e
      cases hx
      exact step
    exact ⟨pre, e, post, t, u, d, _, hlog, rfl, hpost, ht, hover,
      turn (ht.inStep h hdur) (sound_of_course hc) hknown hstep ht.answer⟩

/-- An update that gives up has met as many writes of others as it had rounds. -/
theorem rivals_of_conflicts (h : f.InStep x₀ m) (hr : Run f.rules { shared := x₀ } s)
    (hdur : Durable s) {j : Job} {decide : Task → Option Decision} {id : TaskId} {rounds : Nat}
    (hd : UpdateAt f s n j decide (.finished (.error (.conflicts id rounds)))) :
    maxRounds ≤ rivals n j.id (span n s.log) := by
  obtain ⟨pre, e, post, t, u, d, v, hlog, rfl, hpost, ht, hover, -⟩ := last_of_finished h hr hdur hd
  -- Just after the last command, where no later write of another call counts yet.
  have hle := losses_le_rivals h (ht.run.snoc ht.step) (hdur.of_run ht.rest) hover
  rw [ht.after] at hle
  rw [hlog, span_eq_since rfl hpost]
  exact hle

theorem refused_of_turn {x : Shared} {j : Job} {decide : Task → Option Decision} {d : Update}
    {q : Command} {a : q.Answer} {v : Server} (h : f.InStep x m)
    (hd : Decides f.binding j decide) (ht : Turn f j.id decide x d q a (.finished (.ok false)) v) :
    q = .get (f.keys.letter j.id) ∧ j.said (m.answer j.call).1 = .ok false := by
  have hl := h.mirrors.letters j.id
  rw [h.get?_letter] at hl
  generalize he : Update.finished (.ok false) = e at ht
  cases ht with
  | gone rounds hraw =>
    rw [hraw] at hl
    exact ⟨rfl, hd.gone m h.binding (Option.map_eq_none_iff.1 hl.symm)⟩
  | left rounds raw t hraw ht hdec =>
    rw [hraw, Option.map_some, ht] at hl
    obtain ⟨u, hu, hut⟩ := Option.map_eq_some_iff.1 hl.symm
    obtain rfl := Option.some.inj hut
    exact ⟨rfl, hd.left m u h.binding hu hdec⟩
  | read | unknown | taught => cases he
  | lost rounds => cases rounds <;> cases he
  | won => cases he

theorem conflicts_of_turn {x : Shared} {id : TaskId} {decide : Task → Option Decision} {d : Update}
    {q : Command} {a : q.Answer} {v : Server} {e : StoreError}
    (ht : Turn f id decide x d q a (.finished (.error e)) v) : e = .conflicts id maxRounds := by
  generalize ho : Update.finished (.error e) = o at ht
  cases ht with
  | lost rounds =>
    cases rounds with
    | zero => exact Except.error.inj (Update.finished.inj ho)
    | succ rounds => cases ho
  | gone | left | read | unknown | taught | won => cases ho

/-! ### Calls of one command that are over -/

theorem last_of_single (hr : Run f.rules { shared := x₀ } s) {j : Job} {w : Work j.Result}
    (hn : s.threads[n]? = some ⟨j, w⟩) {q : Command} {a : q.Answer} (hpast : s.past n = [⟨q, a⟩]) :
    ∃ pre x post t u, s.log = pre ++ ⟨n, j, q, a, x⟩ :: post ∧ (∀ e' ∈ post, e'.thread ≠ n) ∧
      Moment f x₀ s pre ⟨n, j, q, a, x⟩ t u := by
  obtain ⟨pre, ⟨k, j', q', a', x⟩, post, hlog, rfl, hx, -, hpost⟩ :=
    exists_last (l := []) hpast
  obtain ⟨t, u, ht⟩ := moment hr hlog
  obtain rfl : j' = j := hr.job_eq (by rw [hlog]; simp) hn
  cases hx
  exact ⟨pre, x, post, t, u, hlog, hpost, ht⟩

theorem writesOf_single (hr : Run f.rules { shared := x₀ } s) {j : Job} {w : Work j.Result}
    (hn : s.threads[n]? = some ⟨j, w⟩) {q : Command} {a : q.Answer} (hpast : s.past n = [⟨q, a⟩]) :
    writesOf s.log n = if writes j q a then 1 else 0 := by
  rw [writesOf_eq hr hn, hpast, List.countP_singleton]

/-- The transaction of an insertion is refused in part when its pointer is due before the epoch. -/
theorem insertWrites_refused {v : Server} {now : Int} {c : Client} {b : Binding} {task : Task}
    (h : (Server.writeAll now v (c.insertWrites b task)).1.mapM id = none) :
    b.concatEnabled = true ∧ pointerExpiry task ≤ 0 := by
  cases hb : b.concatEnabled with
  | false =>
    rw [insertWrites, hb] at h
    cases h
  | true =>
    by_cases hle : pointerExpiry task ≤ 0
    · exact ⟨rfl, hle⟩
    · rw [insertWrites, hb] at h
      simp only [if_true, List.cons_append, List.nil_append, Server.writeAll, Server.write,
        if_neg hle] at h
      cases h

/-! ### Calls that are over -/

/-- How a call can end. -/
inductive Ended (f : Mirror) (m : Memory) (s : State) (n : Nat) (j : Job) :
    Except StoreError Bool → Prop where
  | wrote (hw : writesOf s.log n = 1) : Ended f m s n j (.ok true)
  | refused (hw : writesOf s.log n = 0) {pre post : List Entry} {e : Entry}
      (hlog : s.log = pre ++ e :: post) (hn : e.thread = n) (hpost : ∀ e' ∈ post, e'.thread ≠ n)
      (hask : e.ask = .get (f.keys.letter j.id) ∨ j = .delete j.id ∧ ∃ ws, e.ask = .transaction ws)
      (hsaid : j.said ((replay m pre).answer j.call).1 = .ok false) : Ended f m s n j (.ok false)
  | gaveUp (hw : writesOf s.log n = 0) (hr : maxRounds ≤ rivals n j.id (span n s.log)) :
      Ended f m s n j (.error (.conflicts j.id maxRounds))
  | late (task : Task) (hj : j = .insert task) (hw : writesOf s.log n = 1)
      (hb : f.binding.concatEnabled = true) (hp : pointerExpiry task ≤ 0) :
      Ended f m s n j (.error serverError)

theorem ended_update (h : f.InStep x₀ m) (hr : Run f.rules { shared := x₀ } s) (hdur : Durable s)
    {j : Job} {decide : Task → Option Decision} {o : Except StoreError Bool}
    (hd : UpdateAt f s n j decide (.finished o)) : Ended f m s n j o := by
  have hw := writesOf_update hr hd
  obtain ⟨pre, e, post, t, u, d, v, hlog, hn, hpost, ht, -, hturn⟩ := last_of_finished h hr hdur hd
  rcases o with e' | _ | _
  · obtain rfl := conflicts_of_turn hturn
    exact .gaveUp hw (rivals_of_conflicts h hr hdur hd)
  · obtain ⟨hask, hsaid⟩ := refused_of_turn (ht.inStep h hdur) hd.decides hturn
    exact .refused hw hlog hn hpost (.inl hask) hsaid
  · exact .wrote hw

theorem ended_insert (h : f.InStep x₀ m) (hr : Run f.rules { shared := x₀ } s) (hdur : Durable s)
    {task : Task} {w : Work (Job.insert task).Result}
    (hn : s.threads[n]? = some ⟨.insert task, w⟩) {a : Option (List Nat)}
    (hpast : s.past n = [⟨.transaction (f.client.insertWrites f.binding task), a⟩]) :
    Ended f m s n (.insert task) ((insertResult a).map fun _ => true) := by
  have hw : writesOf s.log n = 1 := writesOf_single hr hn hpast
  cases a with
  | some ks => exact .wrote hw
  | none =>
    obtain ⟨pre, x, post, t, u, hlog, hpost, ht⟩ := last_of_single hr hn hpast
    have ha := ht.answer
    rw [(ht.inStep h hdur).calm.answer_transaction] at ha
    obtain ⟨hb, hp⟩ := insertWrites_refused ha.symm
    exact .late task rfl hw hb hp

theorem ended_delete (h : f.InStep x₀ m) (hr : Run f.rules { shared := x₀ } s) (hdur : Durable s)
    {id : TaskId} {w : Work (Job.delete id).Result} (hn : s.threads[n]? = some ⟨.delete id, w⟩)
    {a : Option (List Nat)}
    (hpast : s.past n = [⟨.transaction [.del (f.keys.letter id), .del (f.keys.mark id)], a⟩]) :
    Ended f m s n (.delete id) (deleteResult a) := by
  have hw := writesOf_single hr hn hpast
  obtain ⟨pre, x, post, t, u, hlog, hpost, ht⟩ := last_of_single hr hn hpast
  have hx : f.InStep x (replay m pre) := ht.inStep h hdur
  have ha : a = (x.server.answer x.now
      (.transaction [.del (f.keys.letter id), .del (f.keys.mark id)])).1 := ht.answer
  rw [answer_delete hx.calm, hx.removed] at ha
  have hsaid : (Job.delete id).said ((replay m pre).answer (.delete id)).1 =
      .ok ((replay m pre).get? id).isSome := rfl
  cases hm : ((replay m pre).get? id).isSome with
  | true =>
    rw [hm, if_pos rfl] at ha
    subst ha
    exact .wrote hw
  | false =>
    rw [hm, if_neg Bool.false_ne_true] at ha
    subst ha
    rw [hm] at hsaid
    exact .refused hw hlog rfl hpost (.inr ⟨rfl, _, rfl⟩) hsaid

theorem ended (h : f.InStep x₀ m) (hr : Run f.rules { shared := x₀ } s) (hdur : Durable s)
    {j : Job} {r : j.Result} (hn : s.threads[n]? = some ⟨j, .done r⟩) :
    Ended f m s n j (j.said r) := by
  rcases view_of_done hr hn with ⟨decide, hd⟩ | ⟨task, a, rfl, hpast, hsaid⟩ |
    ⟨id, a, rfl, hpast, hsaid⟩
  · exact ended_update h hr hdur hd
  · rw [hsaid]
    exact ended_insert h hr hdur hn hpast
  · rw [hsaid]
    exact ended_delete h hr hdur hn hpast

/-! ### The refinement -/

/-- **A store on a server refines the store in memory**, whatever calls run beside each other and
in whatever order their commands are answered, as long as what they hand over is given back by its
letter. -/
theorem refines (h : f.InStep x₀ m) (hr : Run f.rules { shared := x₀ } s) (hdur : Durable s) :
    f.Refines m s where
  mirrors := (going h hr hdur).inStep.mirrors
  applied pre e post hlog hw := by
    obtain ⟨t, u, ht⟩ := moment hr hlog
    obtain ⟨y, hy⟩ := ht.answered h hdur
    cases hy with
    | wrote _ hsaid => exact hsaid
    | quiet hquiet =>
      have hfalse := hw.symm.trans hquiet
      cases hfalse
  wrote n j r hn hsaid := by
    have hended := ended h hr hdur hn
    rw [hsaid] at hended
    cases hended with
    | wrote hw => exact hw
  refused n j r hn hsaid := by
    have hended := ended h hr hdur hn
    rw [hsaid] at hended
    cases hended with
    | refused hw hlog hn hpost hask hsaid => exact ⟨hw, _, _, _, hlog, hn, hpost, hask, hsaid⟩
  gaveUp n j r id rounds hn hsaid := by
    have hended := ended h hr hdur hn
    rw [hsaid] at hended
    cases hended with
    | gaveUp hw hrivals => exact ⟨hw, rfl, hrivals⟩
  failed n j r e hn hsaid := by
    have hended := ended h hr hdur hn
    rw [hsaid] at hended
    cases hended with
    | gaveUp => exact .inl rfl
    | late task hj hw hb hp => exact .inr ⟨task, hj, hb, hp, hw⟩

/-- A store that keeps no finished tasks. -/
def sample : Mirror := ⟨⟨"default"⟩, ⟨60, false, false⟩⟩

def taskOf (m : Mail) : Task := Task.new (.ofNat 1) m .epoch

theorem plain_taskOf {m : Mail} (h : m.Plain) : (Job.insert (taskOf m)).Plain := by
  refine ⟨rfl, rfl, Nat.zero_lt_succ _, fun m' hm => ?_⟩
  obtain rfl := List.mem_singleton.1 hm
  exact h

/-- Two cancellations read a letter. The first one makes its script known and removes the letter,
the other one loses a round and finds nothing. -/
def race : List Move :=
  [.start (.insert (taskOf (Mail.new (.one "a@x")))), .reply 0, .start (.cancel (.ofNat 1)),
    .start (.cancel (.ofNat 1)), .reply 1, .reply 2, .reply 1, .reply 1, .reply 1, .reply 2,
    .reply 2]

theorem refines_race : ∃ s, Run sample.rules { shared := .fresh 0 } s ∧
    s.log.map writesAt = [true, false, false, false, false, true, false, false] ∧
    sample.Refines { binding := some sample.binding } s := by
  have hlog : (sample.playAll { shared := .fresh 0 } race).log.map writesAt =
      [true, false, false, false, false, true, false, false] := by decide +kernel
  have hjobs : jobs race = [.insert (taskOf (Mail.new (.one "a@x"))), .cancel (.ofNat 1),
      .cancel (.ofNat 1)] := rfl
  have hrun : Run sample.rules { shared := .fresh 0 }
      (sample.playAll { shared := .fresh 0 } race) := by
    refine run_of_playAll ?_ (by decide)
    rw [hjobs]
    simp only [List.forall_mem_cons]
    exact ⟨plain_taskOf ⟨fun e he => absurd he List.not_mem_nil, trivial⟩, trivial, trivial,
      fun j hj => absurd hj List.not_mem_nil⟩
  have hdur : Durable (sample.playAll { shared := .fresh 0 } race) := by
    refine durable_of_playAll ?_ fun n j w hn => by simp at hn
    rw [hjobs]
    simp only [List.forall_mem_cons]
    refine ⟨fun m hm => ?_, trivial, trivial, fun j hj => absurd hj List.not_mem_nil⟩
    obtain rfl := List.mem_singleton.1 hm
    exact ⟨trivial, by decide⟩
  exact ⟨_, hrun, hlog, refines (inStep_fresh sample 0) hrun hdur⟩

/-- A store on a server would refine the store in memory whatever the mails carry. -/
def RefinesAlways : Prop :=
  ∀ (f : Mirror) (now : Int) (s : State), Run f.rules { shared := .fresh now } s →
    f.Refines { binding := some f.binding } s

def weighing (x : Float) : Task := taskOf ((Mail.new (.one "a@x")).field "x" (.float x))

/-- The numbers of the further fields, bit by bit. -/
def weights (t : Task) : List UInt64 :=
  t.fragments.filterMap fun m => match m.extra.get? "x" with
    | some (.float x) => some x.toBits
    | _ => none

/-- The reader of a letter rounds more than once: this number is read back as its neighbour. -/
theorem not_refinesAlways : ¬RefinesAlways := by
  intro h
  have hmail : ((Mail.new (.one "a@x")).field "x" (.float 2.4e24)).Plain := by
    refine ⟨fun e he => ?_, ?_, trivial⟩
    · obtain rfl := List.mem_singleton.1 he
      decide
    · show (2.4e24 : Float).isFinite = true
      decide +kernel
  have hrun : Run sample.rules { shared := .fresh 0 }
      (sample.playAll { shared := .fresh 0 } [.start (.insert (weighing 2.4e24)), .reply 0]) := by
    refine run_of_playAll (fun j hj => ?_) (by decide)
    obtain rfl := List.mem_singleton.1 hj
    exact plain_taskOf hmail
  have hletters : some (Task.ofLetter (weighing 2.4e24).letter) = some (some (weighing 2.4e24)) :=
    (h sample 0 _ hrun).mirrors.letters (.ofNat 1)
  have hweights : (Task.ofLetter (weighing 2.4e24).letter).map weights ≠
      some (weights (weighing 2.4e24)) := by decide +kernel
  rw [Option.some.inj hletters] at hweights
  exact hweights rfl

end MailQueue.Mirror
