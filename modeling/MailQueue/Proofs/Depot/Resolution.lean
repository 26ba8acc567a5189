import MailQueue.Proofs.Depot.Invariant
import MailQueue.Proofs.Depot.Play
import MailQueue.Proofs.Mirror.Invariant

/-!
# Resolving a task that is held

The letter of a task that is held stays as it was read, so the update that resolves the task finds
it so when it compares.

* `FirstRound` says how far such an update can be in its first round, and `firstRound_answered` that
  one command leads on in that round;
* `Settling` says it of every update and removal that resolves a task, and `settling` that runs go
  on so as long as letters can be decoded;
* `leftAlone` is what it all comes to.
-/

namespace MailQueue.Depot

open KeyValue KeyValue.Client Interleaving
open Mirror (Known)

variable {d : Depot} {s : State} {x₀ : Shared} {n m : Nat} {id : TaskId}

/-! ### The first round -/

/-- How far an update has come in its first round, with the letter as it is. -/
def FirstRound (letter : Option String)
    (commands : List (MailQueue.Exchange Command Command.Answer)) : Update → Prop
  | .reading _ => commands = []
  | .swapping _ w false => letter = some w.raw ∧ commands.countP reads = 1 ∧ commands.length = 1
  | .teaching _ w => letter = some w.raw ∧ commands.countP reads = 1 ∧ commands.length = 2
  | .swapping _ w true => letter = some w.raw ∧ commands.countP reads = 1 ∧ commands.length = 3
  | .finished result => result = .ok true ∧ commands.countP reads = 1

/-- An update that is still to run its script keeps to the first round as long as the letter
stays. -/
theorem FirstRound.congr {letter letter' : Option String}
    {commands : List (MailQueue.Exchange Command Command.Answer)} {u : Update}
    (h : FirstRound letter commands u)
    (hl : (∃ raw, letter = some raw) → (∀ r, u ≠ .finished r) → letter' = letter) :
    FirstRound letter' commands u := by
  cases u with
  | reading => exact h
  | finished => exact h
  | teaching r w => exact ⟨(hl ⟨_, h.1⟩ (by simp)).trans h.1, h.2⟩
  | swapping r w taught =>
    cases taught <;> exact ⟨(hl ⟨_, h.1⟩ (by simp)).trans h.1, h.2⟩

theorem countP_reads (commands : List (MailQueue.Exchange Command Command.Answer))
    {x : MailQueue.Exchange Command Command.Answer} (h : reads x = false) :
    (commands ++ [x]).countP reads = commands.countP reads := by
  simp [h]

section Server

variable {v : Server} {commands : List (MailQueue.Exchange Command Command.Answer)} {p : Patch}

/-- A letter that can be decoded is going to be replaced, as the patch asks for nothing. -/
theorem looked_eq (hp : p.guard = none) (rounds : Nat) {raw : String} {t : Task}
    (ht : Task.ofLetter raw = some t) :
    Update.looked (patchDecision p) rounds (some (some raw)) =
      .swapping rounds ⟨raw, .replace (p.apply t)⟩ false := by
  have hdecision : patchDecision p t = some (.replace (p.apply t)) := by
    simp only [patchDecision, Patch.applied?, Patch.guardHolds, hp, if_true, Option.map_some]
  simp only [Update.looked, ht, hdecision]

/-- The script finds the letter as it was read, if the server knows the script. -/
theorem firstRound_swapped (hc : v.Calm) (hl : v.Lasting (d.keys.letter id)) (now : Int)
    {rounds : Nat} {w : Swap} {taught : Bool} (hk : Known v.known (.swapping rounds w taught))
    (hf : FirstRound (v.text? (d.keys.letter id)) commands (.swapping rounds w taught)) :
    Known (v.answer now (Update.command d.client id w)).2.known
        (Update.swapped id rounds w taught (v.answer now (Update.command d.client id w)).1) ∧
      FirstRound ((v.answer now (Update.command d.client id w)).2.text? (d.keys.letter id))
        (commands ++ [⟨_, (v.answer now (Update.command d.client id w)).1⟩])
        (Update.swapped id rounds w taught (v.answer now (Update.command d.client id w)).1) := by
  have hletter : v.text? (d.keys.letter id) = some w.raw := by cases taught <;> exact hf.1
  have hcount : ∀ x : MailQueue.Exchange Command Command.Answer, reads x = false →
      (commands ++ [x]).countP reads = 1 :=
    fun _ hx => (countP_reads commands hx).trans (by cases taught <;> exact hf.2.1)
  by_cases hkn : w.decision.script ∈ v.known
  · have hmatch : v.get? now (d.client.keys.letter id) = some w.raw :=
      (Server.get?_of_lasting hl now).trans hletter
    have hans : v.answer now (Update.command d.client id w) = _ := hc.answer_run hkn
    rw [hans, Server.runScript_applied hmatch]
    exact ⟨trivial, rfl, hcount _ rfl⟩
  · have hans : v.answer now (Update.command d.client id w) = _ := hc.answer_run_of_unknown hkn
    rw [hans]
    cases taught with
    | true => exact absurd hk hkn
    | false => exact ⟨trivial, hletter, hcount _ rfl, by simp [hf.2.2]⟩

/-- One command of the update leads on, if nobody else comes in between. -/
theorem firstRound_answered (hc : v.Calm) (hl : v.Lasting (d.keys.letter id)) (now : Int)
    (hheld : ∃ raw, v.text? (d.keys.letter id) = some raw) (hp : p.guard = none) {c : Command}
    {u u' : Update} (hk : Known v.known u)
    (hf : FirstRound (v.text? (d.keys.letter id)) commands u)
    (hdec : ∀ raw, (⟨c, (v.answer now c).1⟩ : MailQueue.Exchange Command Command.Answer) =
      ⟨.get (d.keys.letter id), some (some raw)⟩ → (Task.ofLetter raw).isSome)
    (step : Update.Advance d.client id (patchDecision p) u c (v.answer now c).1 u') :
    Known (v.answer now c).2.known u' ∧
      FirstRound ((v.answer now c).2.text? (d.keys.letter id))
        (commands ++ [⟨c, (v.answer now c).1⟩]) u' := by
  generalize ha : (v.answer now c).1 = a at hdec step ⊢
  cases step with
  | looked rounds found =>
    obtain ⟨raw, hraw⟩ := hheld
    have hfound : found = some (some raw) := by
      rw [← ha, hc.answer_get]
      exact congrArg some ((Server.get?_of_lasting hl now).trans hraw)
    obtain ⟨t, ht⟩ := Option.isSome_iff_exists.1 (hdec raw (by rw [hfound]; rfl))
    obtain rfl : commands = [] := hf
    rw [hc.answer_get, hfound, looked_eq hp rounds ht]
    exact ⟨trivial, hraw, rfl, rfl⟩
  | taught rounds w answer =>
    obtain ⟨hletter, hcount, hlength⟩ := hf
    have hanswer : answer = some () := by rw [← ha, hc.answer_load]
    rw [hc.answer_load, hanswer]
    exact ⟨List.mem_cons_self, hletter, (countP_reads _ rfl).trans hcount, by simp [hlength]⟩
  | swapped rounds w taught result =>
    rw [← ha]
    exact firstRound_swapped hc hl now hk hf

end Server

/-! ### Every resolution -/

/-- What holds of the calls that resolve tasks at every moment. -/
structure Settling (d : Depot) (s : State) : Prop where
  updates : ∀ n id p rest, At d s n (.mutate id p) rest → p.guard = none →
    ∃ u, u.work d.client id (patchDecision p) = rest ∧ Known s.shared.server.known u ∧
      FirstRound (s.shared.server.text? (d.keys.letter id)) (underWay (s.past n)) u
  removes : ∀ n id rest, At d s n (.delete id) rest →
    underWay (s.past n) = [] ∧ rest = d.client.answer (.delete id) ∨ rest = .done (.ok true)

section Step

variable {j : Job} {q : Ask} {a : q.Answer} {next : q.Answer → Work j.Result} {y : Shared}
  {call : Store.Call} {rest : KeyValue.Work call.Answer}

/-- A call is as it was, or one of its commands was answered, or it has just been entered. -/
theorem at_answered (asks : s.threads[n]? = some ⟨j, .ask q next⟩)
    (h : At d (s.answered n j q a next y) m call rest) :
    (n ≠ m ∧ At d s m call rest) ∨
      (n = m ∧ ∃ c rest₀ a', (⟨q, a⟩ : Exchange) = ⟨.command call c, a'⟩ ∧
        At d s m call (.ask c rest₀) ∧ rest = rest₀ a') ∨
      underWay ((s.answered n j q a next y).past m) = [] ∧ rest = d.client.answer call := by
  obtain ⟨j', w, k, hm, hst⟩ := h
  obtain ⟨w', hm'⟩ := job_of_answered asks hm
  rcases eq_or_ne n m with rfl | hne
  · rw [past_answered_self] at hst ⊢
    obtain ⟨st, hold, step⟩ := hst.of_snoc
    generalize hnew : Stage.calling call k rest = new at step
    cases step with
    | own q' hq k' a' =>
      exact .inr (.inr ⟨underWay_own _ _ _, Stage.rest_of_enter hnew.symm⟩)
    | returned call' k' answer a' =>
      exact .inr (.inr ⟨underWay_returned _ _ _ _, Stage.rest_of_enter hnew.symm⟩)
    | command call' k' c rest' a' =>
      cases hnew
      exact .inr (.inl ⟨rfl, c, rest', a', rfl, ⟨j', w', k, hm', hold⟩, rfl⟩)
  · rw [past_answered_of_ne hne] at hst ⊢
    exact .inl ⟨hne, j', w', k, hm', hst⟩

theorem at_started (hr : Run d.rules { shared := x₀ } s) {x : Shared}
    (h : At d (s.started d.rules j x) m call rest) :
    At d s m call rest ∨ underWay (s.past m) = [] ∧ rest = d.client.answer call := by
  obtain ⟨j', w, k, hm, hst⟩ := h
  rw [past_started] at hst
  rcases getElem?_started hm with ⟨-, hm⟩ | ⟨rfl, -⟩
  · exact .inl ⟨j', w, k, hm, hst⟩
  · rw [hr.past_eq_nil (Nat.le_refl _)] at hst ⊢
    exact .inr ⟨rfl, Stage.rest_of_enter hst.eq_of_nil.symm⟩

theorem firstRound_entered {p : Patch} {known : List Script} {letter : Option String}
    {commands : List (MailQueue.Exchange Command Command.Answer)}
    {rest : KeyValue.Work (Except StoreError Bool)} (hc : commands = [])
    (hrest : rest = d.client.answer (.mutate id p)) :
    ∃ u : Update, u.work d.client id (patchDecision p) = rest ∧ Known known u ∧
      FirstRound letter commands u :=
  ⟨.reading 7, hrest.symm, trivial, hc⟩

theorem known_answers {i : Nat} (hc : s.shared.server.Calm)
    (hx : d.Answers i s.shared q a y) : s.shared.server.known ⊆ y.server.known := by
  cases hx with
  | command call c =>
    rw [hc.known_answer]
    cases c with
    | load script => exact List.subset_cons_self _ _
    | get | scan | run | transaction | ping => exact List.Subset.refl _
  | _ => exact List.Subset.refl _

/-- The letter of a task that is about to be resolved is left to who resolves it. -/
theorem text_of_ne (g : Going d s) (h : Answered d s n ⟨q, a⟩ y) (hne : n ≠ m)
    (hm : Holds id (s.past m)) :
    y.server.text? (d.keys.letter id) = s.shared.server.text? (d.keys.letter id) := by
  rcases h.text id with he | ⟨call, c, rest, a', o, -, -, hat, why, -⟩
  · exact he
  · exact absurd (g.eq_of_reason hat why hm) hne

/-- One answer to an update that resolves a task leads on in the first round. -/
theorem Settling.update (σ : Settling d s) (g : Going d s) {p : Patch} (hp : p.guard = none)
    {c : Command} {rest : c.Answer → KeyValue.Work (Except StoreError Bool)}
    (hat : At d s n (.mutate id p) (.ask c rest)) {i : Nat} {a : c.Answer}
    (hx : d.Answers i s.shared (.command (.mutate id p) c) a y)
    (hdec : ∀ raw, (⟨c, a⟩ : MailQueue.Exchange Command Command.Answer) =
      ⟨.get (d.keys.letter id), some (some raw)⟩ → (Task.ofLetter raw).isSome) :
    ∃ u : Update, u.work d.client id (patchDecision p) = rest a ∧ Known y.server.known u ∧
      FirstRound (y.server.text? (d.keys.letter id)) (underWay (s.past n) ++ [⟨c, a⟩]) u := by
  obtain ⟨u, hu, hk, hf⟩ := σ.updates n id p _ hat hp
  obtain ⟨raw, hraw, -⟩ := g.held n id (hat.holds (by simp [resolved?, hp]))
  obtain ⟨u', step, hw⟩ := Update.follow hu a
  cases hx with
  | command =>
    exact ⟨u', hw.symm,
      firstRound_answered g.calm (g.lasting id).1 s.shared.now ⟨raw, hraw⟩ hp hk hf hdec step⟩
  | scan =>
    -- an update lists no keys
    cases step

theorem Settling.remove (σ : Settling d s) (g : Going d s) {c : Command}
    {rest : c.Answer → KeyValue.Work (Except StoreError Bool)}
    (hat : At d s n (.delete id) (.ask c rest)) {i : Nat} {a : c.Answer}
    (hx : d.Answers i s.shared (.command (.delete id) c) a y) : rest a = .done (.ok true) := by
  rcases σ.removes n id _ hat with ⟨-, hrest⟩ | hrest
  · obtain ⟨raw, hraw, -⟩ := g.held n id (hat.holds rfl)
    have hget : s.shared.server.get? s.shared.now (d.keys.letter id) = some raw :=
      (Server.get?_of_lasting (g.lasting id).1 _).trans hraw
    rw [answer_delete] at hrest
    obtain ⟨rfl, hrest⟩ := Program.ask.inj hrest
    obtain rfl := eq_of_heq hrest
    cases hx with
    | command =>
      refine congrArg Program.done ?_
      rw [g.calm.answer_transaction]
      show (Except.ok (decide (0 < (s.shared.server.del _ (d.keys.letter id)).1)) :
        Except StoreError Bool) = _
      rw [Server.del, hget]
      rfl
  · cases hrest

/-- One answer keeps what holds of the resolutions. -/
theorem Settling.answer (σ : Settling d s) (g : Going d s) (hr : Run d.rules { shared := x₀ } s)
    (asks : s.threads[n]? = some ⟨j, .ask q next⟩) (hx : d.rules.answers j q s.shared a y)
    (hdec : Decodable d (s.answered n j q a next y).log) :
    Settling d (s.answered n j q a next y) where
  updates m id p rest hat hp := by
    rcases at_answered asks hat with ⟨hne, hold⟩ | ⟨rfl, c, rest₀, a', he, hold, rfl⟩ | ⟨hu, hrest⟩
    · obtain ⟨u, hu, hk, hf⟩ := σ.updates m id p rest hold hp
      refine ⟨u, hu, Mirror.known_mono hk (known_answers g.calm hx), ?_⟩
      rw [past_answered_of_ne hne]
      refine hf.congr fun _ hgoing => ?_
      -- the call has a command left, so its job holds the task
      have hmore : ∃ c k, rest = .ask c k := by
        cases hw : rest with
        | ask c k => exact ⟨c, k, rfl⟩
        | done r => exact absurd (Update.finished_of_done (hu.trans hw)) (hgoing r)
      obtain ⟨c, k, rfl⟩ := hmore
      exact text_of_ne g (answered hr g asks hx) hne (hold.holds (by simp [resolved?, hp]))
    · cases he
      rw [past_answered_self, underWay_command]
      refine σ.update g hp hold hx fun raw he => ?_
      obtain ⟨rfl, he⟩ := Sigma.mk.inj he
      obtain rfl := eq_of_heq he
      exact hdec ⟨n, j, _, _, s.shared⟩ (List.mem_append_right _ (List.mem_singleton_self _)) _ id
        raw rfl
    · exact firstRound_entered hu hrest
  removes m id rest hat := by
    rcases at_answered asks hat with ⟨hne, hold⟩ | ⟨rfl, c, rest₀, a', he, hold, rfl⟩ | ⟨hu, hrest⟩
    · rw [past_answered_of_ne hne]
      exact σ.removes m id rest hold
    · cases he
      exact .inr (σ.remove g hold hx)
    · exact .inl ⟨hu, hrest⟩

end Step

theorem Decodable.mono {l l' : List Entry} (h : Decodable d l') (hl : l ⊆ l') : Decodable d l :=
  fun e he => h e (hl he)

theorem Decodable.before {log pre post : List Entry} {e : Entry} (h : Decodable d log)
    (hlog : log = pre ++ e :: post) : Decodable d pre :=
  h.mono (hlog ▸ List.subset_append_left _ _)

/-- **Resolutions go on so.** -/
theorem settling (h : d.Opens x₀) (hr : Run d.rules { shared := x₀ } s) (hd : Decodable d s.log) :
    Settling d s := by
  refine hr.keeps (P := fun s => Decodable d s.log → Settling d s) (fun _ => ?_)
    (fun hr ih step hd => ?_) hd
  · constructor
    · rintro n id p rest ⟨j, w, k, hn, -⟩
      simp at hn
    · rintro n id rest ⟨j, w, k, hn, -⟩
      simp at hn
  · have σ := ih (hd.mono step.log_grows.subset)
    cases step with
    | move hx =>
      obtain ⟨now, rfl⟩ := hx
      exact ⟨σ.updates, σ.removes⟩
    | start hx =>
      obtain ⟨rfl, -⟩ := hx
      constructor
      · intro m id p rest hat hp
        rcases at_started hr hat with hold | ⟨hu, hrest⟩
        · exact σ.updates m id p rest hold hp
        · exact firstRound_entered hu hrest
      · intro m id rest hat
        rcases at_started hr hat with hold | ⟨hu, hrest⟩
        · exact σ.removes m id rest hold
        · exact .inl ⟨hu, hrest⟩
    | answer asks hx => exact σ.answer (going h hr) hr asks hx hd

/-! ### What it comes to -/

section Log

variable {j : Job} {call : Store.Call} {y : Shared}

/-- Who does not hold a task writes neither its letter nor its mark. -/
theorem spares (hr : Run d.rules { shared := x₀ } s) (g : Going d s) {c : Command} {a : c.Answer}
    {next : c.Answer → Work j.Result} (asks : s.threads[n]? = some ⟨j, .ask (.command call c) next⟩)
    (hx : d.Answers j.queue s.shared (.command call c) a y) (hm : Holds id (s.past m))
    (hne : n ≠ m) {key : String} (hkey : key = d.keys.letter id ∨ key = d.keys.mark id) :
    (key ∈ keysOf c → wrote c a = false) ∧
      (s.shared.server.answer s.shared.now c).2.get? s.shared.now key =
        s.shared.server.get? s.shared.now key := by
  obtain ⟨rest, hat⟩ := (at_of_asks hr asks).1 call c rfl
  have hlasting : s.shared.server.Lasting key := by
    rcases hkey with rfl | rfl
    · exact (g.lasting id).1
    · exact (g.lasting id).2
  cases effect g.calm g.lasting hat.sends s.shared.now with
  | quiet hw he =>
    refine ⟨fun _ => ?_, by simp only [Server.get?, he]⟩
    cases hx with
    | scan => rfl
    | command => exact hw
  | @rewrites id' o mark hw why hrw hk =>
    have hid : id' ≠ id := by
      rintro rfl
      exact hne (g.eq_of_reason hat why hm)
    refine ⟨fun hmem => ?_, ?_⟩
    · rcases hkey with rfl | rfl
      · exact absurd (hk id (.inl hmem)).symm hid
      · exact absurd (hk id (.inr hmem)).symm hid
    · have hlasting' : (s.shared.server.answer s.shared.now c).2.Lasting key := by
        rcases hkey with rfl | rfl
        · exact (hrw.lasting id).1
        · exact (hrw.lasting id).2
      rw [Server.get?_of_lasting hlasting', Server.get?_of_lasting hlasting]
      rcases hkey with rfl | rfl
      · exact (hrw.letters id).trans (if_neg hid)
      · exact (hrw.marks id).trans (if_neg hid)

/-- An update that is still to send a command has sent three at most. -/
theorem FirstRound.length_lt {letter : Option String}
    {commands : List (MailQueue.Exchange Command Command.Answer)} {u : Update} {id : TaskId}
    {decide : Task → Option Decision} {c : Command}
    {rest : c.Answer → KeyValue.Work (Except StoreError Bool)} (h : FirstRound letter commands u)
    (hu : u.work d.client id decide = .ask c rest) : commands.length < 4 := by
  cases u with
  | reading =>
    obtain rfl : commands = [] := h
    exact Nat.zero_lt_succ 3
  | swapping r w taught => cases taught <;> simp [h.2.2]
  | teaching r w => simp [h.2.2]
  | finished r => cases hu

theorem Settling.length_lt (σ : Settling d s) (hcall : resolved? call = some id) {c : Command}
    {rest : c.Answer → KeyValue.Work call.Answer} (hat : At d s n call (.ask c rest)) :
    (underWay (s.past n)).length < 4 := by
  cases call with
  | mutate id' p =>
    have hp : p.guard = none := by
      simp only [resolved?] at hcall
      split at hcall
      · next hg => exact Option.isNone_iff_eq_none.1 hg
      · cases hcall
    obtain ⟨u, hu, -, hf⟩ := σ.updates n id' p _ hat hp
    exact hf.length_lt hu
  | delete id' =>
    rcases σ.removes n id' _ hat with ⟨hnil, -⟩ | hrest
    · simp [hnil]
    · cases hrest
  | due | look | find | insert | cancel => cases hcall

/-- An update that resolves a task returns from its first round. -/
theorem Settling.returned (σ : Settling d s) {p : Patch} (hp : p.guard = none)
    {answer : Except StoreError Bool} (hat : At d s n (.mutate id p) (.done answer)) :
    answer = .ok true ∧ (underWay (s.past n)).countP reads = 1 := by
  obtain ⟨u, hu, -, hf⟩ := σ.updates n id p _ hat hp
  obtain rfl := Update.finished_of_done hu
  exact hf

theorem Settling.removed (σ : Settling d s) {answer : Except StoreError Bool}
    (hat : At d s n (.delete id) (.done answer)) : answer = .ok true := by
  rcases σ.removes n id _ hat with ⟨-, hrest⟩ | hrest
  · cases hrest
  · exact Program.done.inj hrest

end Log

/-- **A task that is held is left alone**, and whoever holds it resolves it in the first round. Any
number of queues over one scope take mail in, cancel and work, each command of theirs coming in
between any two others; the letters that are read can be decoded. -/
theorem leftAlone (h : d.Opens x₀) (hr : Run d.rules { shared := x₀ } s)
    (hd : Decodable d s.log) : LeftAlone d s where
  sole id n m hn hm := (going h hr).sole n m id hn hm
  spared pre e post id n hlog hn hne := by
    obtain ⟨t, next, x, ht, rfl, hs, asks, hx, -⟩ := hr.split hlog
    obtain ⟨i, j, q, b, before⟩ := e
    obtain rfl : t.shared = before := hs
    constructor <;> rintro call c a ⟨⟩
    · exact spares ht (going h ht) asks hx hn hne (.inl rfl)
    · exact spares ht (going h ht) asks hx hn hne (.inr rfl)
  claimed pre e post id p answer hlog hp he hyes := by
    obtain ⟨t, next, x, ht, rfl, -, asks, -, -⟩ := hr.split hlog
    subst hyes
    exact ((at_of_asks ht asks).2 _ _ he).holds_of_claim hp
  resolving pre e post id call c hlog hcall he := by
    obtain ⟨t, next, x, ht, rfl, -, asks, -, -⟩ := hr.split hlog
    obtain ⟨rest, hat⟩ := (at_of_asks ht asks).1 call c he
    have σ := settling h ht (hd.before hlog)
    exact ⟨hat.holds hcall, σ.length_lt hcall hat⟩
  updated pre e post id p answer hlog hp he := by
    obtain ⟨t, next, x, ht, rfl, -, asks, -, -⟩ := hr.split hlog
    exact (settling h ht (hd.before hlog)).returned hp ((at_of_asks ht asks).2 _ _ he)
  removed pre e post id answer hlog he := by
    obtain ⟨t, next, x, ht, rfl, -, asks, -, -⟩ := hr.split hlog
    exact (settling h ht (hd.before hlog)).removed ((at_of_asks ht asks).2 _ _ he)

/-- The scripts that were run, each with its job and whether it wrote. -/
def scripts (log : List Entry) : List (Nat × Bool) :=
  log.filterMap fun e => match e.exchange with
    | ⟨.command _ (.run script letterKey markKey expected letter mark), a⟩ =>
      some (e.thread, wrote (.run script letterKey markKey expected letter mark) a)
    | _ => none

/-- Two ticks list a task, and two jobs read its letter before either has claimed it. The first
wins, a call cancels in vain while the message is on its way, and the sending fails. -/
def race : List Move :=
  [.start 0 (.enqueue (Fleet.note "a@x" "one")), .name 0 (.ofNat 1)] ++ turns 0 2 ++
  [.start 0 .list, .clock 1 Fleet.minute, .page 1 [Keys.mark ⟨"default"⟩ (.ofNat 1)]] ++
  turns 1 1 ++
  [.start 1 .list, .clock 2 Fleet.minute, .page 2 [Keys.mark ⟨"default"⟩ (.ofNat 1)]] ++
  turns 2 1 ++
  [.takeUp 1 0, .takeUp 2 0] ++ turns 3 4 ++ turns 4 4 ++ turns 3 3 ++ turns 4 3 ++
  [.start 1 (.cancel (.ofNat 1))] ++ turns 5 2 ++ turns 3 2 ++
  [.outcome 3 (.error (.connection "down")), .clock 3 Fleet.minute] ++ turns 3 4

theorem leftAlone_race : ∃ s, Run (uniform {} [⟨"smtp", none⟩] ⟨"default"⟩).rules
      { shared := .empty } s ∧
    scripts s.log = [(3, false), (3, true), (4, false), (3, true)] ∧
    LeftAlone (uniform {} [⟨"smtp", none⟩] ⟨"default"⟩) s := by
  have key : ((uniform {} [⟨"smtp", none⟩] ⟨"default"⟩).playAll { shared := .empty } race).map
      (fun s => (scripts s.log, s.log.all (decodes ⟨"default"⟩ (.ofNat 1)))) =
        some ([(3, false), (3, true), (4, false), (3, true)], true) := by decide +kernel
  obtain ⟨s, hs, hv⟩ := Option.map_eq_some_iff.1 key
  obtain ⟨hscripts, hdec⟩ := Prod.mk.inj hv
  have hr := run_of_playAll hs
  exact ⟨s, hr, hscripts, leftAlone (opens_empty _) hr (decodable_of_all hdec)⟩

end MailQueue.Depot
