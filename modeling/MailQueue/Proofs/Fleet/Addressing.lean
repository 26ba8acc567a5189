import MailQueue.Proofs.Compile.Layered
import MailQueue.Proofs.Fleet.Growth
import MailQueue.Proofs.Fleet.Handover
import MailQueue.Proofs.Grouping

/-!
# To whom merged mails go

A request looks a task up by the grouping key of its recipient and joins it later; the message of a
task goes to the recipient of its last mail. Where no address has a comma, all mails of a task are
to the same addresses.

* `Alike` says so of one task, and `Change.alike` that no answer breaks it;
* `alike_of_stored`: it holds of each task that is or was stored;
* `Addressed` gathers what follows for the stored tasks and for the messages, and
  `recipients_exact` shows it of each state that can be reached.
-/

namespace MailQueue

open Queue Interleaving

/-! ### What a request has passed -/

namespace Intake

variable {q : Queue} {r : Request} {l : List (MailQueue.Exchange Ask Ask.Answer)} {d : Intake}

lemma valid_of_begin (h : (begin q r).ended = false) : r.mail.recipient.valid = true := by
  unfold begin at h
  split at h
  · cases h
  · split at h
    · cases h
    · next hv => simpa using hv

lemma valid_of_course (h : Course (Advance q r) (begin q r) l d) (hd : d.ended = false) :
    r.mail.recipient.valid = true := by
  induction h with
  | refl => exact valid_of_begin hd
  | snoc h step ih => exact ih step.not_ended

end Intake

/-- A message that was read has the recipient that stands in its fields. -/
lemma Mail.recipient_of_ofEntries {p : Payload} {m : Mail} {r : Recipient}
    (hto : p.get? "to" = some r.toValue) (h : Mail.ofEntries p.entries = .ok m) :
    m.recipient = r := by
  obtain ⟨-, hrequired, -⟩ := Mail.ofEntries_eq_ok_iff.1 h
  rw [Reading.required, once_entries, hto] at hrequired
  have hread : Recipient.ofValue r.toValue = .ok m.recipient := hrequired
  rw [Recipient.ofValue_toValue] at hread
  exact (Except.ok.inj hread).symm

/-- A message goes to the recipient of the last mail. -/
lemma Compiler.recipient_of_compile {c : Compiler} {transport : Transport} {task : Task}
    {message m : Mail} (hm : task.fragments.getLast? = some m)
    (h : c.compile transport task = .ok message) : message.recipient = m.recipient :=
  Mail.recipient_of_ofEntries (c.get?_fields_to transport task hm) h

namespace Fleet

variable {f : Fleet} {s : State} {id : TaskId} {u v : Task} {log log' : List Entry}

def Requested (log : List Entry) (m : Mail) : Prop :=
  ∃ e ∈ log, ∃ r, e.job.duty = .enqueue r ∧ r.mail = m

/-- All mails of the task were handed in, and are to its recipient up to order. -/
structure Alike (log : List Entry) (u : Task) : Prop where
  valid : u.recipient.valid = true
  commaFree : u.recipient.CommaFree
  some : u.fragments ≠ []
  perm : ∀ m ∈ u.fragments, m.recipient.addresses.Perm u.recipient.addresses
  requested : ∀ m ∈ u.fragments, Requested log m

def CommaFree (log : List Entry) : Prop :=
  ∀ e ∈ log, ∀ r, e.job.duty = .enqueue r → r.mail.recipient.CommaFree

lemma Alike.mono (h : Alike log u) (hl : log ⊆ log') : Alike log' u where
  valid := h.valid
  commaFree := h.commaFree
  some := h.some
  perm := h.perm
  requested m hm := by
    obtain ⟨e, he, hr⟩ := h.requested m hm
    exact ⟨e, hl he, hr⟩

lemma Alike.congr (h : Alike log u) (hr : v.recipient = u.recipient)
    (hf : v.fragments = u.fragments) : Alike log v where
  valid := by rw [hr]; exact h.valid
  commaFree := by rw [hr]; exact h.commaFree
  some := by rw [hf]; exact h.some
  perm := by rw [hr, hf]; exact h.perm
  requested := by rw [hf]; exact h.requested

lemma alike_fresh {r : Request} (hv : r.mail.recipient.valid = true)
    (hc : r.mail.recipient.CommaFree) (hr : Requested log r.mail) (id : TaskId)
    (sendAt : Instant) : Alike log (Intake.fresh r id sendAt) where
  valid := hv
  commaFree := hc
  some := List.cons_ne_nil _ _
  perm m hm := by
    obtain rfl := List.mem_singleton.1 hm
    exact .refl _
  requested m hm := by
    obtain rfl := List.mem_singleton.1 hm
    exact hr

/-- A task that was looked up with some mails, and a request with the same grouping key that joins
it while it still has these. -/
lemma Alike.join {t : Task} {r : Request} (hu : Alike log u) (ht : Alike log t)
    (hf : t.fragments = u.fragments) (hv : r.mail.recipient.valid = true)
    (hc : r.mail.recipient.CommaFree) (hr : Requested log r.mail)
    (hkey : t.recipient.groupingKey = r.mail.recipient.groupingKey) :
    Alike log { u with fragments := t.fragments ++ [r.mail] } where
  valid := hu.valid
  commaFree := hu.commaFree
  some := by simp
  perm m hm := by
    rcases List.mem_append.1 hm with hm | hm
    · exact hu.perm m (hf ▸ hm)
    · obtain rfl := List.mem_singleton.1 hm
      have hjoin := Recipient.addresses_perm_of_groupingKey ht.valid hv ht.commaFree hc hkey
      -- a mail of the task is to the addresses of both
      obtain ⟨m₀, hm₀⟩ := List.exists_mem_of_ne_nil _ ht.some
      exact (hjoin.symm.trans (ht.perm m₀ hm₀).symm).trans (hu.perm m₀ (hf ▸ hm₀))
  requested m hm := by
    rcases List.mem_append.1 hm with hm | hm
    · exact ht.requested m hm
    · obtain rfl := List.mem_singleton.1 hm
      exact hr

/-! ### Every task that is or was stored -/

/-- What was found has the grouping key that was looked for. -/
lemma groupingKey_of_found {x₀ : Shared} (h : Run f.rules { shared := x₀ } s) {e : Entry}
    (he : e ∈ s.log) {r : Recipient} {w : Instant} {t : Task}
    (hx : e.exchange =
      ⟨.store (.find r w), (Except.ok (some t) : Except StoreError (Option Task))⟩) :
    t.recipient.groupingKey = r.groupingKey := by
  obtain ⟨pre, post, hlog⟩ := List.append_of_mem he
  obtain ⟨u, next, x, hu, -, hs, -, ha, -⟩ := h.split hlog
  obtain ⟨n, j, q, a, b⟩ := e
  cases hx
  rcases answers_store ha with ⟨hd, -⟩ | ⟨⟨e, hd⟩, -⟩
  · exact (Memory.mem_of_find hd).2.2.2
  · cases hd

lemma Change.alike (h : f.Reachable s) {n : Nat} {j : Job} {x : Exchange} {log : List Entry}
    (ch : Change f s n j id x (some v))
    (hr : ∀ r, j.duty = .enqueue r → r.mail.recipient.CommaFree ∧ Requested log r.mail)
    (hu : ∀ u, stored s id = some u → Alike log u)
    (hlog : ∀ e ∈ s.log, ∀ u, e.before.store.get? id = some u → Alike log u) : Alike log v := by
  generalize ho : some v = o at ch
  cases ch with
  | still => exact hu v ho.symm
  | @born r sendAt hj hd hs =>
    obtain rfl := Option.some.inj ho
    obtain ⟨hc, hreq⟩ := hr r hj
    exact alike_fresh (Intake.valid_of_course hd rfl) hc hreq id sendAt
  | @joined r t u w rounds hj ht hd hstored hopen hat hlen =>
    obtain rfl := Option.some.inj ho
    subst ht
    obtain ⟨clock, hrun⟩ := h
    obtain ⟨hc, hreq⟩ := hr r hj
    obtain ⟨e, he, -, hx⟩ := mem_pastIn.1 (Intake.found_of_joining hd).1
    have hfound := (found_of_mem_log hrun rfl (distinct_first f clock) he hx).1
    have hkept := fragments_of_joining hrun rfl (distinct_first f clock) hd
      (fun b hb u hu v hv => prefix_of_mem_log ⟨clock, hrun⟩ hb hu hv) hstored hlen
    exact (hu u hstored).join (hlog e he t hfound) hkept (Intake.valid_of_course hd rfl) hc hreq
      (groupingKey_of_found hrun he hx)
  | withdrawn hj hstored =>
    split at ho
    · obtain rfl := Option.some.inj ho
      exact (hu _ hstored).congr rfl rfl
    · cases ho
  | taken hj ht hp hstored =>
    obtain rfl := Option.some.inj ho
    exact (hu _ hstored).congr rfl rfl
  | ended hj ht hd he =>
    cases he with
    | removed | dropped => cases ho
    | putBack _ _ _ hstored | gaveUp _ hstored =>
      obtain rfl := Option.some.inj ho
      exact (hu _ hstored).congr rfl rfl

/-- **All mails of a task are to the same addresses**, whenever it is stored. -/
theorem alike_of_stored (h : f.Reachable s) (hc : CommaFree s.log) :
    (∀ u, stored s id = some u → Alike s.log u) ∧
      ∀ e ∈ s.log, ∀ u, e.before.store.get? id = some u → Alike s.log u := by
  obtain ⟨clock, hr⟩ := h
  refine run_view (P := fun m _ log => CommaFree log →
    (∀ u, m.get? id = some u → Alike log u) ∧
      ∀ e ∈ log, ∀ u, e.before.store.get? id = some u → Alike log u) ?_ ?_ hr hc
  · intro _
    simp [first, storeOf, Memory.get?]
  · intro s n j q next a y hs asks ha ih hc
    have hl : s.log ⊆ s.log ++ [⟨n, j, q, a, s.shared⟩] := List.subset_append_left _ _
    obtain ⟨hold, hlog⟩ := ih fun e he => hc e (hl he)
    have hold' : ∀ u, stored s id = some u → Alike (s.log ++ [⟨n, j, q, a, s.shared⟩]) u :=
      fun u hu => (hold u hu).mono hl
    have hlog' : ∀ e ∈ s.log, ∀ u, e.before.store.get? id = some u →
        Alike (s.log ++ [⟨n, j, q, a, s.shared⟩]) u := fun e he u hu => (hlog e he u hu).mono hl
    refine ⟨fun v hv => ?_, fun e he u hu => ?_⟩
    · have ch := change hs rfl asks ha id
      rw [hv] at ch
      refine ch.alike ⟨clock, hs⟩ (fun r hj => ?_) hold' hlog'
      have hlast := List.mem_append_right s.log (List.mem_singleton_self
        (⟨n, j, q, a, s.shared⟩ : Entry))
      exact ⟨hc _ hlast r hj, _, hlast, r, hj, rfl⟩
    · rcases List.mem_append.1 he with he | he
      · exact hlog' e he u hu
      · obtain rfl := List.mem_singleton.1 he
        exact hold' u hu

/-! ### The messages -/

lemma compiled_of_mem_log {x₀ : Shared} (h : Run f.rules { shared := x₀ } s) {e : Entry}
    (he : e ∈ s.log) {i k : Nat} {t : Task} (hj : e.job = ⟨i, .process k t⟩) {index : Nat}
    {message : Mail} {o : SendOutcome} (hx : e.exchange = ⟨.send index message, o⟩) :
    ∃ transport, (f.queue i).compiler.compile transport (claimed t) = .ok message := by
  obtain ⟨pre, post, hlog⟩ := List.append_of_mem he
  obtain ⟨v, next, x, hv, -, -, asks, -, -⟩ := h.split hlog
  obtain ⟨n, j, q, a, b⟩ := e
  obtain rfl : j = ⟨i, .process k t⟩ := hj
  obtain ⟨d, hd, hw⟩ := attempt_of hv asks
  obtain ⟨d', step, -⟩ := Attempt.follow hw.symm a
  cases hx
  cases step with
  | sent =>
    obtain ⟨transport, -, hm⟩ := Attempt.compiled_of_sending hd
    exact ⟨transport, hm⟩

/-- The mail was handed in by a request that has started. -/
def HandedIn (s : State) (m : Mail) : Prop :=
  ∃ th ∈ s.threads, ∃ r, th.job.duty = .enqueue r ∧ r.mail = m

lemma Requested.handedIn {x₀ : Shared} (h : Run f.rules { shared := x₀ } s) {m : Mail}
    (hm : Requested s.log m) : HandedIn s m := by
  obtain ⟨e, he, r, hj, hr⟩ := hm
  obtain ⟨w, hw⟩ := h.thread_of_mem_log he
  exact ⟨_, List.mem_of_getElem? hw, r, hj, hr⟩

/-- What holds, at any moment, of the recipients of all tasks and messages. -/
structure Addressed (s : State) : Prop where
  /-- Each mail of a stored task was handed in, and is to the addresses of the task. -/
  stored : ∀ id u, stored s id = some u → ∀ m ∈ u.fragments,
    HandedIn s m ∧ m.recipient.addresses.Perm u.recipient.addresses
  /-- A message for a task is to the addresses of each of its mails. -/
  sent : ∀ e ∈ s.log, ∀ i k t index message o, e.job = ⟨i, .process k t⟩ →
    e.exchange = ⟨.send index message, o⟩ → t.fragments ≠ [] ∧ ∀ m ∈ t.fragments,
      HandedIn s m ∧ message.recipient.addresses.Perm m.recipient.addresses

lemma addressed (h : f.Reachable s) (hc : CommaFree s.log) : Addressed s := by
  have hreach := h
  obtain ⟨clock, hrun⟩ := h
  refine ⟨fun id u hu m hm => ?_, fun e he i k t index message o hj hx => ?_⟩
  · have ha := (alike_of_stored hreach hc).1 u hu
    exact ⟨(ha.requested m hm).handedIn hrun, ha.perm m hm⟩
  · obtain ⟨transport, hmessage⟩ := compiled_of_mem_log hrun he hj hx
    -- the task as it was listed
    have hwork : ∃ w, s.threads[e.thread]? = some (⟨⟨i, .process k t⟩, w⟩ : Thread) := by
      rw [← hj]
      exact hrun.thread_of_mem_log he
    obtain ⟨w, hw⟩ := hwork
    obtain ⟨l, hl, now, due, -, -, hlisted, ht⟩ := listed_of_process hrun hw
    have hstored := listed_as_stored hrun rfl (distinct_first f clock) hl hlisted ht
    have ha := (alike_of_stored hreach hc).2 l hl t hstored
    have hlast : (claimed t).fragments.getLast? = some (t.fragments.getLast ha.some) :=
      List.getLast?_eq_some_getLast ha.some
    rw [Compiler.recipient_of_compile hlast hmessage]
    refine ⟨ha.some, fun m hm => ⟨(ha.requested m hm).handedIn hrun, ?_⟩⟩
    exact (ha.perm _ (List.getLast_mem ha.some)).trans (ha.perm m hm).symm

/-- **Grouping by recipient is exact**: recipients to the same effect are grouped, and where no
address has a comma only recipients with the same addresses are. No message goes to anyone for whom
one of its mails was not handed in. -/
theorem recipients_exact : (∀ a b : Recipient, a.equivalent b = true →
      a.groupingKey = b.groupingKey) ∧
    (∀ a b : Recipient, a.valid = true → b.valid = true → a.CommaFree → b.CommaFree →
      a.groupingKey = b.groupingKey → a.addresses.Perm b.addresses) ∧
    ∀ (f : Fleet) (s : State), f.Reachable s →
      (∀ th ∈ s.threads, ∀ r, th.job.duty = .enqueue r → r.mail.recipient.CommaFree) →
        Addressed s := by
  refine ⟨fun a b h => Recipient.groupingKey_of_equivalent h,
    fun a b ha hb hca hcb h => Recipient.addresses_perm_of_groupingKey ha hb hca hcb h,
    fun f s h hc => addressed h fun e he r hj => ?_⟩
  obtain ⟨clock, hrun⟩ := h
  obtain ⟨w, hw⟩ := hrun.thread_of_mem_log he
  exact hc _ (List.mem_of_getElem? hw) r hj

/-- A mail to one address, and then one to the list of this address, which goes with it. -/
def toOneAndList : List Move :=
  [.start 0 (.enqueue (note "a@x" "one")), .reply 0, .name 0 (.ofNat 1), .reply 0,
    .start 0 (.enqueue { note "a@x" "two" with
      mail := { Mail.new (.many ["a@x"]) with text := some "two" } }),
    .reply 1, .reply 1, .clock minute, .start 0 .list, .reply 2, .reply 2, .takeUp 2,
    .reply 3, .reply 3, .outcome 3 (.report { accepted := ["a@x"] })]

def commaFree (threads : List Thread) : Bool :=
  threads.all fun th => match th.job.duty with
    | .enqueue r => decide r.mail.recipient.CommaFree
    | _ => true

lemma commaFree_iff {threads : List Thread} : commaFree threads = true ↔
    ∀ th ∈ threads, ∀ r, th.job.duty = .enqueue r → r.mail.recipient.CommaFree := by
  rw [commaFree, List.all_eq_true]
  refine forall₂_congr fun th _ => ?_
  cases th.job.duty <;> simp

theorem recipients_exact_toOneAndList : ∃ s u,
    (Recipient.many ["a@x", "b@x"]).groupingKey = (Recipient.many ["b@x", "a@x"]).groupingKey ∧
    (Recipient.one "a@x").addresses.Perm (Recipient.many ["a@x"]).addresses ∧
    merging.Reachable s ∧
    (∀ th ∈ s.threads, ∀ r, th.job.duty = .enqueue r → r.mail.recipient.CommaFree) ∧
    stored s (.ofNat 1) = some u ∧
    u.fragments.map Mail.recipient = [.one "a@x", .many ["a@x"]] ∧
    (sends s.log (.ofNat 1)).length = 1 ∧ Addressed s := by
  have key : ((merging.playAll { shared := merging.first [] .epoch } toOneAndList).any fun s =>
      commaFree s.threads && (sends s.log (.ofNat 1)).length == 1 &&
        (stored s (.ofNat 1)).any fun u =>
          u.fragments.map Mail.recipient == [.one "a@x", .many ["a@x"]]) = true := by
    decide +kernel
  obtain ⟨s, hs, hv⟩ := (Option.any_eq_true ..).1 key
  obtain ⟨hv, hstored⟩ := (Bool.and_eq_true ..).mp hv
  obtain ⟨hc, hsent⟩ := (Bool.and_eq_true ..).mp hv
  obtain ⟨u, hu, hmails⟩ := (Option.any_eq_true ..).1 hstored
  have hreach := reachable_of_playAll hs
  have hfree := commaFree_iff.1 hc
  obtain ⟨hsame, hperm, haddressed⟩ := recipients_exact
  have hkey : (Recipient.one "a@x").groupingKey = (Recipient.many ["a@x"]).groupingKey := by
    simp [Recipient.groupingKey, Recipient.sortAddresses]
  exact ⟨s, u, hsame _ _ (by decide),
    hperm _ _ (by decide) (by decide) (by decide) (by decide) hkey, hreach, hfree, hu,
    eq_of_beq hmails, eq_of_beq hsent, haddressed merging s hreach hfree⟩

end Fleet

end MailQueue
