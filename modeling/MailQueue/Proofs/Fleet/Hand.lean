import MailQueue.Proofs.Fleet.Invariant

/-!
# What a worker has in hand

A worker has a task in hand from its claim to the write that resolves the task. Both show in the
records, and so does that nobody else hands a message over.

* `inHand_append_of_quiet` and its like follow who has a task in hand from one record to the next;
* `holds_of_course`: between its claim and its last write a worker has its task in hand;
* `inHand_of_sends` and `claimed_of_sends`: who hands a message over has claimed the task before.
-/

namespace MailQueue.Fleet

open Queue Interleaving

/-! ### Records and one more -/

section Append

variable {log : List Entry} {e : Entry} {id : TaskId} {k : Nat}

lemma inHand_append_self :
    InHand (log ++ [e]) e.thread id ↔ Holds id (pastIn log e.thread ++ [e.exchange]) := by
  rw [InHand, pastIn_append_self]

lemma inHand_append_of_ne (h : e.thread ≠ k) : InHand (log ++ [e]) k id ↔ InHand log k id := by
  rw [InHand, pastIn_append_of_ne log h, InHand]

lemma inHand_append_of_quiet (hc : claim? id e.exchange = none)
    (hr : resolves id e.exchange = false) : InHand (log ++ [e]) k id ↔ InHand log k id := by
  rcases eq_or_ne e.thread k with rfl | h
  · rw [inHand_append_self, holds_append_of_quiet hc hr, InHand]
  · exact inHand_append_of_ne h

end Append

/-! ### What a worker has in hand -/

section Workers

variable {f : Fleet} {x₀ : Shared} {s : State} {id : TaskId} {e : Entry}

/-- Between its claim and its last write a worker has its task in hand. -/
lemma holds_of_course {q : Queue} {t : Task} {l : List Exchange} {d : Attempt}
    (h : Course (Attempt.Advance q t) (Attempt.begin t) l d) (ht : d.took = true)
    (hp : d.pending = true) : Holds t.id l :=
  ⟨Attempt.claim_of_took h ht, fun _ hx => Attempt.resolves_of_course h hx (.inl hp)⟩

lemma job_of_sendsFor (h : sendsFor id e = true) :
    ∃ k t o, e.job.duty = .process k t ∧ t.id = id ∧ outcome? e.exchange = some o := by
  obtain ⟨n, ⟨i, duty⟩, q, a, b⟩ := e
  simp only [sendsFor, Bool.and_eq_true] at h
  obtain ⟨o, ho⟩ := Option.isSome_iff_exists.1 h.2
  cases duty with
  | process k t => exact ⟨k, t, o, rfl, by simpa [Job.task?] using h.1, ho⟩
  | _ => simp [Job.task?] at h

/-- Who hands a message over has the task in hand, by the only claim of the work. -/
lemma inHand_of_sends {n : Nat} {j : Job} {q : Ask} {next : q.Answer → Work j.Result}
    {a : q.Answer} (h : Run f.rules { shared := x₀ } s)
    (asks : s.threads[n]? = some ⟨j, .ask q next⟩)
    (hs : sendsFor id ⟨n, j, q, a, s.shared⟩ = true) :
    InHand s.log n id ∧ (s.past n).filterMap outcome? = [] ∧
      ((s.past n).filterMap (claim? id)).length = 1 := by
  obtain ⟨k, t, o, hj, rfl, ho⟩ := job_of_sendsFor hs
  obtain ⟨i, duty⟩ := j
  obtain rfl : duty = .process k t := hj
  obtain ⟨d, hd, hw⟩ := attempt_of h asks
  obtain ⟨e, step, -⟩ := Attempt.follow hw.symm a
  rcases step.outcome with ⟨hx, -⟩ | ⟨index, message, o', rfl, -, -⟩
  · rw [show outcome? ⟨q, a⟩ = some o from ho] at hx
    cases hx
  · refine ⟨holds_of_course hd rfl rfl, ?_, ?_⟩
    · exact (Attempt.outcomes_of_course hd).resolve_right fun ⟨_, hu, _⟩ => by cases hu
    · rw [Attempt.claims_of_course hd, if_pos ⟨rfl, rfl⟩]
      rfl

lemma outcomes_le_one (h : Run f.rules { shared := x₀ } s) (he : e ∈ s.log)
    (hs : sendsFor id e = true) : ((s.past e.thread).filterMap outcome?).length ≤ 1 := by
  obtain ⟨w, hw⟩ := h.thread_of_mem_log he
  obtain ⟨k, t, o, hj, -, -⟩ := job_of_sendsFor hs
  obtain ⟨n, ⟨i, duty⟩, q, a, b⟩ := e
  obtain rfl : duty = .process k t := hj
  obtain ⟨d, hd, -⟩ := attempt_of h hw
  rcases Attempt.outcomes_of_course hd with hl | ⟨-, -, o, hl⟩ <;> rw [hl] <;> simp

lemma claimed_of_sends (h : Run f.rules { shared := x₀ } s) (he : e ∈ s.log)
    (hs : sendsFor id e = true) :
    ∃ e' ∈ s.log, e'.thread = e.thread ∧ (claim? id e'.exchange).isSome = true := by
  obtain ⟨w, hw⟩ := h.thread_of_mem_log he
  have hx : e.exchange ∈ s.past e.thread := mem_pastIn.2 ⟨e, he, rfl, rfl⟩
  obtain ⟨k, t, o, hj, rfl, ho⟩ := job_of_sendsFor hs
  obtain ⟨n, ⟨i, duty⟩, q, a, b⟩ := e
  obtain rfl : duty = .process k t := hj
  obtain ⟨d, hd, -⟩ := attempt_of h hw
  have hm : o ∈ (s.past n).filterMap outcome? := List.mem_filterMap.2 ⟨_, hx, ho⟩
  rcases Attempt.outcomes_of_course hd with hl | ⟨ht, -⟩
  · rw [hl] at hm
    cases hm
  · obtain ⟨x, hx, hc⟩ := Attempt.claim_of_took hd ht
    obtain ⟨e', he', ht', rfl⟩ := mem_pastIn.1 hx
    exact ⟨e', he', ht', hc⟩

end Workers

end MailQueue.Fleet
