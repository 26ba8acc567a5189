import MailQueue.Documents.Filter
import MailQueue.Proofs.Documents.Document

/-!
# What the filters find

* `Task.Storable` and `Patch.Storable` are what a document can hold;
* `DocumentOf` relates a storable task and its document;
* `matches_dueFilter` and its like: on the document of a task each filter of the store is the
  condition that a store in memory puts to the task.
-/

namespace MailQueue

open Documents

/-- What a document can hold. A list is shorter than half the words. -/
structure Task.Storable (forms : Forms) (t : Task) : Prop where
  plain : t.Plain
  encodes : (taskDocument? forms t).isSome = true
  length : t.fragments.length < 9223372036854775808

/-- What a patch of a document can set, and a number of mails that is a word. -/
structure Patch.Storable (forms : Forms) (p : Patch) : Prop where
  plain : p.Plain
  encodes : (patchDocument? forms p).isSome = true
  length : ∀ ms ∈ p.fragments, ms.length < 9223372036854775808
  guard : ∀ attempts fragments, p.guard = some (.appendable attempts fragments) →
    fragments < UInt64.size

namespace Documents

/-- The document of a task that a document can hold. -/
structure DocumentOf (forms : Forms) (d : Document) (t : Task) : Prop where
  storable : t.Storable forms
  eq : taskDocument? forms t = some d

variable {forms : Forms} {t : Task} {p : Patch} {d fields : Document}

theorem DocumentOf.shown (h : DocumentOf forms d t) : Shown d t :=
  shown_of_taskDocument? h.storable.plain h.eq

theorem DocumentOf.taskOf?_eq (h : DocumentOf forms d t) : taskOf? d = some (t.stored forms) :=
  taskOf?_of_taskDocument? h.storable.plain h.eq

theorem exists_documentOf (h : t.Storable forms) : ∃ d, DocumentOf forms d t := by
  obtain ⟨d, hd⟩ := Option.isSome_iff_exists.1 h.encodes
  exact ⟨d, h, hd⟩

theorem DocumentOf.apply (h : DocumentOf forms d t) (hp : p.Storable forms)
    (hf : patchDocument? forms p = some fields) :
    DocumentOf forms (putAll d fields) (p.apply t) := by
  have heq := taskDocument?_apply h.storable.plain hp.plain h.eq hf
  refine ⟨⟨hp.plain.apply h.storable.plain, by rw [heq]; rfl, ?_⟩, heq⟩
  rcases hms : p.fragments with _ | ms
  · simpa [Patch.apply, hms] using h.storable.length
  · simpa [Patch.apply, hms] using hp.length ms hms

/-! ### Conditions -/

theorem matches_append (f g : Filter) (d : Document) :
    (f ++ g : Filter).matches d = (f.matches d && g.matches d) := List.all_append

theorem matches_cons {k : String} {c : Condition} {f : Filter} {x : Datum}
    (h : d.get? k = some x) : Filter.matches ((k, c) :: f) d = (c.holds x && f.matches d) := by
  simp only [Filter.matches, List.all_cons, h]

theorem matches_nil (d : Document) : Filter.matches [] d = true := rfl

/-- Below an instant are the same tasks whether or not it is rounded down. -/
theorem ms_le_ms_iff {u now : Instant} (h : u.floorMs = u) : u.ms ≤ now.ms ↔ u ≤ now := by
  refine ⟨fun hms => ?_, Instant.ms_le_ms⟩
  have hu : u.ns = u.ms * 1000000 := congrArg Instant.ns h.symm
  have hnow : now.ms * 1000000 ≤ now.ns := now.floorMs_le
  rw [Instant.le_def]
  omega

theorem word64_eq_iff {n k : Nat} (hn : n < 9223372036854775808) (hk : k < UInt64.size) :
    (n : Int) = word64 k ↔ n = k := by
  have hk : k < 18446744073709551616 := hk
  show (n : Int) = Int.bmod k 18446744073709551616 ↔ n = k
  rw [Int.bmod_def]
  omega

/-! ### The filters of the store -/

theorem matches_openFilter (h : Shown d t) : openFilter.matches d = t.isOpen := by
  rw [openFilter, matches_cons h.sent, matches_cons h.cancelled, matches_cons h.failed, matches_nil]
  simp only [Condition.holds, Task.isOpen]
  cases t.sent <;> cases t.cancelled <;> cases t.failed <;> rfl

theorem matches_idFilter (h : Shown d t) (id : TaskId) :
    (idFilter id).matches d = true ↔ t.id = id := by
  rw [idFilter, matches_cons h.id, matches_nil, Bool.and_true, Condition.holds, beq_iff_eq]
  exact ⟨fun he => TaskId.text_injective he.symm, fun he => he ▸ rfl⟩

theorem matches_cancelFilter (h : Shown d t) (id : TaskId) :
    (cancelFilter id).matches d = true ↔ t.id = id ∧ t.isOpen = true := by
  rw [cancelFilter, matches_append, Bool.and_eq_true, matches_idFilter h, matches_openFilter h]

theorem matches_dueFilter (h : Shown d t) (ht : t.Plain) (now : Instant) (maxAttempts : UInt32) :
    (dueFilter now maxAttempts).matches d = t.isDue now maxAttempts := by
  rw [dueFilter, matches_append, matches_openFilter h, matches_cons h.sendAt,
    matches_cons h.attempts, matches_nil, Bool.and_true, Task.isDue, Bool.and_assoc]
  congr 2
  · exact decide_eq_decide.2 (ms_le_ms_iff ht.aligned)
  · exact decide_eq_decide.2 Int.ofNat_lt

theorem matches_pendingFilter (h : Shown d t) (ht : t.Plain) (r : Recipient) (before : Instant) :
    (pendingFilter r before).matches d = true ↔
      t.isOpen = true ∧ t.sendAt ≤ before ∧ t.recipient.groupingKey = r.groupingKey := by
  rw [pendingFilter, matches_append, matches_openFilter h, matches_cons h.recipient,
    matches_cons h.sendAt, matches_nil]
  simp only [Condition.holds, Bool.and_true, Bool.and_eq_true, beq_iff_eq, decide_eq_true_eq,
    ms_le_ms_iff ht.aligned, eq_comm (a := r.groupingKey)]
  exact and_congr_right fun _ => and_comm

theorem matches_tries (h : Shown d t) (attempts : UInt32) (f : Filter) :
    Filter.matches (("tries", .number attempts.toNat) :: f) d = true ↔
      t.attempts = attempts ∧ f.matches d = true := by
  rw [matches_cons h.attempts, Bool.and_eq_true, Condition.holds, beq_iff_eq, Int.ofNat_inj,
    UInt32.toNat_inj]

theorem matches_mutateFilter (h : DocumentOf forms d t) (id : TaskId) (hp : p.Storable forms) :
    (mutateFilter id p).matches d = true ↔ t.id = id ∧ p.guardHolds t = true := by
  have hs := h.shown
  rcases hg : p.guard with _ | ⟨attempts⟩ | ⟨attempts, fragments⟩
  · simp [mutateFilter, Patch.guardHolds, hg, matches_idFilter hs]
  · simp only [mutateFilter, Patch.guardHolds, hg, Guard.holds, matches_append, Bool.and_eq_true,
      matches_cancelFilter hs, matches_tries hs, matches_nil, beq_iff_eq, and_true, and_assoc]
  · obtain ⟨items, hitems, hlength⟩ := hs.fragments
    have hsize := word64_eq_iff h.storable.length (hp.guard attempts fragments hg)
    simp only [mutateFilter, Patch.guardHolds, hg, Guard.holds, matches_append, Bool.and_eq_true,
      matches_cancelFilter hs, matches_tries hs, matches_cons hitems, Condition.holds, matches_nil,
      beq_iff_eq, and_true, and_assoc, hlength, hsize]

end Documents

end MailQueue
