import MailQueue.Proofs.Documents.Filter
import MailQueue.Proofs.Documents.Server
import MailQueue.Proofs.Memory

/-!
# A store on a document server and a store in memory

* `InAccord`: the documents are those of the tasks in memory, one for one;
* `Together`: any calls, each made on the server and in memory;
* `InAccord.update`, `InAccord.delete` and `InAccord.count` are what the commands come to, told of
  the tasks;
* `in_accord`: the filters say what the rules for tasks say, and so the two stores answer alike and
  keep the same tasks throughout;
* `not_inAccordAlways`: but for an object of a reserved form, which comes back as something else.
-/

namespace MailQueue.Documents

/-- The documents are those of the tasks in memory. -/
structure InAccord (forms : Forms) (b : Binding) (s : Collection) (m : Memory) : Prop where
  binding : m.binding = some b
  distinct : m.Distinct
  documents : Multiset.Rel (DocumentOf forms) s m.tasks

/-- A call that a document server is made for, an insertion under an identifier that is free. -/
def Suits (forms : Forms) (m : Memory) : Store.Call → Prop
  | .insert task => task.Storable forms ∧ (∀ d ∈ taskDocument? forms task, Sendable d) ∧
      m.get? task.id = none
  | .mutate _ patch => patch.Storable forms ∧ ∀ fields ∈ patchDocument? forms patch, Sendable fields
  | _ => True

/-- The answer is one that a store in memory may give, with each task as it is read and but for the
order of what is listed. -/
def Agrees (read : Task → Task) (m : Memory) : (call : Store.Call) → call.Answer → Prop
  | .due now, a => ∃ l, ∃ ts : List Task, a = .ok l ∧ m.Allows (.due now) (.ok (ts.map .task)) ∧
      l.Perm (ts.map fun t => .task (read t))
  | .find recipient before, a => ∃ o, m.Allows (.find recipient before) (.ok o) ∧
      a = .ok (o.map read)
  | call, a => m.Allows call a

/-- Any calls one after the other, from an empty store on. -/
inductive Together (forms : Forms) (scope : String) (b : Binding) : Collection → Memory → Prop where
  | empty : Together forms scope b 0 { binding := some b }
  | call {s s' : Collection} {m : Memory} (h : Together forms scope b s m) {call : Store.Call}
      (suits : Suits forms m call) {a : call.Answer}
      (made : Executes (Client.answer forms ⟨scope, some b⟩ call) s a s') :
      Together forms scope b s' (m.answer call).2

/-! ### The tasks behind the documents -/

section

variable {forms : Forms} {b : Binding} {s r : Collection} {m : Memory} {d : Document} {t : Task}

theorem InAccord.exists_task (h : InAccord forms b s m) (hd : d ∈ s) :
    ∃ t ∈ m.tasks, DocumentOf forms d t := by
  obtain ⟨t, ht, htd⟩ := Multiset.exists_mem_of_rel_of_mem h.documents hd
  exact ⟨t, ht, htd⟩

theorem InAccord.exists_document (h : InAccord forms b s m) (ht : t ∈ m.tasks) :
    ∃ d ∈ s, DocumentOf forms d t := by
  obtain ⟨d, hd, hdt⟩ := Multiset.exists_mem_of_rel_of_mem (Multiset.rel_flip.2 h.documents) ht
  exact ⟨d, hd, hdt⟩

theorem InAccord.split (h : InAccord forms b s m) (hs : s = d ::ₘ r) :
    ∃ t ts, DocumentOf forms d t ∧ Multiset.Rel (DocumentOf forms) r ts ∧
      (m.tasks : Multiset Task) = t ::ₘ ts := by
  obtain ⟨t, ts, hdt, hr, hts⟩ := Multiset.rel_cons_left.1 (hs ▸ h.documents)
  exact ⟨t, ts, hdt, hr, hts⟩

theorem rel_filter {α β : Type} {R : α → β → Prop} {p : α → Prop} {q : β → Prop} [DecidablePred p]
    [DecidablePred q] {s : Multiset α} {t : Multiset β} (h : Multiset.Rel R s t)
    (hpq : ∀ a c, R a c → (p a ↔ q c)) : Multiset.Rel R (s.filter p) (t.filter q) := by
  induction h with
  | zero => exact .zero
  | @cons a c s t hac _ ih =>
    by_cases hp : p a
    · rw [Multiset.filter_cons_of_pos _ hp, Multiset.filter_cons_of_pos _ ((hpq a c hac).1 hp)]
      exact .cons hac ih
    · rw [Multiset.filter_cons_of_neg _ hp,
        Multiset.filter_cons_of_neg _ (mt (hpq a c hac).2 hp)]
      exact ih

theorem exists_forall₂ {α β : Type} {R : α → β → Prop} {l : List α} {t : Multiset β}
    (h : Multiset.Rel R l t) : ∃ l', List.Forall₂ R l l' ∧ (l' : Multiset β) = t := by
  induction l generalizing t with
  | nil =>
    obtain rfl := Multiset.rel_zero_left.1 h
    exact ⟨[], .nil, rfl⟩
  | cons a l ih =>
    have h : Multiset.Rel R (a ::ₘ (l : Multiset α)) t := h
    obtain ⟨c, t', hac, ht', rfl⟩ := Multiset.rel_cons_left.1 h
    obtain ⟨l', hl', rfl⟩ := ih ht'
    exact ⟨c :: l', .cons hac hl', rfl⟩

variable {ts : Multiset Task} {u : Task}

theorem ne_of_split (hm : m.Distinct) (h : (m.tasks : Multiset Task) = t ::ₘ ts) :
    ∀ v ∈ ts, v.id ≠ t.id := by
  have hids : ((m.tasks : Multiset Task).map Task.id).Nodup := hm
  rw [h, Multiset.map_cons, Multiset.nodup_cons] at hids
  exact fun v hv he => hids.1 (he ▸ Multiset.mem_map_of_mem _ hv)

theorem coe_tasks_put (hm : m.Distinct) (h : (m.tasks : Multiset Task) = t ::ₘ ts)
    (hu : u.id = t.id) : ((m.put u).tasks : Multiset Task) = u ::ₘ ts := by
  have hrest : ts.map (fun v => if v.id = u.id then u else v) = ts := by
    conv_rhs => rw [← Multiset.map_id ts]
    exact Multiset.map_congr rfl fun v hv => if_neg (hu ▸ ne_of_split hm h v hv)
  calc ((m.put u).tasks : Multiset Task)
      = (m.tasks : Multiset Task).map fun v => if v.id = u.id then u else v := rfl
    _ = u ::ₘ ts := by rw [h, Multiset.map_cons, if_pos hu.symm, hrest]

theorem coe_tasks_erase (hm : m.Distinct) (h : (m.tasks : Multiset Task) = t ::ₘ ts) :
    ((m.erase t.id).tasks : Multiset Task) = ts := by
  have hrest : ts.filter (fun v => (v.id != t.id) = true) = ts :=
    Multiset.filter_eq_self.2 fun v hv => bne_iff_ne.2 (ne_of_split hm h v hv)
  calc ((m.erase t.id).tasks : Multiset Task)
      = (m.tasks : Multiset Task).filter fun v => (v.id != t.id) = true := by
        rw [Multiset.filter_coe]
        simp only [Memory.erase, Bool.decide_eq_true]
    _ = ts := by rw [h, Multiset.filter_cons_of_neg _ (by simp), hrest]

theorem get?_of_split (hm : m.Distinct) (h : (m.tasks : Multiset Task) = t ::ₘ ts) :
    m.get? t.id = some t :=
  Memory.get?_of_mem hm (Multiset.mem_coe.1 (h ▸ Multiset.mem_cons_self t ts))

end

/-! ### One call on both sides -/

section

variable {forms : Forms} {b : Binding} {s s' : Collection} {m : Memory} {scope : String}
  {id : TaskId}

theorem InAccord.found (h : InAccord forms b s m) {f : Filter} {P : Task → Prop}
    (hP : ∀ {d t}, DocumentOf forms d t → (f.matches d = true ↔ t.id = id ∧ P t)) {d : Document}
    {r : Collection} (hs : s = d ::ₘ r) (hm : f.matches d = true) :
    ∃ t ts, DocumentOf forms d t ∧ Multiset.Rel (DocumentOf forms) r ts ∧
      (m.tasks : Multiset Task) = t ::ₘ ts ∧ t.id = id ∧ m.get? id = some t ∧ P t := by
  obtain ⟨t, ts, hdt, hr, hts⟩ := h.split hs
  obtain ⟨rfl, hPt⟩ := (hP hdt).1 hm
  exact ⟨t, ts, hdt, hr, hts, rfl, get?_of_split h.distinct hts, hPt⟩

theorem InAccord.notFound (h : InAccord forms b s m) {f : Filter} {P : Task → Prop}
    (hP : ∀ {d t}, DocumentOf forms d t → (f.matches d = true ↔ t.id = id ∧ P t))
    (hnone : ∀ d ∈ s, ¬ f.matches d = true) : ∀ t, m.get? id = some t → ¬ P t := by
  intro t ht hPt
  obtain ⟨d, hd, hdt⟩ := h.exists_document (List.mem_of_find?_eq_some ht)
  exact hnone d hd ((hP hdt).2 ⟨Memory.id_of_get? ht, hPt⟩)

theorem InAccord.update (h : InAccord forms b s m) {f : Filter} {P : Task → Prop}
    (hP : ∀ {d t}, DocumentOf forms d t → (f.matches d = true ↔ t.id = id ∧ P t)) {p : Patch}
    (hp : p.Storable forms) {fields : Document} (hf : patchDocument? forms p = some fields)
    {x : Option Nat} (serves : Serves s (.update f fields) x s') :
    (∃ t, m.get? id = some t ∧ P t ∧ x = some 1 ∧ InAccord forms b s' (m.put (p.apply t))) ∨
      (∀ t, m.get? id = some t → ¬ P t) ∧ x = some 0 ∧ s' = s := by
  cases serves with
  | update _ hs hm =>
    obtain ⟨t, ts, hdt, hr, hts, rfl, hget, hPt⟩ := h.found hP hs hm
    refine .inl ⟨t, hget, hPt, rfl, h.binding, Memory.distinct_put h.distinct _, ?_⟩
    rw [coe_tasks_put h.distinct hts (p.apply_id t)]
    exact .cons (hdt.apply hp hf) hr
  | noUpdate _ hnone => exact .inr ⟨h.notFound hP hnone, rfl, rfl⟩

theorem InAccord.delete (h : InAccord forms b s m) {f : Filter} {P : Task → Prop}
    (hP : ∀ {d t}, DocumentOf forms d t → (f.matches d = true ↔ t.id = id ∧ P t)) {x : Option Nat}
    (serves : Serves s (.delete f) x s') :
    (∃ t, m.get? id = some t ∧ P t ∧ x = some 1 ∧ InAccord forms b s' (m.erase id)) ∨
      (∀ t, m.get? id = some t → ¬ P t) ∧ x = some 0 ∧ s' = s := by
  cases serves with
  | delete hs hm =>
    obtain ⟨t, ts, hdt, hr, hts, rfl, hget, hPt⟩ := h.found hP hs hm
    refine .inl ⟨t, hget, hPt, rfl, h.binding, Memory.distinct_erase h.distinct _, ?_⟩
    rw [coe_tasks_erase h.distinct hts]
    exact hr
  | noDelete hnone => exact .inr ⟨h.notFound hP hnone, rfl, rfl⟩

theorem apply_of_isEmpty {p : Patch} (h : p.isEmpty = true) (t : Task) : p.apply t = t := by
  simp only [Patch.isEmpty, Bool.and_eq_true, Option.isNone_iff_eq_none] at h
  obtain ⟨⟨⟨⟨⟨⟨h₁, h₂⟩, h₃⟩, h₄⟩, h₅⟩, h₆⟩, h₇⟩ := h
  simp only [Patch.apply, h₁, h₂, h₃, h₄, h₅, h₆, h₇, Option.getD_none]

theorem InAccord.count (h : InAccord forms b s m) {f : Filter} {P : Task → Prop}
    (hP : ∀ {d t}, DocumentOf forms d t → (f.matches d = true ↔ t.id = id ∧ P t)) :
    (∃ t, m.get? id = some t ∧ P t ∧ 0 < (s.filter fun d => f.matches d).card) ∨
      (∀ t, m.get? id = some t → ¬ P t) ∧ (s.filter fun d => f.matches d).card = 0 := by
  rcases exists_cons_or_forall s f with ⟨d, r, hs, hm⟩ | hnone
  · obtain ⟨t, -, -, -, -, -, hget, hPt⟩ := h.found hP hs hm
    refine .inl ⟨t, hget, hPt, Multiset.card_pos_iff_exists_mem.2 ⟨d, ?_⟩⟩
    exact Multiset.mem_filter.2 ⟨hs ▸ Multiset.mem_cons_self d r, hm⟩
  · refine .inr ⟨h.notFound hP hnone, ?_⟩
    rw [Multiset.filter_eq_nil.2 hnone, Multiset.card_zero]

/-- The patch that takes a task out of the queue. -/
def cancelling : Patch := { cancelled := some true }

theorem sendable_cancelling : Sendable [("isCancelled", .bool true)] := by
  simp only [Sendable, Datum.toValue, Datum.toEntries, Value.EachObject,
    Value.EachObjectOfEntries, Entries.keys, List.map_cons, List.map_nil, List.forall_mem_cons]
  simp

theorem plain_cancelling : cancelling.Plain :=
  ⟨by simp [cancelling], by simp [cancelling], by simp [cancelling]⟩

theorem patchDocument?_cancelling :
    patchDocument? forms cancelling = some [("isCancelled", .bool true)] := by
  rw [patchDocument?_eq plain_cancelling]
  rfl

theorem storable_cancelling : cancelling.Storable forms where
  plain := plain_cancelling
  encodes := by rw [patchDocument?_cancelling]; rfl
  length := by simp [cancelling]
  guard := by simp [cancelling]

/-! ### One call on both sides -/

theorem dueOf_of_forall₂ {l : List Document} {ts : List Task}
    (h : List.Forall₂ (DocumentOf forms) l ts) :
    l.map Client.dueOf = ts.map fun t => .task (t.stored forms) := by
  induction h with
  | nil => rfl
  | cons hdt _ ih => rw [List.map_cons, List.map_cons, ih, Client.dueOf, hdt.taskOf?_eq]

theorem due_agrees (h : InAccord forms b s m) {now : Instant} {a : Store.Call.Answer (.due now)}
    (made : Executes (Client.answer forms ⟨scope, some b⟩ (.due now)) s a s') :
    Agrees (Task.stored forms) m (.due now) a ∧ s' = s := by
  obtain ⟨x, serves, rfl⟩ := executes_once made
  cases serves with
  | @find f l hl =>
    have hrel := rel_filter (p := fun d => (dueFilter now b.maxAttempts).matches d = true)
      (q := fun t => t.isDue now b.maxAttempts = true) h.documents fun d t hdt =>
        by rw [matches_dueFilter hdt.shown hdt.storable.plain]
    rw [← hl, Multiset.filter_coe] at hrel
    obtain ⟨ts, hts, hperm⟩ := exists_forall₂ hrel
    have hlist : m.Lists b now (m.dueTasks b now) := Memory.lists_dueTasks
    refine ⟨⟨_, _, rfl, (Memory.allows_due h.binding).2 ⟨_, hlist, rfl⟩, ?_⟩, rfl⟩
    rw [dueOf_of_forall₂ hts]
    have hfiltered := Multiset.coe_eq_coe.1 hperm
    simp only [Bool.decide_eq_true] at hfiltered
    exact (hfiltered.trans hlist.perm.symm).map _

theorem insert_agrees (h : InAccord forms b s m) {t : Task} (suits : Suits forms m (.insert t))
    {a : Store.Call.Answer (.insert t)}
    (made : Executes (Client.answer forms ⟨scope, some b⟩ (.insert t)) s a s') :
    Agrees (Task.stored forms) m (.insert t) a ∧ InAccord forms b s' (m.answer (.insert t)).2 := by
  obtain ⟨ht, -, hfree⟩ := suits
  obtain ⟨d, hd⟩ := exists_documentOf ht
  have hwork : Client.answer forms ⟨scope, some b⟩ (.insert t) =
      .ask (.insert d) fun x => .done (Client.orFailed id x) := by
    simp only [Client.answer, Client.whenBound, hd.eq]
    rfl
  have hanswer : m.answer (.insert t) = (.ok (), m.add t) := by
    simp [Memory.answer, Memory.whenBound, h.binding, hfree]
  obtain ⟨x, serves, rfl⟩ := executes_once (hwork ▸ made)
  cases serves
  rw [hanswer]
  refine ⟨?_, h.binding, Memory.distinct_add h.distinct hfree, .cons hd h.documents⟩
  show _ = (m.answer (.insert t)).1
  rw [hanswer]
  rfl

theorem delete_agrees (h : InAccord forms b s m) {a : Store.Call.Answer (.delete id)}
    (made : Executes (Client.answer forms ⟨scope, some b⟩ (.delete id)) s a s') :
    Agrees (Task.stored forms) m (.delete id) a ∧
      InAccord forms b s' (m.answer (.delete id)).2 := by
  obtain ⟨x, serves, rfl⟩ := executes_once made
  show _ = (Except.ok (m.get? id).isSome) ∧ InAccord forms b s' (m.erase id)
  have hP : ∀ {d t}, DocumentOf forms d t → ((idFilter id).matches d = true ↔ t.id = id ∧ True) :=
    fun hdt => (matches_idFilter hdt.shown id).trans (iff_of_eq (and_true _)).symm
  rcases h.delete hP serves with ⟨t, ht, -, rfl, hs⟩ | ⟨hno, rfl, rfl⟩
  · rw [ht]
    exact ⟨rfl, hs⟩
  · have hget : m.get? id = none := Option.eq_none_iff_forall_ne_some.2 fun t ht => hno t ht trivial
    rw [Memory.erase_of_get?_eq_none h.distinct hget, hget]
    exact ⟨rfl, h⟩

theorem mutate_agrees (h : InAccord forms b s m) {p : Patch} (hp : p.Storable forms)
    {a : Store.Call.Answer (.mutate id p)}
    (made : Executes (Client.answer forms ⟨scope, some b⟩ (.mutate id p)) s a s') :
    Agrees (Task.stored forms) m (.mutate id p) a ∧
      InAccord forms b s' (m.answer (.mutate id p)).2 := by
  show a = Except.ok (m.mutate id p).1 ∧ InAccord forms b s' (m.mutate id p).2
  have hP : ∀ {d t}, DocumentOf forms d t →
      ((mutateFilter id p).matches d = true ↔ t.id = id ∧ p.guardHolds t = true) :=
    fun hdt => matches_mutateFilter hdt id hp
  by_cases he : p.isEmpty = true
  · have hwork : Client.answer forms ⟨scope, some b⟩ (.mutate id p) =
        .ask (.count (mutateFilter id p)) fun x =>
          .done (Client.orFailed (fun n => decide (0 < n)) x) := by
      simp only [Client.answer, Client.mutate, he, if_true]
      rfl
    obtain ⟨x, serves, rfl⟩ := executes_once (hwork ▸ made)
    cases serves
    rcases h.count hP with ⟨t, ht, hg, hcard⟩ | ⟨hno, hcard⟩
    · rw [Memory.mutate_of_guardHolds ht hg, apply_of_isEmpty he, Memory.put_of_get? h.distinct ht]
      exact ⟨congrArg Except.ok (decide_eq_true hcard), h⟩
    · rw [Memory.mutate_of_not hno]
      exact ⟨congrArg Except.ok (decide_eq_false (Nat.not_lt.2 hcard.le)), h⟩
  · obtain ⟨fields, hf⟩ := Option.isSome_iff_exists.1 hp.encodes
    have hwork : Client.answer forms ⟨scope, some b⟩ (.mutate id p) =
        .ask (.update (mutateFilter id p) fields) fun x =>
          .done (Client.orFailed (fun n => decide (0 < n)) x) := by
      simp only [Client.answer, Client.mutate, he, hf]
      rfl
    obtain ⟨x, serves, rfl⟩ := executes_once (hwork ▸ made)
    rcases h.update hP hp hf serves with ⟨t, ht, hg, rfl, hs⟩ | ⟨hno, rfl, rfl⟩
    · rw [Memory.mutate_of_guardHolds ht hg]
      exact ⟨rfl, hs⟩
    · rw [Memory.mutate_of_not hno]
      exact ⟨rfl, h⟩

theorem cancel_agrees (h : InAccord forms b s m) {a : Store.Call.Answer (.cancel id)}
    (made : Executes (Client.answer forms ⟨scope, some b⟩ (.cancel id)) s a s') :
    Agrees (Task.stored forms) m (.cancel id) a ∧
      InAccord forms b s' (m.answer (.cancel id)).2 := by
  have hanswer : m.answer (.cancel id) = (.ok (m.cancel b id).1, (m.cancel b id).2) := by
    simp only [Memory.answer, Memory.whenBound, h.binding]
  show a = (m.answer (.cancel id)).1 ∧ InAccord forms b s' (m.answer (.cancel id)).2
  rw [hanswer]
  have hP : ∀ {d t}, DocumentOf forms d t →
      ((cancelFilter id).matches d = true ↔ t.id = id ∧ t.isOpen = true) :=
    fun hdt => matches_cancelFilter hdt.shown id
  by_cases hk : b.keepHistory = true
  · have hwork : Client.answer forms ⟨scope, some b⟩ (.cancel id) =
        .ask (.update (cancelFilter id) [("isCancelled", .bool true)]) fun x =>
          .done (Client.orFailed (fun n => decide (0 < n)) x) := by
      simp only [Client.answer, Client.whenBound, Client.cancel, hk, if_true]
      rfl
    obtain ⟨x, serves, rfl⟩ := executes_once (hwork ▸ made)
    rcases h.update hP storable_cancelling patchDocument?_cancelling serves with
      ⟨t, ht, ho, rfl, hs⟩ | ⟨hno, rfl, rfl⟩
    · simp only [Memory.cancel, ht, ho, hk, if_true]
      exact ⟨rfl, hs⟩
    · rw [Memory.cancel_of_not hno]
      exact ⟨rfl, h⟩
  · have hwork : Client.answer forms ⟨scope, some b⟩ (.cancel id) =
        .ask (.delete (cancelFilter id)) fun x =>
          .done (Client.orFailed (fun n => decide (0 < n)) x) := by
      simp only [Client.answer, Client.whenBound, Client.cancel, hk]
      rfl
    obtain ⟨x, serves, rfl⟩ := executes_once (hwork ▸ made)
    rcases h.delete hP serves with ⟨t, ht, ho, rfl, hs⟩ | ⟨hno, rfl, rfl⟩
    · simp only [Memory.cancel, ht, ho, hk, if_true]
      exact ⟨rfl, hs⟩
    · rw [Memory.cancel_of_not hno]
      exact ⟨rfl, h⟩

theorem sendAt?_of_documentOf {d : Document} {t : Task} (h : DocumentOf forms d t) :
    sendAt? d = some t.sendAt.ms := by
  rw [sendAt?, h.shown.sendAt]

theorem find_agrees (h : InAccord forms b s m) {r : Recipient} {before : Instant}
    {a : Store.Call.Answer (.find r before)}
    (made : Executes (Client.answer forms ⟨scope, some b⟩ (.find r before)) s a s') :
    Agrees (Task.stored forms) m (.find r before) a ∧ s' = s := by
  have hP : ∀ {d t}, DocumentOf forms d t → ((pendingFilter r before).matches d = true ↔
      t.isOpen = true ∧ t.sendAt ≤ before ∧ t.recipient.groupingKey = r.groupingKey) :=
    fun hdt => matches_pendingFilter hdt.shown hdt.storable.plain r before
  obtain ⟨x, s₁, serves, rest⟩ := executes_ask made
  cases serves with
  | @latest f d hd hm hl =>
    obtain ⟨t, ht, hdt⟩ := h.exists_task hd
    simp only [Program.done_bind, hdt.taskOf?_eq] at rest
    obtain ⟨rfl, rfl⟩ := executes_done rest
    refine ⟨⟨some t, (Memory.allows_find h.binding).2 (.inl ⟨t, ⟨?_, fun u hu => ?_⟩, rfl⟩), rfl⟩,
      rfl⟩
    · exact Memory.mem_joinable.2 ⟨ht, (hP hdt).1 hm⟩
    · obtain ⟨hu, hpending⟩ := Memory.mem_joinable.1 hu
      obtain ⟨e, he, heu⟩ := h.exists_document hu
      have hms := hl e he ((hP heu).2 hpending) _ (sendAt?_of_documentOf heu) _
        (sendAt?_of_documentOf hdt)
      exact (ms_le_ms_iff heu.storable.plain.aligned).1 hms
  | noLatest hnone =>
    obtain ⟨rfl, rfl⟩ := executes_done rest
    refine ⟨⟨none, (Memory.allows_find h.binding).2 (.inr ⟨?_, rfl⟩), rfl⟩, rfl⟩
    refine List.eq_nil_iff_forall_not_mem.2 fun t ht => ?_
    obtain ⟨ht, hpending⟩ := Memory.mem_joinable.1 ht
    obtain ⟨d, hd, hdt⟩ := h.exists_document ht
    exact hnone d hd ((hP hdt).2 hpending)

/-- **A call on both sides.** -/
theorem InAccord.call (h : InAccord forms b s m) {call : Store.Call} (suits : Suits forms m call)
    {a : call.Answer} (made : Executes (Client.answer forms ⟨scope, some b⟩ call) s a s') :
    Agrees (Task.stored forms) m call a ∧ InAccord forms b s' (m.answer call).2 := by
  cases call with
  | due now =>
    obtain ⟨ha, rfl⟩ := due_agrees h made
    refine ⟨ha, ?_⟩
    simpa only [Memory.answer, Memory.whenBound, h.binding] using h
  | look key now =>
    obtain ⟨rfl, rfl⟩ := executes_done made
    exact ⟨rfl, h⟩
  | find r before =>
    obtain ⟨ha, rfl⟩ := find_agrees h made
    refine ⟨ha, ?_⟩
    simpa only [Memory.answer, Memory.whenBound, h.binding] using h
  | insert t => exact insert_agrees h suits made
  | mutate id p => exact mutate_agrees h suits.1 made
  | delete id => exact delete_agrees h made
  | cancel id => exact cancel_agrees h made

theorem exists_executes_answer (b : Binding) (s : Collection) {call : Store.Call}
    (suits : Suits forms m call) :
    ∃ a s', Executes (Client.answer forms ⟨scope, some b⟩ call) s a s' := by
  cases call with
  | due now => exact exists_executes (exists_find s _) fun x => ⟨_, rfl⟩
  | look key now => exact ⟨_, _, .done⟩
  | find r before =>
    refine exists_executes (exists_latest s _) fun x => ?_
    rcases x with _ | _ | d
    · exact ⟨_, rfl⟩
    · exact ⟨_, rfl⟩
    · simp only [Program.done_bind]
      rcases taskOf? d with _ | t <;> exact ⟨_, rfl⟩
  | insert t =>
    obtain ⟨d, hd⟩ := Option.isSome_iff_exists.1 suits.1.encodes
    simp only [Client.answer, Client.whenBound, hd]
    exact exists_executes ⟨_, _, .insert (suits.2.1 d hd)⟩ fun x => ⟨_, rfl⟩
  | mutate id p =>
    obtain ⟨hp, hsend⟩ := suits
    obtain ⟨fields, hf⟩ := Option.isSome_iff_exists.1 hp.encodes
    by_cases he : p.isEmpty = true
    · simp only [Client.answer, Client.mutate, he, if_true]
      exact exists_executes ⟨_, _, .count⟩ fun x => ⟨_, rfl⟩
    · simp only [Client.answer, Client.mutate, he, hf]
      exact exists_executes (exists_update s _ (hsend fields hf)) fun x => ⟨_, rfl⟩
  | delete id => exact exists_executes (exists_delete s _) fun x => ⟨_, rfl⟩
  | cancel id =>
    by_cases hk : b.keepHistory = true
    · simp only [Client.answer, Client.whenBound, Client.cancel, hk, if_true]
      exact exists_executes (exists_update s _ sendable_cancelling) fun x => ⟨_, rfl⟩
    · simp only [Client.answer, Client.whenBound, Client.cancel, hk]
      exact exists_executes (exists_delete s _) fun x => ⟨_, rfl⟩

theorem Together.inAccord (h : Together forms scope b s m) : InAccord forms b s m := by
  induction h with
  | empty => exact ⟨rfl, List.nodup_nil, .zero⟩
  | call _ suits made ih => exact (ih.call suits made).2

end

/-! ### In accord -/

/-- The filters and the fields that are set say of a document what the rules say of its task. -/
structure SameRules (forms : Forms) (d : Document) (t : Task) : Prop where
  mutate : ∀ id p, p.Storable forms →
    ((mutateFilter id p).matches d = true ↔ t.id = id ∧ p.guardHolds t = true)
  due : ∀ now maxAttempts,
    (dueFilter now maxAttempts).matches d = true ↔ t.isDue now maxAttempts = true
  pending : ∀ r before, (pendingFilter r before).matches d = true ↔
    t.isOpen = true ∧ t.sendAt ≤ before ∧ t.recipient.groupingKey = r.groupingKey
  cancel : ∀ id, (cancelFilter id).matches d = true ↔ t.id = id ∧ t.isOpen = true
  update : ∀ p fields, p.Storable forms → patchDocument? forms p = some fields →
    taskDocument? forms (p.apply t) = some (putAll d fields)

theorem DocumentOf.sameRules {forms : Forms} {d : Document} {t : Task}
    (h : DocumentOf forms d t) : SameRules forms d t where
  mutate id _ hp := matches_mutateFilter h id hp
  due now maxAttempts := by rw [matches_dueFilter h.shown h.storable.plain]
  pending r before := matches_pendingFilter h.shown h.storable.plain r before
  cancel id := matches_cancelFilter h.shown id
  update _ _ hp hf := (h.apply hp hf).eq

/-- **The two stores are in accord**, whatever the reserved forms are. On the document of a task the
filters and the fields that are set say what the rules say of the task. So in any sequence of calls
the server keeps the documents of the tasks that a store in memory keeps, each call comes to an end,
and whatever the server chooses, the client answers what the store in memory answers, with each task
as it is read from its document: as it is, if it holds no object of a reserved form. -/
theorem in_accord (forms : Forms) :
    (∀ d t, t.Storable forms → taskDocument? forms t = some d → SameRules forms d t) ∧
      (∀ scope b s m, Together forms scope b s m → InAccord forms b s m ∧
        ∀ call, Suits forms m call →
          (∃ a s', Executes (Client.answer forms ⟨scope, some b⟩ call) s a s') ∧
            ∀ a s', Executes (Client.answer forms ⟨scope, some b⟩ call) s a s' →
              Agrees (Task.stored forms) m call a ∧ InAccord forms b s' (m.answer call).2) ∧
        ∀ t : Task, t.Storable forms → t.Ordinary → t.stored forms = t := by
  refine ⟨fun d t ht hd => (DocumentOf.mk ht hd).sameRules, fun scope b s m h => ?_,
    fun t ht ho => ht.plain.stored_eq ho⟩
  refine ⟨h.inAccord, fun call suits => ⟨exists_executes_answer b s suits, fun a s' made => ?_⟩⟩
  exact h.inAccord.call suits made

namespace Accord

def binding : Binding := ⟨3, true, true⟩

/-- A task with a further field in its only mail. -/
def carrying (v : Value) : Task := .new ⟨1⟩ ((Mail.new (.one "a@x.org")).field "size" v) .epoch

def document (i : Int) : Document :=
  [("uuid", .text (TaskId.text ⟨1⟩)), ("to", .text "a@x.org"), ("tries", .int 0),
    ("sendAt", .int 0), ("isSent", .bool false), ("isCancelled", .bool false),
    ("isFailed", .bool false), ("transport", .int 0),
    ("mailOptions", .list [.document [("to", .text "a@x.org"), ("size", .int i)]]),
    (recipientKey, .text "a@x.org")]

theorem sendable_document (i : Int) : Sendable (document i) := by
  simp only [Sendable, document, recipientKey, Datum.toValue, Datum.toEntries, Datum.toItems,
    Value.EachObject, Value.EachObjectOfEntries, Value.EachObjectOfItems, Entries.keys,
    List.map_cons, List.map_nil, List.forall_mem_cons]
  simp

section

variable {v : Value} {i : Int} (h : v.Lawful)
  (hd : taskDocument? .integers (carrying v) = some (document i))

include h hd

theorem storable_carrying : (carrying v).Storable .integers where
  plain := by
    refine ⟨rfl, Nat.zero_lt_succ _, fun m hm => ?_⟩
    obtain rfl := List.mem_singleton.1 hm
    have hname : "size" ∉ Mail.knownKeys := by decide
    exact ⟨List.forall_mem_singleton.2 hname, h, trivial⟩
  encodes := by rw [hd]; rfl
  length := by simp [carrying, Task.new]

theorem together_carrying :
    Together .integers "" binding (document i ::ₘ 0) ⟨[carrying v], some binding⟩ := by
  have hsend := sendable_document i
  have suits : Suits .integers { binding := some binding } (.insert (carrying v)) :=
    ⟨storable_carrying h hd, fun d hd' => Option.some.inj (hd.symm.trans hd') ▸ hsend, rfl⟩
  have made : Executes (Client.answer .integers ⟨"", some binding⟩ (.insert (carrying v))) 0
      (.ok ()) (document i ::ₘ 0) := by
    simp only [Client.answer, Client.whenBound, hd]
    exact .ask (.insert hsend) .done
  exact .call .empty suits made

end

theorem lawful_int : (Value.int 3).Lawful := ⟨by decide, by decide⟩

theorem suits_claim : Suits .integers ⟨[carrying (.int 3)], some binding⟩
    (.mutate ⟨1⟩ (.claim 0 1)) := by
  refine ⟨⟨⟨by simp [Patch.claim], by simp [Patch.claim], by simp [Patch.claim]⟩, rfl,
    by simp [Patch.claim], by simp [Patch.claim]⟩, fun fields hf => ?_⟩
  obtain rfl : [("tries", Datum.int 1), ("isSent", .bool true)] = fields := Option.some.inj hf
  simp only [Sendable, Datum.toValue, Datum.toEntries, Value.EachObject,
    Value.EachObjectOfEntries, Entries.keys, List.map_cons, List.map_nil, List.forall_mem_cons]
  simp

end Accord

open Accord in
theorem in_accord_claimed : SameRules .integers (document 3) (carrying (.int 3)) ∧
    (∃ a s', Executes (Client.answer .integers ⟨"", some binding⟩ (.mutate ⟨1⟩ (.claim 0 1)))
      (document 3 ::ₘ 0) a s') ∧
    (∀ a s', Executes (Client.answer .integers ⟨"", some binding⟩ (.mutate ⟨1⟩ (.claim 0 1)))
      (document 3 ::ₘ 0) a s' → a = .ok true) ∧
    (carrying (.int 3)).stored .integers = carrying (.int 3) := by
  obtain ⟨rules, history, ordinary⟩ := in_accord .integers
  obtain ⟨-, calls⟩ := history "" binding _ _ (together_carrying lawful_int rfl)
  obtain ⟨ends, agrees⟩ := calls (.mutate ⟨1⟩ (.claim 0 1)) suits_claim
  have hstorable := storable_carrying lawful_int (i := 3) rfl
  exact ⟨rules _ _ hstorable rfl, ends, fun a s' made => (agrees a s' made).1,
    ordinary _ hstorable (List.forall_mem_singleton.2 (List.forall_mem_singleton.2 trivial))⟩

/-! ### An object of a reserved form -/

/-- Whatever the server chooses, the client answers what the store in memory answers. -/
def InAccordAlways : Prop :=
  ∀ forms scope b s m, Together forms scope b s m → ∀ call, Suits forms m call →
    ∀ a s', Executes (Client.answer forms ⟨scope, some b⟩ call) s a s' → Agrees id m call a

namespace Accord

/-- An object that stands for an integer. -/
def long : Value := .object [("$numberLong", .text "5")]

theorem lawful_long : long.Lawful := by
  simp [long, Value.Lawful, Value.LawfulEntries, Entries.keys]

theorem stored_long : (carrying long).stored .integers = carrying (.int 5) := rfl

theorem carrying_injective {v w : Value} (h : carrying v = carrying w) : v = w := by
  have hentries : [[("size", v)]] = [[("size", w)]] :=
    congrArg (fun t => t.fragments.map fun m => m.extra.entries) h
  simpa using hentries

end Accord

open Accord in
/-- An object that stands for an integer is listed as the integer. -/
theorem not_inAccordAlways : ¬InAccordAlways := by
  intro h
  have htogether := together_carrying lawful_long (i := 5) rfl
  have hsuits : Suits .integers ⟨[carrying long], some binding⟩ (.due .epoch) := trivial
  obtain ⟨a, s', made⟩ : ∃ a s', Executes
      (Client.answer .integers ⟨"", some binding⟩ (.due .epoch)) (document 5 ::ₘ 0) a s' :=
    exists_executes_answer binding _ hsuits
  obtain ⟨l, ts, rfl, hts, hl⟩ := (htogether.inAccord.call hsuits made).1
  obtain ⟨l', ts', hl', hts', hl''⟩ := h _ _ _ _ _ htogether _ hsuits _ s' made
  obtain rfl := Except.ok.inj hl'
  -- the task is due, so that it is listed as it is read from its document
  have hdue : (carrying long).isDue .epoch binding.maxAttempts = true := by decide
  have hlisted : Store.Due.task ((carrying long).stored .integers) ∈ l := by
    obtain ⟨due, hlists, heq⟩ := (Memory.allows_due htogether.inAccord.binding).1 hts
    have hmem : Store.Due.task (carrying long) ∈ ts.map Store.Due.task :=
      Except.ok.inj heq ▸
        List.mem_map_of_mem (hlists.mem_iff.2 ⟨List.mem_singleton_self _, hdue⟩)
    obtain ⟨t, ht, he⟩ := List.mem_map.1 hmem
    obtain rfl := Store.Due.task.inj he
    exact hl.mem_iff.2 (List.mem_map.2 ⟨_, ht, rfl⟩)
  -- and the store in memory has no such task
  obtain ⟨u, hu, hread⟩ := List.mem_map.1 (hl''.mem_iff.1 hlisted)
  obtain ⟨b, -, hmem, -⟩ := Memory.mem_of_due hts' (List.mem_map_of_mem hu)
  obtain rfl := List.mem_singleton.1 hmem
  have hsame : carrying long = (carrying long).stored .integers := Store.Due.task.inj hread
  cases carrying_injective (hsame.trans stored_long)

end MailQueue.Documents
