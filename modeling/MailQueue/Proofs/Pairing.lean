import MailQueue.Proofs.Compile.Alike

/-!
# Lists paired off

The comparison of two lists takes, for each item, the first partner that is still free. Here it is
told without that search: the positions of the two lists stand in a bijection with items to the same
effect at partner positions. A partner that was taken early is therefore never missed later, and the
order of the lists does not matter.

* `rel_iff_exists_equiv` turns a pairing of multisets into a bijection between positions, with
  `exists_equiv_of_perm` for the step from one order to another;
* `Value.PairedOff` is such a bijection, and `Value.listsEquivalent_iff` says that the search finds
  one whenever there is one;
* `Value.equivalence` says what the comparison is on values, lists and fields.
-/

namespace MailQueue

section Positions

variable {α β : Type} {r : α → β → Prop}

theorem exists_equiv_of_perm {l l' : List α} (h : l.Perm l') :
    ∃ e : Fin l.length ≃ Fin l'.length, ∀ i, l.get i = l'.get (e i) := by
  induction h with
  | nil => exact ⟨Equiv.refl _, fun i => rfl⟩
  | @cons x l l' _ ih =>
    obtain ⟨e, he⟩ := ih
    refine ⟨(finSuccEquiv _).trans ((Equiv.optionCongr e).trans (finSuccEquiv _).symm), ?_⟩
    intro i
    refine Fin.cases ?_ (fun i => ?_) i
    · simp
    · simpa using he i
  | @swap x y l =>
    refine ⟨Equiv.swap 0 1, fun i => ?_⟩
    refine Fin.cases ?_ (fun i => Fin.cases ?_ (fun i => ?_) i) i
    · simp
    · simp
    · rw [Equiv.swap_apply_of_ne_of_ne (by simp) (by simp [Fin.ext_iff])]
      rfl
  | trans _ _ ih ih' =>
    obtain ⟨e, he⟩ := ih
    obtain ⟨e', he'⟩ := ih'
    exact ⟨e.trans e', fun i => (he i).trans (he' (e i))⟩

/-- A pairing of multisets orders the second list like the first. -/
theorem exists_forall₂_of_rel {a : List α} {b : List β} (h : Multiset.Rel r a b) :
    ∃ l : List β, List.Forall₂ r a l ∧ l.Perm b := by
  induction a generalizing b with
  | nil =>
    rw [Multiset.coe_nil, Multiset.rel_zero_left, Multiset.coe_eq_zero] at h
    exact ⟨[], .nil, by rw [h]⟩
  | cons x a ih =>
    rw [← Multiset.cons_coe, Multiset.rel_cons_left] at h
    obtain ⟨y, t, hxy, ht, hb⟩ := h
    induction t using Quotient.inductionOn with
    | h t =>
      obtain ⟨l, hl, hperm⟩ := ih ht
      exact ⟨y :: l, .cons hxy hl, (hperm.cons y).trans (Multiset.coe_eq_coe.1 hb.symm)⟩

theorem coe_eq_map_get (l : List α) :
    (l : Multiset α) = (Finset.univ : Finset (Fin l.length)).val.map l.get := by
  rw [Fin.univ_val_map, List.ofFn_get]

/-- **Two multisets are paired off if and only if the positions of their lists are.** -/
theorem rel_iff_exists_equiv {a : List α} {b : List β} :
    Multiset.Rel r a b ↔
      ∃ e : Fin a.length ≃ Fin b.length, ∀ i, r (a.get i) (b.get (e i)) := by
  constructor
  · intro h
    obtain ⟨l, hl, hperm⟩ := exists_forall₂_of_rel h
    obtain ⟨e, he⟩ := exists_equiv_of_perm hperm
    refine ⟨(finCongr hl.length_eq).trans e, fun i => ?_⟩
    rw [Equiv.trans_apply, ← he]
    exact hl.get i.2 _
  · rintro ⟨e, he⟩
    have hb : (b : Multiset β) = Finset.univ.val.map fun i => b.get (e i) := by
      rw [coe_eq_map_get b, ← Finset.map_univ_equiv e, Finset.map_val, Multiset.map_map]
      rfl
    rw [coe_eq_map_get a, hb, Multiset.rel_map]
    exact Multiset.rel_refl_of_refl_on fun i _ => he i

end Positions

namespace Value

variable {a a' b b' : List Value}

/-- A bijection between the positions of two lists with items to the same effect at partner
positions. -/
def PairedOff (a b : List Value) : Prop :=
  ∃ e : Fin a.length ≃ Fin b.length, ∀ i, (a.get i).equivalent (b.get (e i)) = true

theorem shallow_of_lawful {n : Nat} {l : List Value} (hl : ∀ v ∈ l, v.Lawful)
    (hn : depthItems l ≤ n) : ∀ v ∈ l, Shallow (n + 1) v := fun v hv =>
  ⟨hl v hv, Nat.lt_succ_of_le ((depthItems_le_iff.1 (Nat.le_refl _) v hv).trans hn)⟩

/-- **The search finds a pairing whenever there is one.** -/
theorem listsEquivalent_iff (ha : ∀ v ∈ a, v.Lawful) (hb : ∀ v ∈ b, v.Lawful) :
    listsEquivalent a b = true ↔ PairedOff a b := by
  have hsa := shallow_of_lawful ha (Nat.le_max_left _ (depthItems b))
  have hsb := shallow_of_lawful hb (Nat.le_max_right (depthItems a) _)
  obtain ⟨symm, trans⟩ := alike_symm_trans (max (depthItems a) (depthItems b) + 1)
  rw [listsEquivalent, equivalent, Bool.and_eq_true, beq_iff_eq, items_iff symm trans hsa hsb,
    rel_iff_exists_equiv]
  refine exists_congr fun e => forall_congr' fun i => ?_
  exact ⟨fun h => h.2.2, fun h => ⟨hsa _ (a.get_mem i), hsb _ (b.get_mem _), h⟩⟩

theorem PairedOff.of_perm (h : PairedOff a b) (ha : a'.Perm a) (hb : b.Perm b') :
    PairedOff a' b' := by
  obtain ⟨e, he⟩ := h
  obtain ⟨ea, hea⟩ := exists_equiv_of_perm ha
  obtain ⟨eb, heb⟩ := exists_equiv_of_perm hb
  refine ⟨(ea.trans e).trans eb, fun i => ?_⟩
  rw [hea, Equiv.trans_apply, ← heb]
  exact he (ea i)

theorem listsEquivalent_of_perm (ha : ∀ v ∈ a, v.Lawful) (hb : ∀ v ∈ b, v.Lawful)
    (hpa : a'.Perm a) (hpb : b'.Perm b) : listsEquivalent a' b' = listsEquivalent a b := by
  have ha' : ∀ v ∈ a', v.Lawful := fun v hv => ha v (hpa.subset hv)
  have hb' : ∀ v ∈ b', v.Lawful := fun v hv => hb v (hpb.subset hv)
  rw [Bool.eq_iff_iff, listsEquivalent_iff ha' hb', listsEquivalent_iff ha hb]
  exact ⟨fun h => h.of_perm hpa.symm hpb, fun h => h.of_perm hpa hpb.symm⟩

end Value

namespace Fields

/-- Fields are to the same effect if they have the same keys with values to the same effect. -/
theorem equivalent_iff {p q : Payload} :
    p.equivalent q = true ↔ (∀ k, k ∈ p.keys ↔ k ∈ q.keys) ∧
      ∀ k v w, p.get? k = some v → q.get? k = some w → v.equivalent w = true := by
  have hkeys : ∀ {f : Payload} {k : String}, k ∈ f.keys ↔ f.get? k ≠ none := by
    intro f k
    rw [Ne, get?, Entries.get?_eq_none_iff, not_not, keys]
  simp only [equivalent_iff_akin, hkeys]
  constructor
  · intro h
    refine ⟨fun k => not_congr (h k).eq_none_iff, fun k v w hv hw => ?_⟩
    have hk := h k
    rw [hv, hw] at hk
    obtain ⟨w', hw', hvw⟩ := hk.exists_of_some
    rwa [Option.some.inj hw']
  · rintro ⟨hk, hvalues⟩ k
    rcases hp : p.get? k with _ | v <;> rcases hq : q.get? k with _ | w
    · exact .none
    · exact absurd hp ((hk k).2 (by simp [hq]))
    · exact absurd hq ((hk k).1 (by simp [hp]))
    · exact .some (hvalues k v w hp hq)

end Fields

namespace Value

/-- **What the comparison is**: an equivalence of values, lists being paired off by position in
whatever order they stand, and fields key by key. -/
theorem equivalence :
    Equivalence (fun v w : {v : Value // v.Lawful} => v.1.equivalent w.1 = true) ∧
      (∀ a b : List Value, (∀ v ∈ a, v.Lawful) → (∀ v ∈ b, v.Lawful) →
        (listsEquivalent a b = true ↔ PairedOff a b) ∧
          ∀ a' b', a'.Perm a → b'.Perm b → listsEquivalent a' b' = listsEquivalent a b) ∧
      ∀ p q : Payload, p.equivalent q = true ↔ (∀ k, k ∈ p.keys ↔ k ∈ q.keys) ∧
        ∀ k v w, p.get? k = some v → q.get? k = some w → v.equivalent w = true := by
  refine ⟨⟨fun v => ?_, fun {v w} h => ?_, fun {v w x} h h' => ?_⟩, fun a b ha hb => ?_,
    fun p q => Fields.equivalent_iff⟩
  · exact equivalent_refl v.2
  · exact equivalent_symm v.2 w.2 h
  · exact equivalent_trans v.2 w.2 x.2 h h'
  · exact ⟨listsEquivalent_iff ha hb, fun a' b' => listsEquivalent_of_perm ha hb⟩

/-- The first item takes the first of the other list, and the last one moves into its place. -/
theorem equivalence_turned :
    let a : List Value := [list [int 1, text "x"], null, list [int 1, int 1]]
    let b : List Value := [list [text "x", int 1], list [int 1, int 1], null]
    (∀ v ∈ a, v.Lawful) ∧ (∀ v ∈ b, v.Lawful) ∧ listsEquivalent a b = true ∧ PairedOff a b := by
  intro a b
  have ha : ∀ v ∈ a, v.Lawful := lawfulItems_iff.1 (by simp [a, LawfulItems, Lawful, UInt64.size])
  have hb : ∀ v ∈ b, v.Lawful := lawfulItems_iff.1 (by simp [b, LawfulItems, Lawful, UInt64.size])
  have hab : listsEquivalent a b = true := by decide
  exact ⟨ha, hb, hab, ((equivalence.2.1 a b ha hb).1).1 hab⟩

end Value

end MailQueue
