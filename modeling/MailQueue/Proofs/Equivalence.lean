import MailQueue.Proofs.Letter
import Mathlib

/-!
# Mails to the same effect

The comparison that finds a mail queued already takes, for each item of a list, the first partner
that fits and is still free. That this finds a pairing whenever there is one, and so that the
comparison does not depend on which of two mails came first, needs the comparison of the items to
be symmetric and transitive; both are shown at once, by induction on the depth of the values.

* `Value.Alike n` is the comparison on the values of depth `n` that a program can hold;
* `Value.items_iff`: the items of two lists are paired off if and only if a pairing exists;
* `Value.alike_symm_trans`: the comparison is symmetric and transitive;
* `Mail.equivalent_refl`, `Mail.equivalent_symm` and `Mail.equivalent_trans` are what it comes to
  for mails.
-/

namespace MailQueue

theorem closeGap_perm {α : Type} (l : List α) : (closeGap l).Perm l := by
  cases l with
  | nil => exact List.Perm.refl _
  | cons x l =>
    rw [closeGap]
    refine (List.perm_append_singleton _ _).symm.trans ?_
    rw [List.dropLast_append_getLast]

theorem takeFirst_eq_some {α : Type} {test : α → Bool} {l left : List α}
    (h : takeFirst test l = some left) :
    ∃ y, test y = true ∧ (l : Multiset α) = y ::ₘ (left : Multiset α) := by
  induction l generalizing left with
  | nil => cases h
  | cons x l ih =>
    simp only [takeFirst] at h
    split at h
    · next hx =>
      obtain rfl := Option.some.inj h
      refine ⟨x, hx, ?_⟩
      rw [← Multiset.cons_coe, Multiset.coe_eq_coe.2 (closeGap_perm l)]
    · obtain ⟨left', hl, rfl⟩ := Option.map_eq_some_iff.1 h
      obtain ⟨y, hy, he⟩ := ih hl
      refine ⟨y, hy, ?_⟩
      rw [← Multiset.cons_coe, he, ← Multiset.cons_coe, Multiset.cons_swap]

theorem takeFirst_eq_none {α : Type} {test : α → Bool} {l : List α}
    (h : takeFirst test l = none) : ∀ y ∈ l, test y = false := by
  induction l with
  | nil => simp
  | cons x l ih =>
    simp only [takeFirst] at h
    split at h
    · cases h
    · next hx =>
      intro y hy
      rcases List.mem_cons.1 hy with rfl | hy
      · simpa using hx
      · exact ih (Option.map_eq_none_iff.1 h) y hy

namespace Value

/-! ### Scalars -/

theorem float_beq_iff (x y : Float) : (x == y) = true ↔
    x.toModel.unpack ≠ .notANumber ∧ y.toModel.unpack ≠ .notANumber ∧
      (x.toModel.unpack = y.toModel.unpack ∨
        x.toModel.unpack = .zero .positive ∧ y.toModel.unpack = .zero .negative ∨
        x.toModel.unpack = .zero .negative ∧ y.toModel.unpack = .zero .positive) :=
  Float.Model.UnpackedFloat.beq_iff_ne_notANumber_and_eq _ _

theorem float_beq_symm {x y : Float} (h : (x == y) = true) : (y == x) = true := by
  rw [float_beq_iff] at h ⊢
  obtain ⟨hx, hy, h | h | h⟩ := h
  · exact ⟨hy, hx, .inl h.symm⟩
  · exact ⟨hy, hx, .inr (.inr h.symm)⟩
  · exact ⟨hy, hx, .inr (.inl h.symm)⟩

theorem float_beq_trans {x y z : Float} (h : (x == y) = true) (h' : (y == z) = true) :
    (x == z) = true := by
  rw [float_beq_iff] at h h' ⊢
  obtain ⟨hx, hy, h⟩ := h
  obtain ⟨-, hz, h'⟩ := h'
  refine ⟨hx, hz, ?_⟩
  rcases h with h | ⟨h, hy⟩ | ⟨h, hy⟩ <;> rcases h' with h' | ⟨hy', h'⟩ | ⟨hy', h'⟩ <;> simp_all

theorem sameScalar_symm {v w : Value} (h : sameScalar v w = true) : sameScalar w v = true := by
  cases v <;> cases w <;> simp only [sameScalar, beq_iff_eq, Bool.false_eq_true] at h ⊢
  case float.float => exact float_beq_symm h
  all_goals exact h.symm

theorem sameScalar_trans {v w x : Value} (h : sameScalar v w = true)
    (h' : sameScalar w x = true) : sameScalar v x = true := by
  cases v <;> cases w <;> simp only [sameScalar, beq_iff_eq, Bool.false_eq_true] at h <;>
    cases x <;> simp only [sameScalar, beq_iff_eq, Bool.false_eq_true] at h' ⊢
  case float.float.float => exact float_beq_trans h h'
  all_goals exact h.trans h'

/-! ### The comparison up to a depth -/

/-- A value that a program can hold, less deep than this. -/
def Shallow (n : Nat) (v : Value) : Prop := v.Lawful ∧ v.depth < n

/-- Two such values to the same effect. -/
def Alike (n : Nat) (v w : Value) : Prop := Shallow n v ∧ Shallow n w ∧ v.equivalent w = true

section Items

variable {n : Nat} {a b c : List Value}

/-- A pairing that exists can be changed so that a certain partner is free. -/
theorem rel_of_partners (symm : ∀ {v w}, Alike n v w → Alike n w v)
    (trans : ∀ {v w x}, Alike n v w → Alike n w x → Alike n v x) {v w w' : Value}
    {s t : Multiset Value} (hw : Alike n v w) (hw' : Alike n v w')
    (h : Multiset.Rel (Alike n) s (w ::ₘ t)) : Multiset.Rel (Alike n) s (w' ::ₘ t) := by
  obtain ⟨z, s', hz, hs, rfl⟩ := Multiset.rel_cons_right.1 h
  exact Multiset.Rel.cons (trans hz (trans (symm hw) hw')) hs

theorem exists_partner {v : Value} {left : List Value} (hv : Shallow n v)
    (hb : ∀ w ∈ b, Shallow n w) (h : takeFirst v.equivalent b = some left) :
    ∃ y, Alike n v y ∧ (b : Multiset Value) = y ::ₘ (left : Multiset Value) ∧
      (∀ w ∈ left, Shallow n w) ∧ b.length = left.length + 1 := by
  obtain ⟨y, hy, hby⟩ := takeFirst_eq_some h
  have hmem : ∀ w, w ∈ y ::ₘ (left : Multiset Value) → Shallow n w := by
    intro w hw
    rw [← hby] at hw
    exact hb w hw
  have hlen : b.length = left.length + 1 := by
    simpa using congrArg Multiset.card hby
  exact ⟨y, ⟨hv, hmem y (Multiset.mem_cons_self ..), hy⟩, hby,
    fun w hw => hmem w (Multiset.mem_cons_of_mem hw), hlen⟩

/-- **The items of two lists are paired off if and only if a pairing exists.** -/
theorem items_iff (symm : ∀ {v w}, Alike n v w → Alike n w v)
    (trans : ∀ {v w x}, Alike n v w → Alike n w x → Alike n v x)
    (ha : ∀ v ∈ a, Shallow n v) (hb : ∀ v ∈ b, Shallow n v) :
    (a.length = b.length ∧ equivalentItems a b = true) ↔ Multiset.Rel (Alike n) a b := by
  induction a generalizing b with
  | nil =>
    rw [Multiset.coe_nil, Multiset.rel_zero_left, Multiset.coe_eq_zero]
    constructor
    · rintro ⟨hl, -⟩
      exact List.length_eq_zero_iff.1 hl.symm
    · rintro rfl
      exact ⟨rfl, by simp [equivalentItems]⟩
  | cons v a ih =>
    obtain ⟨hv, ha⟩ := List.forall_mem_cons.1 ha
    rw [← Multiset.cons_coe, Multiset.rel_cons_left, equivalentItems]
    constructor
    · rintro ⟨hl, he⟩
      split at he
      · next left hleft =>
        obtain ⟨y, hvy, hby, hshallow, hlen⟩ := exists_partner hv hb hleft
        rw [hlen, List.length_cons] at hl
        exact ⟨y, left, hvy, (ih ha hshallow).1 ⟨Nat.succ.inj hl, he⟩, hby⟩
      · cases he
    · rintro ⟨w, t, hw, ht, hbw⟩
      split
      · next left hleft =>
        obtain ⟨y, hvy, hby, hshallow, hlen⟩ := exists_partner hv hb hleft
        -- what is left when the first partner is taken can be paired off as well
        have hleft' : Multiset.Rel (Alike n) a left := by
          rcases Multiset.cons_eq_cons.1 (hbw.symm.trans hby) with ⟨-, rfl⟩ | ⟨-, u, rfl, hu⟩
          · exact ht
          · rw [hu]
            exact rel_of_partners symm trans hvy hw ht
        obtain ⟨hl, he⟩ := (ih ha hshallow).2 hleft'
        exact ⟨by rw [List.length_cons, hl, hlen], he⟩
      · next hnone =>
        have hwb : w ∈ (b : Multiset Value) := by
          rw [hbw]
          exact Multiset.mem_cons_self ..
        have := takeFirst_eq_none hnone w hwb
        rw [hw.2.2] at this
        cases this

end Items

section Entries

variable {a b : Entries Value}

theorem equivalentEntries_iff : equivalentEntries a b = true ↔
    ∀ e ∈ a, ∃ w, b.get? e.1 = some w ∧ e.2.equivalent w = true := by
  induction a with
  | nil => simp [equivalentEntries]
  | cons e a ih =>
    obtain ⟨k, v⟩ := e
    rw [equivalentEntries, Bool.and_eq_true, ih, List.forall_mem_cons]
    refine and_congr_left fun _ => ?_
    rcases b.get? k with _ | w <;> simp

/-- Objects with each key once and equally many of them, one of which has the keys of the other. -/
theorem keys_subset_of_length (ha : a.keys.Nodup) (hl : a.length = b.length)
    (h : ∀ e ∈ a, ∃ w, b.get? e.1 = some w) : b.keys ⊆ a.keys := by
  have hsub : a.keys ⊆ b.keys := by
    intro k hk
    obtain ⟨e, he, rfl⟩ := List.mem_map.1 hk
    obtain ⟨w, hw⟩ := h e he
    exact List.mem_map.2 ⟨(e.1, w), Entries.mem_of_get? hw, rfl⟩
  have hlen : b.keys.length ≤ a.keys.length := by simp [Entries.keys, hl]
  exact ((List.subperm_of_subset ha hsub).perm_of_length_le hlen).symm.subset

end Entries

/-! ### Symmetry and transitivity -/

theorem cases_of_equivalent {v w : Value} (h : v.equivalent w = true) :
    (∃ a b, v = list a ∧ w = list b ∧ a.length = b.length ∧ equivalentItems a b = true) ∨
      (∃ a b, v = object a ∧ w = object b ∧ a.length = b.length ∧
        equivalentEntries a b = true) ∨ sameScalar v w = true := by
  cases v <;> cases w <;>
    simp only [equivalent, Bool.and_eq_true, beq_iff_eq, sameScalar, Bool.false_eq_true] at h
  case list.list a b => exact .inl ⟨a, b, rfl, rfl, h⟩
  case object.object a b => exact .inr (.inl ⟨a, b, rfl, rfl, h⟩)
  all_goals exact .inr (.inr (by simp_all [sameScalar]))

theorem equivalent_of_sameScalar {v w : Value} (h : sameScalar v w = true) :
    v.equivalent w = true := by
  cases v <;> cases w <;> simp_all [sameScalar, equivalent]

theorem shallow_list {n : Nat} {a : List Value} (h : Shallow (n + 1) (list a)) :
    ∀ v ∈ a, Shallow n v := by
  obtain ⟨hl, hd⟩ := h
  simp only [Lawful, depth, lawfulItems_iff] at hl hd
  intro v hv
  have := depthItems_le_iff.1 (Nat.le_refl (depthItems a)) v hv
  exact ⟨hl v hv, by omega⟩

theorem shallow_object {n : Nat} {a : List (String × Value)} (h : Shallow (n + 1) (object a)) :
    (Entries.keys a).Nodup ∧ ∀ e ∈ a, Shallow n e.2 := by
  obtain ⟨hl, hd⟩ := h
  simp only [Lawful, depth, lawfulEntries_iff] at hl hd
  refine ⟨hl.1, fun e he => ?_⟩
  have := depthEntries_le_iff.1 (Nat.le_refl (depthEntries a)) e he
  exact ⟨hl.2 e he, by omega⟩

section Step

variable {n : Nat} (symm : ∀ {v w}, Alike n v w → Alike n w v)
  (trans : ∀ {v w x}, Alike n v w → Alike n w x → Alike n v x)

include symm trans

theorem alike_succ_symm {v w : Value} (h : Alike (n + 1) v w) : Alike (n + 1) w v := by
  obtain ⟨hv, hw, he⟩ := h
  refine ⟨hw, hv, ?_⟩
  rcases cases_of_equivalent he with ⟨a, b, rfl, rfl, h⟩ | ⟨a, b, rfl, rfl, hl, h⟩ | h
  · have ha := shallow_list hv
    have hb := shallow_list hw
    have hrel := Multiset.rel_flip.2 ((items_iff symm trans ha hb).1 h)
    have hrel' : Multiset.Rel (Alike n) b a := hrel.mono fun _ _ _ _ h => symm h
    obtain ⟨hl', h'⟩ := (items_iff symm trans hb ha).2 hrel'
    simp [equivalent, hl', h']
  · obtain ⟨hna, ha⟩ := shallow_object hv
    obtain ⟨hnb, hb⟩ := shallow_object hw
    rw [equivalentEntries_iff] at h
    have hkeys := keys_subset_of_length hna hl fun e he => (h e he).imp fun _ hw => hw.1
    have hback : equivalentEntries b a = true := by
      rw [equivalentEntries_iff]
      intro e he
      obtain ⟨d, hd, hk⟩ := List.mem_map.1 (hkeys (List.mem_map_of_mem he))
      obtain ⟨w, hw, hdw⟩ := h d hd
      rw [hk, Entries.get?_of_mem hnb he] at hw
      obtain rfl := Option.some.inj hw
      exact ⟨d.2, hk ▸ Entries.get?_of_mem hna hd, (symm ⟨ha d hd, hb e he, hdw⟩).2.2⟩
    simp [equivalent, hl, hback]
  · exact equivalent_of_sameScalar (sameScalar_symm h)

theorem alike_succ_trans {v w x : Value} (h : Alike (n + 1) v w) (h' : Alike (n + 1) w x) :
    Alike (n + 1) v x := by
  obtain ⟨hv, hw, he⟩ := h
  obtain ⟨-, hx, he'⟩ := h'
  refine ⟨hv, hx, ?_⟩
  rcases cases_of_equivalent he with ⟨a, b, rfl, rfl, h⟩ | ⟨a, b, rfl, rfl, hl, h⟩ | h
  · rcases cases_of_equivalent he' with ⟨b', c, hb', rfl, h'⟩ | ⟨b', c, hb', -⟩ | h'
    · obtain rfl := list.inj hb'
      have ha := shallow_list hv
      have hb := shallow_list hw
      have hc := shallow_list hx
      have : IsTrans Value (Alike n) := ⟨fun _ _ _ => trans⟩
      have hrel := ((items_iff symm trans ha hb).1 h).trans _ ((items_iff symm trans hb hc).1 h')
      obtain ⟨hl', h'⟩ := (items_iff symm trans ha hc).2 hrel
      simp [equivalent, hl', h']
    · cases hb'
    · simp [sameScalar] at h'
  · rcases cases_of_equivalent he' with ⟨b', c, hb', -⟩ | ⟨b', c, hb', rfl, hl', h'⟩ | h'
    · cases hb'
    · obtain rfl := object.inj hb'
      obtain ⟨-, ha⟩ := shallow_object hv
      obtain ⟨-, hb⟩ := shallow_object hw
      obtain ⟨-, hc⟩ := shallow_object hx
      rw [equivalentEntries_iff] at h h'
      have hboth : equivalentEntries a c = true := by
        rw [equivalentEntries_iff]
        intro e he
        obtain ⟨w, hw, hew⟩ := h e he
        have hwb := Entries.mem_of_get? hw
        obtain ⟨x, hx, hwx⟩ := h' _ hwb
        have hxc := Entries.mem_of_get? hx
        exact ⟨x, hx, (trans ⟨ha e he, hb _ hwb, hew⟩ ⟨hb _ hwb, hc _ hxc, hwx⟩).2.2⟩
      simp [equivalent, hl, hl', hboth]
    · simp [sameScalar] at h'
  · rcases cases_of_equivalent he' with ⟨b', c, rfl, -⟩ | ⟨b', c, rfl, -⟩ | h'
    · cases v <;> simp [sameScalar] at h
    · cases v <;> simp [sameScalar] at h
    · exact equivalent_of_sameScalar (sameScalar_trans h h')

end Step

/-- **The comparison is symmetric and transitive** on what a program can hold. -/
theorem alike_symm_trans (n : Nat) :
    (∀ {v w}, Alike n v w → Alike n w v) ∧
      ∀ {v w x}, Alike n v w → Alike n w x → Alike n v x := by
  induction n with
  | zero =>
    have empty : ∀ {v w}, ¬ Alike 0 v w := fun h => Nat.not_lt_zero _ h.1.2
    exact ⟨fun h => absurd h empty, fun h => absurd h empty⟩
  | succ n ih => exact ⟨alike_succ_symm ih.1 ih.2, alike_succ_trans ih.1 ih.2⟩

theorem sameScalar_refl {x : Float} (h : x.isFinite = true) :
    sameScalar (float x) (float x) = true := by
  have hx : x.toModel.unpack ≠ .notANumber := by
    intro hn
    simp only [Float.isFinite, Float.Model.isFinite, hn] at h
    cases h
  exact (float_beq_iff x x).2 ⟨hx, hx, .inl rfl⟩

theorem equivalent_refl_of_shallow (n : Nat) {v : Value} (h : Shallow n v) :
    v.equivalent v = true := by
  induction n generalizing v with
  | zero => exact absurd h.2 (Nat.not_lt_zero _)
  | succ n ih =>
    cases v with
    | list a =>
      have ha := shallow_list h
      have hrel : Multiset.Rel (Alike n) a a :=
        Multiset.rel_refl_of_refl_on fun v hv => ⟨ha v hv, ha v hv, ih (ha v hv)⟩
      obtain ⟨symm, trans⟩ := alike_symm_trans n
      simp [equivalent, ((items_iff symm trans ha ha).2 hrel).2]
    | object a =>
      obtain ⟨hk, ha⟩ := shallow_object h
      have he : equivalentEntries a a = true := equivalentEntries_iff.2 fun e he =>
        ⟨e.2, Entries.get?_of_mem hk he, ih (ha e he)⟩
      simp [equivalent, he]
    | float x => exact equivalent_of_sameScalar (sameScalar_refl h.1)
    | _ => exact equivalent_of_sameScalar (by simp [sameScalar])

/-- What a program can hold is equivalent to itself. -/
theorem equivalent_refl {v : Value} (h : v.Lawful) : v.equivalent v = true :=
  equivalent_refl_of_shallow _ ⟨h, Nat.lt_succ_self _⟩

theorem equivalent_symm {v w : Value} (hv : v.Lawful) (hw : w.Lawful)
    (h : v.equivalent w = true) : w.equivalent v = true := by
  have hd : v.depth < max v.depth w.depth + 1 := by omega
  have hd' : w.depth < max v.depth w.depth + 1 := by omega
  exact ((alike_symm_trans _).1 ⟨⟨hv, hd⟩, ⟨hw, hd'⟩, h⟩).2.2

theorem equivalent_trans {v w x : Value} (hv : v.Lawful) (hw : w.Lawful) (hx : x.Lawful)
    (h : v.equivalent w = true) (h' : w.equivalent x = true) : v.equivalent x = true := by
  have hshallow : ∀ {y : Value}, y.Lawful → y.depth ≤ max v.depth (max w.depth x.depth) →
      Shallow (max v.depth (max w.depth x.depth) + 1) y := fun hy hd => ⟨hy, by omega⟩
  have hvs := hshallow hv (by omega)
  have hws := hshallow hw (by omega)
  have hxs := hshallow hx (by omega)
  exact ((alike_symm_trans _).2 ⟨hvs, hws, h⟩ ⟨hws, hxs, h'⟩).2.2

end Value

namespace Mail

/-- The further fields have values that a program can hold. -/
def Lawful (m : Mail) : Prop := Value.LawfulEntries m.extra.entries

theorem lawful_put {p : Payload} {key : String} {v : Value}
    (h : ∀ e ∈ p.entries, e.2.Lawful) (hv : v.Lawful) :
    ∀ e ∈ (p.put key v).entries, e.2.Lawful := by
  intro e he
  rcases Entries.mem_put he with rfl | he
  · exact hv
  · exact h e he

theorem lawful_putTexts (l : List (String × Option String)) {p : Payload}
    (h : ∀ e ∈ p.entries, e.2.Lawful) : ∀ e ∈ (l.foldl putText p).entries, e.2.Lawful := by
  induction l generalizing p with
  | nil => exact h
  | cons t l ih =>
    refine ih ?_
    rcases ht : t.2 with _ | s
    · simpa only [putText, ht] using h
    · simpa only [putText, ht] using lawful_put h (by simp [Value.Lawful])

theorem lawful_payload {m : Mail} (h : m.Lawful) : (Value.object m.payload.entries).Lawful := by
  simp only [Value.Lawful, Value.lawfulEntries_iff]
  refine ⟨m.payload.nodup, lawful_putTexts _ ?_⟩
  exact lawful_put (Value.lawfulEntries_iff.1 h) (Recipient.lawful_toValue m.recipient)

theorem equivalent_refl {m : Mail} (h : m.Lawful) : m.equivalent m = true :=
  Value.equivalent_refl (lawful_payload h)

/-- It does not matter which of two mails came first. -/
theorem equivalent_symm {a b : Mail} (ha : a.Lawful) (hb : b.Lawful)
    (h : a.equivalent b = true) : b.equivalent a = true :=
  Value.equivalent_symm (lawful_payload ha) (lawful_payload hb) h

theorem equivalent_trans {a b c : Mail} (ha : a.Lawful) (hb : b.Lawful) (hc : c.Lawful)
    (h : a.equivalent b = true) (h' : b.equivalent c = true) : a.equivalent c = true :=
  Value.equivalent_trans (lawful_payload ha) (lawful_payload hb) (lawful_payload hc) h h'

end Mail

end MailQueue
