import MailQueue.Proofs.Pairing

/-!
# What a grouping key tells of the recipients

A grouping key is the sorted addresses with commas between them. Addresses without a comma can be
read back from it.

* `Recipient.groupingKey_of_equivalent`: recipients to the same effect have the same key;
* `addresses_perm_of_groupingKey`: recipients with the same key have the same addresses, each as
  often, if none of these has a comma.
-/

namespace MailQueue

/-- Comma-free texts can be read back from the text that joins them with commas. -/
theorem eq_of_intercalate_comma {l l' : List String} (hl : ∀ s ∈ l, ',' ∉ s.toList)
    (hl' : ∀ s ∈ l', ',' ∉ s.toList) (hn : l ≠ []) (hn' : l' ≠ [])
    (h : String.intercalate "," l = String.intercalate "," l') : l = l' := by
  have hsplit {l : List String} (hl : ∀ s ∈ l, ',' ∉ s.toList) (hn : l ≠ []) :
      (String.intercalate "," l).toList.splitOn ',' = l.map String.toList := by
    rw [String.toList_intercalate]
    refine List.splitOn_intercalate ',' ?_ (by simpa using hn)
    intro cs hcs
    obtain ⟨s, hs, rfl⟩ := List.mem_map.1 hcs
    exact hl s hs
  have hmap : l.map String.toList = l'.map String.toList := by
    rw [← hsplit hl hn, ← hsplit hl' hn', h]
  exact (List.map_injective_iff.2 fun s t => String.toList_injective) hmap

namespace Recipient

def CommaFree (r : Recipient) : Prop := ∀ s ∈ r.addresses, ',' ∉ s.toList

instance (r : Recipient) : Decidable r.CommaFree := by
  unfold CommaFree
  infer_instance

lemma groupingKey_eq (r : Recipient) :
    r.groupingKey = String.intercalate "," (sortAddresses r.addresses) := by
  cases r with
  | one address => simp [groupingKey, addresses, sortAddresses]
  | many addresses => rfl

lemma addresses_ne_nil {r : Recipient} (h : r.valid = true) : r.addresses ≠ [] := by
  cases r with
  | one address => simp [addresses]
  | many addresses =>
    simp only [valid, Bool.and_eq_true, Bool.not_eq_true', List.isEmpty_eq_false_iff] at h
    exact h.1

/-- Lists of texts to the same effect have the same texts, each as often. -/
lemma perm_of_listsEquivalent {a b : List String}
    (h : listsEquivalent (a.map .text) (b.map .text) = true) : a.Perm b := by
  have hlawful (l : List String) : ∀ v ∈ l.map Value.text, v.Lawful := by
    intro v hv
    obtain ⟨s, -, rfl⟩ := List.mem_map.1 hv
    trivial
  obtain ⟨e, he⟩ := (Value.listsEquivalent_iff (hlawful a) (hlawful b)).1 h
  have heq : ∀ i, (a.map Value.text).get i = (b.map Value.text).get (e i) := by
    intro i
    have hi := he i
    simp only [List.get_eq_getElem, List.getElem_map] at hi ⊢
    exact (Value.eq_text_of_equivalent hi).symm
  have hrel : Multiset.Rel Eq (a.map Value.text : Multiset Value) (b.map Value.text) :=
    rel_iff_exists_equiv.2 ⟨e, heq⟩
  have hperm := Multiset.coe_eq_coe.1 (Multiset.rel_eq.1 hrel)
  exact (List.map_perm_map_iff fun s t h => Value.text.inj h).1 hperm

/-- **Recipients to the same effect have the same key.** -/
theorem groupingKey_of_equivalent {a b : Recipient} (h : a.equivalent b = true) :
    a.groupingKey = b.groupingKey := by
  cases a with
  | one s =>
    cases b with
    | one t => exact eq_of_beq h
    | many => cases h
  | many l =>
    cases b with
    | one => cases h
    | many l' => exact groupingKey_many_of_perm (perm_of_listsEquivalent h)

/-- **A key tells the addresses**, and how often each of them stands, if they have no comma. -/
theorem addresses_perm_of_groupingKey {a b : Recipient} (ha : a.valid = true)
    (hb : b.valid = true) (hca : a.CommaFree) (hcb : b.CommaFree)
    (h : a.groupingKey = b.groupingKey) : a.addresses.Perm b.addresses := by
  have hsorted {r : Recipient} (hr : r.valid = true) : sortAddresses r.addresses ≠ [] := by
    intro hnil
    have hperm := sortAddresses_perm r.addresses
    rw [hnil] at hperm
    exact addresses_ne_nil hr hperm.symm.eq_nil
  have hfree {r : Recipient} (hr : r.CommaFree) : ∀ s ∈ sortAddresses r.addresses, ',' ∉ s.toList :=
    fun s hs => hr s ((sortAddresses_perm _).subset hs)
  rw [groupingKey_eq, groupingKey_eq] at h
  have hsort : sortAddresses a.addresses = sortAddresses b.addresses :=
    eq_of_intercalate_comma (hfree hca) (hfree hcb) (hsorted ha) (hsorted hb) h
  have hperm := sortAddresses_perm a.addresses
  rw [hsort] at hperm
  exact hperm.symm.trans (sortAddresses_perm b.addresses)

end Recipient

end MailQueue
