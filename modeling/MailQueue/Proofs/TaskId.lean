import MailQueue.TaskId
import Mathlib.Algebra.Group.Nat.Defs
import Mathlib.Data.List.Basic

/-!
# Identifiers read back

* `valueOf?_digitsOf`: digits of base 32 are read as the number that they write;
* `parse?_text`: an identifier reads back from its text, hence `text_injective`;
* `digits_of_parse?`: what is read as an identifier consists of 26 digits.
-/

namespace MailQueue.TaskId

theorem digitValue?_digit (n : Nat) : digitValue? (digit n) = some (n % 32) := by
  have hall : ∀ m : Fin 32, digitValue? (alphabet.getD m.val '0') = some m.val := by decide
  exact hall ⟨n % 32, Nat.mod_lt n (by omega)⟩

theorem utf8Size_digit (n : Nat) : (digit n).utf8Size = 1 := by
  have hall : ∀ m : Fin 32, (alphabet.getD m.val '0').utf8Size = 1 := by decide
  exact hall ⟨n % 32, Nat.mod_lt n (by omega)⟩

theorem utf8Size_of_mem_digitsOf {n count : Nat} {c : Char} (h : c ∈ digitsOf n count) :
    c.utf8Size = 1 := by
  induction count generalizing n with
  | zero => simp [digitsOf] at h
  | succ count ih =>
    rcases List.mem_append.1 h with h | h
    · exact ih h
    · rw [List.mem_singleton.1 h]
      exact utf8Size_digit n

theorem utf8ByteSize_ofList {cs : List Char} (h : ∀ c ∈ cs, c.utf8Size = 1) :
    (String.ofList cs).utf8ByteSize = cs.length := by
  induction cs with
  | nil => rfl
  | cons c cs ih =>
    have hsplit : String.ofList (c :: cs) = String.singleton c ++ String.ofList cs := by
      rw [← String.toList_inj]
      simp
    rw [hsplit, String.utf8ByteSize_append, String.utf8ByteSize_singleton, h c (by simp),
      ih fun d hd => h d (by simp [hd]), List.length_cons, Nat.add_comm]

/-- The digits are read as what is left of the number below `32 ^ count`, behind what was read
before. -/
theorem foldlM_digitsOf (n count acc : Nat) :
    (digitsOf n count).foldlM (fun acc c => (digitValue? c).map (acc * 32 + ·)) acc =
      some (acc * 32 ^ count + n % 32 ^ count) := by
  induction count generalizing n with
  | zero => simp [digitsOf, Nat.mod_one]
  | succ count ih =>
    have hsum : (acc * 32 ^ count + n / 32 % 32 ^ count) * 32 + n % 32 =
        acc * 32 ^ (count + 1) + n % 32 ^ (count + 1) := by
      have hacc : acc * (32 * 32 ^ count) = 32 * (acc * 32 ^ count) := Nat.mul_left_comm _ _ _
      rw [Nat.pow_succ, Nat.mul_comm (32 ^ count) 32, Nat.mod_mul, hacc]
      omega
    rw [digitsOf, List.foldlM_append, ih]
    simp only [Option.bind_eq_bind, Option.bind_some, List.foldlM_cons, List.foldlM_nil,
      digitValue?_digit, Option.map_some, Option.pure_def, hsum]

theorem valueOf?_digitsOf (n count : Nat) :
    valueOf? (digitsOf n count) = some (n % 32 ^ count) := by
  rw [valueOf?, foldlM_digitsOf]
  simp

/-- **An identifier reads back** from its text. -/
theorem parse?_text (id : TaskId) : parse? id.text = some id := by
  have hsize : id.text.utf8ByteSize = 26 := by
    rw [text, digits, utf8ByteSize_ofList fun c hc => utf8Size_of_mem_digitsOf hc,
      length_digitsOf]
  have hlt : id.bits.toNat < 32 ^ 26 := Nat.lt_of_lt_of_le id.bits.isLt (by decide)
  have hid : ofNat id.bits.toNat = id := by
    simp [ofNat]
  rw [parse?, parse, if_neg (by simp [hsize]), text, String.toList_ofList, digits,
    valueOf?_digitsOf, Nat.mod_eq_of_lt hlt]
  exact congrArg some hid

theorem text_injective {a b : TaskId} (h : a.text = b.text) : a = b := by
  have hab := parse?_text a
  rw [h, parse?_text b] at hab
  exact (Option.some.inj hab).symm

/-! ### What is no identifier -/

theorem utf8Size_of_digitValue? {c : Char} {n : Nat} (h : digitValue? c = some n) :
    c.utf8Size = 1 := by
  by_cases hlow : 'a' ≤ c ∧ c ≤ 'z'
  · have hz : c.val ≤ 127 := Nat.le_trans (UInt32.le_iff_toNat_le.1 hlow.2) (by decide)
    exact Char.utf8Size_eq_one_iff.2 hz
  · have hmem : c ∈ alphabet := by
      simp only [digitValue?, if_neg hlow] at h
      obtain ⟨hn, hc, -⟩ := List.findIdx?_eq_some_iff_getElem.1 h
      rw [← beq_iff_eq.1 hc]
      exact List.getElem_mem hn
    have hall : (alphabet.all fun d => d.utf8Size == 1) = true := by decide
    exact beq_iff_eq.1 (List.all_eq_true.1 hall c hmem)

theorem digitValue?_of_foldlM {cs : List Char} {acc n : Nat}
    (h : cs.foldlM (fun acc c => (digitValue? c).map (acc * 32 + ·)) acc = some n) :
    ∀ c ∈ cs, ∃ m, digitValue? c = some m := by
  induction cs generalizing acc with
  | nil => simp
  | cons c cs ih =>
    rw [List.foldlM_cons] at h
    obtain ⟨acc', hc, h⟩ := Option.bind_eq_some_iff.1 h
    obtain ⟨m, hm, -⟩ := Option.map_eq_some_iff.1 hc
    exact List.forall_mem_cons.2 ⟨⟨m, hm⟩, ih h⟩

/-- What is read as an identifier consists of 26 digits. -/
theorem digits_of_parse? {cs : List Char} {id : TaskId}
    (h : parse? (String.ofList cs) = some id) :
    cs.length = 26 ∧ ∀ c ∈ cs, ∃ n, digitValue? c = some n := by
  unfold parse? parse at h
  split at h
  · cases h
  · next hsize =>
    rw [String.toList_ofList] at h
    rcases hv : valueOf? cs with _ | n
    · rw [hv] at h
      cases h
    · have hall := digitValue?_of_foldlM hv
      have hone : ∀ c ∈ cs, c.utf8Size = 1 := fun c hc =>
        have ⟨_, hn⟩ := hall c hc
        utf8Size_of_digitValue? hn
      rw [← utf8ByteSize_ofList hone]
      exact ⟨not_not.1 hsize, hall⟩

end MailQueue.TaskId
