import MailQueue.Json.Reader
import MailQueue.Json.Writer
import Mathlib.Data.List.TakeWhile

/-!
# Numbers in JSON

The text of an integer reads back to it, and a number is read the same whatever follows it in a
list or an object.

* `Closes` says what may follow a value;
* `number_append`: what follows is left alone;
* `number_intDigits`: an integer of 64 bits reads back.
-/

namespace MailQueue.Number

/-! ### Digits -/

theorem isDigit_of_mem_natDigits {n : Nat} {c : Char} (h : c ∈ natDigits n) :
    c.isDigit = true :=
  Nat.isDigit_of_mem_toDigits (by omega) (by omega) h

theorem natDigits_ne_nil (n : Nat) : natDigits n ≠ [] := Nat.toDigits_ne_nil

theorem digitsValue_natDigits (n : Nat) : digitsValue (natDigits n) = n := by
  have h := Nat.ofDigitChars_ten_toDigits (n := n)
  rw [Nat.ofDigitChars_eq_foldl] at h
  refine Eq.trans ?_ h
  unfold digitsValue natDigits digitValue
  congr 1
  funext acc c
  rw [Nat.mul_comm]

theorem head?_natDigits {n : Nat} (hn : 0 < n) : (natDigits n).head? ≠ some '0' := by
  induction n using Nat.strongRecOn with
  | ind n ih =>
    rcases Nat.lt_or_ge n 10 with hlt | hge
    · have hall : ∀ m : Fin 10, 0 < m.val → [m.val.digitChar].head? ≠ some '0' := by decide
      unfold natDigits
      rw [Nat.toDigits_of_lt_base hlt]
      exact hall ⟨n, hlt⟩ hn
    · have hsmall := ih (n / 10) (by omega) (by omega)
      unfold natDigits at hsmall ⊢
      rw [Nat.toDigits_of_base_le (by omega) hge]
      rcases hd : Nat.toDigits 10 (n / 10) with _ | ⟨c, cs⟩
      · exact absurd hd Nat.toDigits_ne_nil
      · rw [hd] at hsmall
        exact hsmall

end MailQueue.Number

namespace MailQueue.Json

open Number

/-! ### What follows a number -/

/-- What may follow a value: nothing, or a comma or the end of the list or object around it. -/
def Closes (rest : List Char) : Prop := ∀ c ∈ rest.head?, c = ',' ∨ c = ']' ∨ c = '}'

theorem closes_nil : Closes [] := by simp [Closes]

theorem closes_cons {c : Char} (rest : List Char) (h : c = ',' ∨ c = ']' ∨ c = '}') :
    Closes (c :: rest) := by
  simpa [Closes] using h

variable {rest : List Char}

/-- No class of characters that leaves out the three goes on into what follows. -/
theorem Closes.span_append (hr : Closes rest) {p : Char → Bool}
    (hp : p ',' = false ∧ p ']' = false ∧ p '}' = false) (cs : List Char) :
    (cs ++ rest).takeWhile p = cs.takeWhile p ∧
      (cs ++ rest).dropWhile p = cs.dropWhile p ++ rest := by
  induction cs with
  | nil =>
    cases rest with
    | nil => exact ⟨rfl, rfl⟩
    | cons c rest =>
      have hc : p c = false := by
        rcases hr c (by simp) with rfl | rfl | rfl
        · exact hp.1
        · exact hp.2.1
        · exact hp.2.2
      simp [hc]
  | cons c cs ih =>
    cases hc : p c with
    | true => simp [hc, ih]
    | false => simp [hc]

theorem digits_append (hr : Closes rest) (cs : List Char) :
    digits (cs ++ rest) = ((digits cs).1, (digits cs).2 ++ rest) := by
  have h := hr.span_append (p := Char.isDigit) (by decide) cs
  rw [digits, digits, h.1, h.2]

theorem fraction_append (hr : Closes rest) (cs : List Char) :
    fraction (cs ++ rest) = (fraction cs).map fun f => (f.1, f.2 ++ rest) := by
  match cs with
  | [] =>
    cases rest with
    | nil => rfl
    | cons c rest => rcases hr c (by simp) with rfl | rfl | rfl <;> rfl
  | c :: cs =>
    by_cases hc : c = '.'
    · subst hc
      simp only [List.cons_append, fraction, digits_append hr]
      split <;> rfl
    · unfold fraction
      simp only [List.cons_append]
      split
      · simp_all
      · split <;> simp_all

/-- The sign of an exponent and the characters after it. -/
def signed : List Char → Bool × List Char
  | '-' :: cs => (true, cs)
  | '+' :: cs => (false, cs)
  | cs => (false, cs)

theorem signed_append (hr : Closes rest) (cs : List Char) :
    signed (cs ++ rest) = ((signed cs).1, (signed cs).2 ++ rest) := by
  match cs with
  | [] =>
    cases rest with
    | nil => rfl
    | cons c rest => rcases hr c (by simp) with rfl | rfl | rfl <;> rfl
  | c :: cs =>
    unfold signed
    simp only [List.cons_append]
    split
    · simp_all
    · simp_all
    · split <;> simp_all

theorem exponent_cons {c : Char} (hc : c = 'e' ∨ c = 'E') (cs : List Char) :
    exponent (c :: cs) =
      if (digits (signed cs).2).1.isEmpty then none
      else
        let n : Int := digitsValue (digits (signed cs).2).1
        some (some (if (signed cs).1 then -n else n), (digits (signed cs).2).2) := by
  simp only [exponent, if_pos hc]
  rfl

theorem exponent_append (hr : Closes rest) (cs : List Char) :
    exponent (cs ++ rest) = (exponent cs).map fun e => (e.1, e.2 ++ rest) := by
  match cs with
  | [] =>
    cases rest with
    | nil => rfl
    | cons c rest => rcases hr c (by simp) with rfl | rfl | rfl <;> rfl
  | c :: cs =>
    by_cases hc : c = 'e' ∨ c = 'E'
    · rw [List.cons_append, exponent_cons hc, exponent_cons hc, signed_append hr, digits_append hr]
      split <;> rfl
    · simp only [List.cons_append, exponent, if_neg hc]
      rfl

theorem unsignedNumber_append (hr : Closes rest) (negative : Bool) (cs : List Char) :
    unsignedNumber negative (cs ++ rest) =
      (unsignedNumber negative cs).map fun v => (v.1, v.2 ++ rest) := by
  simp only [unsignedNumber, digits_append hr, fraction_append hr]
  split
  · rfl
  · rcases fraction (digits cs).2 with _ | ⟨f, afterFraction⟩
    · rfl
    · simp only [Option.map_some, Option.bind_eq_bind, Option.bind_some, exponent_append hr]
      rcases exponent afterFraction with _ | ⟨e, afterExponent⟩
      · rfl
      · simp only [Option.map_some, Option.bind_some]
        split
        · rcases wholeNumber negative (digits cs).1 with _ | v <;> rfl
        · rcases literal negative (digits cs).1 (f.getD []) (e.getD 0) with _ | x <;> rfl

theorem number_of_ne {c : Char} (hc : c ≠ '-') (cs : List Char) :
    number (c :: cs) = unsignedNumber false (c :: cs) := by
  rw [number]
  exact fun _ h => hc (List.cons.inj h).1

/-- **A number is read the same** whatever follows it. -/
theorem number_append (hr : Closes rest) (cs : List Char) :
    number (cs ++ rest) = (number cs).map fun v => (v.1, v.2 ++ rest) := by
  match cs with
  | [] =>
    cases rest with
    | nil => rfl
    | cons c rest => rcases hr c (by simp) with rfl | rfl | rfl <;> rfl
  | c :: cs =>
    by_cases hc : c = '-'
    · subst hc
      exact unsignedNumber_append hr true cs
    · rw [List.cons_append, number_of_ne hc, number_of_ne hc, ← List.cons_append,
        unsignedNumber_append hr]

/-! ### Integers -/

theorem digits_natDigits (n : Nat) : digits (natDigits n) = (natDigits n, []) := by
  have h : ∀ c ∈ natDigits n, c.isDigit = true := fun c hc => isDigit_of_mem_natDigits hc
  rw [digits, List.takeWhile_eq_self_iff.2 h, List.dropWhile_eq_nil_iff.2 h]

theorem unsignedNumber_natDigits (negative : Bool) (n : Nat) :
    unsignedNumber negative (natDigits n) =
      (wholeNumber negative (natDigits n)).map fun v => (v, []) := by
  have hlead : ¬((natDigits n).isEmpty = true ∨
      (natDigits n).head? = some '0' ∧ 1 < (natDigits n).length) := by
    rintro (h | ⟨h, hlen⟩)
    · exact natDigits_ne_nil n (List.isEmpty_iff.1 h)
    · rcases Nat.eq_zero_or_pos n with rfl | hn
      · exact absurd hlen (by decide)
      · exact head?_natDigits hn h
  simp only [unsignedNumber, digits_natDigits, if_neg hlead]
  rcases wholeNumber negative (natDigits n) with _ | v <;> rfl

theorem intDigits_head (i : Int) :
    ∃ c cs, intDigits i = c :: cs ∧ (c = '-' ∨ c.isDigit = true) := by
  rcases i with n | n
  · rcases hd : natDigits n with _ | ⟨c, cs⟩
    · exact absurd hd (natDigits_ne_nil n)
    · exact ⟨c, cs, hd, .inr (isDigit_of_mem_natDigits (n := n) (by simp [hd]))⟩
  · exact ⟨_, _, rfl, .inl rfl⟩

theorem number_natDigits (n : Nat) :
    number (natDigits n) = (wholeNumber false (natDigits n)).map fun v => (v, []) := by
  have hread : number (natDigits n) = unsignedNumber false (natDigits n) := by
    rcases hd : natDigits n with _ | ⟨c, cs⟩
    · rfl
    · refine number_of_ne ?_ cs
      rintro rfl
      have := isDigit_of_mem_natDigits (n := n) (c := '-') (by simp [hd])
      exact absurd this (by decide)
  rw [hread, unsignedNumber_natDigits]

theorem number_intDigits_eq (i : Int) :
    ∃ o : Option Value, number (intDigits i) = o.map fun v => (v, []) := by
  rcases i with n | n
  · exact ⟨_, number_natDigits n⟩
  · exact ⟨_, unsignedNumber_natDigits true (n + 1)⟩

/-- **An integer of 64 bits**, signed or unsigned, reads back. -/
theorem number_intDigits {i : Int} (hlo : -9223372036854775808 ≤ i)
    (hhi : i < (UInt64.size : Int)) : number (intDigits i) = some (.int i, []) := by
  rcases i with n | n
  · have hn : n < UInt64.size := Int.ofNat_lt.1 hhi
    show number (natDigits n) = _
    rw [number_natDigits, wholeNumber, digitsValue_natDigits]
    simp only [Bool.false_eq_true, if_false, if_pos hn]
    rfl
  · show unsignedNumber true (natDigits (n + 1)) = _
    have hn : n + 1 ≤ 9223372036854775808 := by omega
    rw [unsignedNumber_natDigits, wholeNumber, digitsValue_natDigits]
    simp only [if_true, if_pos (And.intro (Nat.succ_pos n) hn)]
    rfl

end MailQueue.Json
