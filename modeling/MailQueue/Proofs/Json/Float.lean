import MailQueue.Proofs.Json.Number

/-!
# Floats in JSON

The text of a finite float is the text of a number with a point or an exponent. Reading it gives
a float, mostly the same; only a number that comes out too large is refused.

* `Number.pos_shortest`: the digits of the shortest decimal do not start with a zero;
* `Real` lists the forms of such a text, and `Real.read` says how each is read;
* `number_float` and `float_head` are what the reader of values needs of it.
-/

namespace MailQueue.Number

/-! ### Digits of a float -/

theorem near_pos {a lo v hi d : Nat} {closed : Bool} (hlo : 0 < lo)
    (h : near a lo v hi closed = some d) : 0 < d := by
  refine Nat.pos_of_ne_zero ?_
  rintro rfl
  simp only [near] at h
  grind

theorem Parts.pos_ofBits {bits : UInt64} (h : bits.toNat % twoTo 63 ≠ 0) :
    0 < (Parts.ofBits bits).m := by
  have h52 : twoTo 52 = 4503599627370496 := rfl
  have h63 : twoTo 63 = 9223372036854775808 := rfl
  have h11 : twoTo 11 = 2048 := rfl
  rw [h63] at h
  simp only [Parts.ofBits, h52, h11]
  split
  · show 0 < bits.toNat % 4503599627370496
    omega
  · show 0 < 4503599627370496 + bits.toNat % 4503599627370496
    omega

theorem Parts.pos_of_onGrid {p : Parts} (h : 0 < p.m) {e : Int} {d : Nat}
    (hd : p.onGrid e = some d) : 0 < d := by
  refine near_pos (Nat.mul_pos ?_ ?_) hd
  · split <;> omega
  · exact Nat.mul_pos (Nat.pow_pos (by omega)) (Nat.pow_pos (by omega))

theorem Parts.pos_of_search {p : Parts} (h : 0 < p.m) {k : Int} {fuel n : Nat} {d : Decimal}
    (hd : p.search k fuel n = some d) : 0 < d.digits := by
  induction fuel generalizing n with
  | zero => cases hd
  | succ fuel ih =>
    rw [Parts.search] at hd
    split at hd
    · next hgrid =>
      obtain rfl := Option.some.inj hd
      exact Parts.pos_of_onGrid h hgrid
    · exact ih hd

theorem Decimal.pos_trim {d : Decimal} (h : 0 < d.digits) (fuel : Nat) :
    0 < (d.trim fuel).digits := by
  induction fuel generalizing d with
  | zero => exact h
  | succ fuel ih =>
    rw [Decimal.trim]
    split
    · exact ih (by show 0 < d.digits / 10; omega)
    · exact h

theorem pos_shortest {bits : UInt64} (h : bits.toNat % twoTo 63 ≠ 0) :
    0 < (shortest bits).digits := by
  have hm := Parts.pos_ofBits h
  simp only [shortest]
  split
  · next hs => exact Decimal.pos_trim (Parts.pos_of_search hm hs) 17
  · exact hm

end MailQueue.Number

namespace MailQueue.Json

open Number

/-! ### Texts with a point or an exponent -/

/-- Digits that may stand before the point: a zero stands alone there. -/
structure Whole (ds : List Char) : Prop where
  digits : ∀ c ∈ ds, c.isDigit = true
  ne_nil : ds ≠ []
  lead : ds.head? = some '0' → ds.length ≤ 1

/-- What may follow the digits before a point and after it. -/
structure Ends (cs : List Char) (e : Option Int) : Prop where
  read : exponent cs = some (e, [])
  head : ∀ c ∈ cs.head?, c.isDigit = false ∧ c ≠ '.'

theorem digits_of_head {ds cs : List Char} (hds : ∀ c ∈ ds, c.isDigit = true)
    (hcs : ∀ c ∈ cs.head?, c.isDigit = false) : digits (ds ++ cs) = (ds, cs) := by
  induction ds with
  | nil =>
    cases cs with
    | nil => rfl
    | cons c cs =>
      have hc : c.isDigit = false := hcs c rfl
      simp [digits, hc]
  | cons d ds ih =>
    have hd : d.isDigit = true := hds d List.mem_cons_self
    have ih := ih fun c hc => hds c (List.mem_cons_of_mem _ hc)
    simp only [digits, Prod.mk.injEq] at ih
    simp [digits, hd, ih]

theorem Whole.lead_ok {ds : List Char} (h : Whole ds) :
    ¬(ds.isEmpty = true ∨ ds.head? = some '0' ∧ 1 < ds.length) := by
  rintro (he | ⟨hz, hl⟩)
  · exact h.ne_nil (List.isEmpty_iff.1 he)
  · exact absurd (h.lead hz) (Nat.not_le.2 hl)

theorem fraction_of_head {cs : List Char} (h : ∀ c ∈ cs.head?, c ≠ '.') :
    fraction cs = some (none, cs) := by
  unfold fraction
  split
  · exact absurd rfl (h '.' rfl)
  · rfl

theorem unsignedNumber_point {whole ds cs : List Char} {e : Option Int} (hw : Whole whole)
    (hds : ∀ c ∈ ds, c.isDigit = true) (hne : ds ≠ []) (he : Ends cs e) (negative : Bool) :
    unsignedNumber negative (whole ++ '.' :: (ds ++ cs)) =
      (literal negative whole ds (e.getD 0)).map fun x => (.float x, []) := by
  have hwhole : digits (whole ++ '.' :: (ds ++ cs)) = (whole, '.' :: (ds ++ cs)) :=
    digits_of_head hw.digits (by simp)
  have hfraction : fraction ('.' :: (ds ++ cs)) = some (some ds, cs) := by
    have hempty : ds.isEmpty = false := by simpa using hne
    simp only [fraction, digits_of_head hds fun c hc => (he.head c hc).1, hempty]
    rfl
  simp only [unsignedNumber, hwhole, if_neg hw.lead_ok, hfraction, Option.bind_eq_bind,
    Option.bind_some, he.read, Option.isNone_some, Bool.false_eq_true, false_and, if_false,
    Option.getD_some]
  rcases literal negative whole ds (e.getD 0) with _ | x <;> rfl

theorem unsignedNumber_exponent {whole cs : List Char} {e : Int} (hw : Whole whole)
    (he : Ends cs (some e)) (negative : Bool) :
    unsignedNumber negative (whole ++ cs) =
      (literal negative whole [] e).map fun x => (.float x, []) := by
  have hwhole : digits (whole ++ cs) = (whole, cs) :=
    digits_of_head hw.digits fun c hc => (he.head c hc).1
  simp only [unsignedNumber, hwhole, if_neg hw.lead_ok, fraction_of_head fun c hc =>
    (he.head c hc).2, Option.bind_eq_bind, Option.bind_some, he.read, Option.isNone_some,
    Bool.false_eq_true, and_false, if_false, Option.getD_none, Option.getD_some]
  rcases literal negative whole [] e with _ | x <;> rfl

theorem ends_nil : Ends [] none := ⟨rfl, by simp⟩

/-- The exponent that the writer puts. -/
theorem ends_exponent (n : Int) :
    Ends ('e' :: ((if 0 ≤ n then ['+'] else []) ++ intDigits n)) (some n) := by
  have hread : ∀ (negative : Bool) (m : Nat),
      exponent ('e' :: (if negative then '-' else '+') :: natDigits m) =
        some (some (if negative then -(m : Int) else m), []) := by
    intro negative m
    have hempty : (natDigits m).isEmpty = false := by simpa using natDigits_ne_nil m
    cases negative <;>
      simp [exponent_cons (.inl rfl), signed, digits_natDigits, hempty, digitsValue_natDigits]
  refine ⟨?_, by simp⟩
  rcases n with m | m
  · exact hread false m
  · exact hread true (m + 1)

/-- The text of a number with a point or an exponent. -/
inductive Real : List Char → Prop where
  | point {whole ds cs : List Char} {e : Option Int} (hw : Whole whole)
      (hds : ∀ c ∈ ds, c.isDigit = true) (hne : ds ≠ []) (he : Ends cs e) :
      Real (whole ++ '.' :: (ds ++ cs))
  | exponent {whole cs : List Char} {e : Int} (hw : Whole whole) (he : Ends cs (some e)) :
      Real (whole ++ cs)

theorem Real.read {cs : List Char} (h : Real cs) (negative : Bool) :
    ∃ o : Option Float, unsignedNumber negative cs = o.map fun x => (.float x, []) := by
  cases h with
  | point hw hds hne he => exact ⟨_, unsignedNumber_point hw hds hne he negative⟩
  | exponent hw he => exact ⟨_, unsignedNumber_exponent hw he negative⟩

theorem Whole.head {ds : List Char} (h : Whole ds) (rest : List Char) :
    ∃ c cs, ds ++ rest = c :: cs ∧ c.isDigit = true := by
  cases ds with
  | nil => exact absurd rfl h.ne_nil
  | cons d ds => exact ⟨d, ds ++ rest, rfl, h.digits d List.mem_cons_self⟩

theorem Real.head {cs : List Char} (h : Real cs) :
    ∃ c rest, cs = c :: rest ∧ c.isDigit = true := by
  cases h with
  | point hw => exact hw.head _
  | exponent hw => exact hw.head _

/-! ### How floats are written -/

theorem isDigit_zero : ∀ c ∈ ['0'], c.isDigit = true := by
  rintro c hc
  rw [List.mem_singleton.1 hc]
  rfl

theorem whole_zero : Whole ['0'] := ⟨isDigit_zero, by simp, by simp⟩

theorem whole_natDigits {n : Nat} (h : 0 < n) : Whole (natDigits n) :=
  ⟨fun _ hc => isDigit_of_mem_natDigits hc, natDigits_ne_nil n, fun hz =>
    absurd hz (head?_natDigits h)⟩

/-- Digits that do not start with a zero may be followed by more. -/
theorem Whole.append {ds es : List Char} (h : Whole ds) (hz : ds.head? ≠ some '0')
    (hes : ∀ c ∈ es, c.isDigit = true) : Whole (ds ++ es) where
  digits c hc := (List.mem_append.1 hc).elim (h.digits c) (hes c)
  ne_nil := by simp [h.ne_nil]
  lead hz' := by
    rw [List.head?_append, Option.or_eq_some_iff] at hz'
    rcases hz' with hz' | ⟨hnil, -⟩
    · exact absurd hz' hz
    · exact absurd (List.head?_eq_none_iff.1 hnil) h.ne_nil

theorem Whole.take {ds : List Char} (h : Whole ds) (hz : ds.head? ≠ some '0') {n : Nat}
    (hn : 0 < n) : Whole (ds.take n) where
  digits c hc := h.digits c (List.mem_of_mem_take hc)
  ne_nil := by
    rw [Ne, List.take_eq_nil_iff]
    rintro (rfl | h')
    · exact absurd hn (by omega)
    · exact h.ne_nil h'
  lead hz' := by
    rw [List.head?_take, if_neg (by omega)] at hz'
    exact absurd hz' hz

theorem real_plainDigits {d : Decimal} (h : 0 < d.digits) : Real (plainDigits d) := by
  have hw := whole_natDigits h
  have hz := head?_natDigits h
  have hzeros : ∀ n, ∀ c ∈ List.replicate n '0', c.isDigit = true := by
    intro n c hc
    rw [(List.mem_replicate.1 hc).2]
    rfl
  simp only [plainDigits]
  split
  · simpa using Real.point (hw.append hz (hzeros _)) isDigit_zero (by simp) ends_nil
  · split
    · next hneg hlt =>
      have hdrop : (natDigits d.digits).drop
          ((natDigits d.digits).length - (-d.exponent).toNat) ≠ [] := by
        rw [Ne, List.drop_eq_nil_iff]
        omega
      simpa using Real.point (hw.take hz (by omega))
        (fun c hc => hw.digits c (List.mem_of_mem_drop hc)) hdrop ends_nil
    · have hds : ∀ c ∈ List.replicate ((-d.exponent).toNat - (natDigits d.digits).length) '0' ++
          natDigits d.digits, c.isDigit = true :=
        fun c hc => (List.mem_append.1 hc).elim (hzeros _ c) (hw.digits c)
      simpa using Real.point whole_zero hds (by simp [natDigits_ne_nil]) ends_nil

theorem real_exponentDigits {d : Decimal} (h : 0 < d.digits) : Real (exponentDigits d) := by
  have hw := whole_natDigits h
  simp only [exponentDigits]
  generalize d.exponent + (((natDigits d.digits).length - 1 : Nat) : Int) = lead
  generalize natDigits d.digits = ds at hw
  match ds with
  | [] => exact absurd rfl hw.ne_nil
  | [c] => simpa using Real.exponent hw (ends_exponent lead)
  | c :: b :: bs =>
    have hc : Whole [c] := ⟨by simpa using hw.digits c List.mem_cons_self, by simp, by simp⟩
    have hbs : ∀ a ∈ b :: bs, a.isDigit = true :=
      fun a ha => hw.digits a (List.mem_cons_of_mem c ha)
    simpa using Real.point hc hbs (by simp) (ends_exponent lead)

theorem real_decimal (s : Style) {d : Decimal} (h : 0 < d.digits) : Real (s.decimal d) := by
  simp only [Style.decimal]
  split
  · exact real_plainDigits h
  · exact real_exponentDigits h

/-- The text of a finite float, after its sign. -/
theorem real_float {x : Float} (h : x.isFinite = true) :
    ∃ cs, Real cs ∧ (float x = cs ∨ float x = '-' :: cs) := by
  have hreal : Real (if x.toBits.toNat % twoTo 63 = 0 then ['0', '.', '0']
      else Style.persisted.decimal (shortest x.toBits)) := by
    split
    · exact Real.point whole_zero isDigit_zero (by simp) ends_nil
    · next hne => exact real_decimal _ (pos_shortest hne)
  refine ⟨_, hreal, ?_⟩
  simp only [float, if_pos h, Style.float]
  split
  · exact .inr rfl
  · exact .inl rfl

/-- **The text of a finite float** is read as a float, or refused for its size. -/
theorem number_float {x : Float} (h : x.isFinite = true) :
    ∃ o : Option Float, number (float x) = o.map fun y => (.float y, []) := by
  obtain ⟨cs, hcs, hx | hx⟩ := real_float h
  · obtain ⟨c, rest, rfl, hc⟩ := hcs.head
    obtain ⟨o, ho⟩ := hcs.read false
    refine ⟨o, ?_⟩
    rw [hx, number_of_ne (by rintro rfl; exact absurd hc (by decide)), ho]
  · obtain ⟨o, ho⟩ := hcs.read true
    exact ⟨o, by rw [hx, ← ho]; rfl⟩

/-- How the text of a finite float begins. -/
theorem float_head {x : Float} (h : x.isFinite = true) :
    ∃ c cs, float x = c :: cs ∧ (c = '-' ∨ c.isDigit = true) := by
  obtain ⟨cs, hcs, hx | hx⟩ := real_float h
  · obtain ⟨c, rest, rfl, hc⟩ := hcs.head
    exact ⟨c, rest, hx, .inr hc⟩
  · exact ⟨_, cs, hx, .inl rfl⟩

end MailQueue.Json
