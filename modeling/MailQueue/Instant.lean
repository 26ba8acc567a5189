/-!
# Instants

Points of time in nanoseconds since the epoch, within the years the calendar covers. Stored tasks
hold milliseconds only; `ms` rounds down.

* `ofMs?` and `add?` refuse what lies outside the range;
* `ms_ofMs?`: an instant made of milliseconds has those milliseconds;
* `floorMs` drops what a stored task does not hold.
-/

namespace MailQueue

structure Instant where
  /-- Nanoseconds since the epoch. -/
  ns : Int
  lower : -8334601228800000 * 1000000 ≤ ns := by omega
  upper : ns ≤ 8210266876799999 * 1000000 + 999999 := by omega
  deriving DecidableEq, Repr

namespace Instant

/-- The instant so many nanoseconds after the epoch, if the calendar has it. -/
def ofNs? (ns : Int) : Option Instant :=
  if h : -8334601228800000 * 1000000 ≤ ns ∧ ns ≤ 8210266876799999 * 1000000 + 999999 then
    some ⟨ns, h.1, h.2⟩
  else none

def ofMs? (ms : Int) : Option Instant := ofNs? (ms * 1000000)

def epoch : Instant := ⟨0, by omega, by omega⟩

def last : Instant := ⟨8210266876799999 * 1000000 + 999999, by omega, by omega⟩

instance : Inhabited Instant := ⟨epoch⟩

/-- Whole milliseconds since the epoch, rounded down. -/
def ms (t : Instant) : Int := t.ns.fdiv 1000000

/-- The nanoseconds beyond the whole milliseconds. -/
def subMs (t : Instant) : Nat := (t.ns.fmod 1000000).toNat

/-- The instant so many nanoseconds later, if the calendar has it. -/
def add? (t : Instant) (ns : Int) : Option Instant := ofNs? (t.ns + ns)

/-- The instant at the start of its millisecond. -/
def floorMs (t : Instant) : Instant :=
  ⟨t.ms * 1000000,
    by have := t.lower; have := Int.mul_fdiv_add_fmod t.ns 1000000
       have := Int.fmod_nonneg_of_pos t.ns (b := 1000000) (by omega)
       have := Int.fmod_lt_of_pos t.ns (b := 1000000) (by omega)
       simp only [ms]; omega,
    by have := t.upper; have := Int.mul_fdiv_add_fmod t.ns 1000000
       have := Int.fmod_nonneg_of_pos t.ns (b := 1000000) (by omega)
       simp only [ms]; omega⟩

instance : LE Instant := ⟨fun a b => a.ns ≤ b.ns⟩
instance : LT Instant := ⟨fun a b => a.ns < b.ns⟩
instance (a b : Instant) : Decidable (a ≤ b) := inferInstanceAs (Decidable (a.ns ≤ b.ns))
instance (a b : Instant) : Decidable (a < b) := inferInstanceAs (Decidable (a.ns < b.ns))

theorem le_def {a b : Instant} : a ≤ b ↔ a.ns ≤ b.ns := Iff.rfl

protected theorem le_refl (t : Instant) : t ≤ t := Int.le_refl _

protected theorem le_trans {a b c : Instant} (h : a ≤ b) (h' : b ≤ c) : a ≤ c := Int.le_trans h h'

theorem ofNs?_eq_some_iff {ns : Int} {t : Instant} : ofNs? ns = some t ↔ t.ns = ns := by
  unfold ofNs?
  split
  · next h =>
    constructor
    · rintro h'; cases h'; rfl
    · rintro rfl; rfl
  · next h =>
    simp only [reduceCtorEq, false_iff]
    rintro rfl
    exact h ⟨t.lower, t.upper⟩

theorem add?_eq_some_iff {t u : Instant} {ns : Int} : t.add? ns = some u ↔ u.ns = t.ns + ns :=
  ofNs?_eq_some_iff

/-- A later instant is missing only beyond the last one. -/
theorem add?_eq_none_iff {t : Instant} {ns : Int} (hn : 0 ≤ ns) :
    t.add? ns = none ↔ last.ns < t.ns + ns := by
  have := t.lower
  unfold add? ofNs? last
  split <;> simp only [reduceCtorEq, true_iff, false_iff] <;> omega

theorem le_of_add? {t u : Instant} {ns : Int} (h : t.add? ns = some u) (hn : 0 ≤ ns) : t ≤ u := by
  have hu := add?_eq_some_iff.1 h
  rw [le_def]
  omega

theorem ms_ofMs? {n : Int} {t : Instant} (h : ofMs? n = some t) : t.ms = n := by
  have h := ofNs?_eq_some_iff.1 h
  rw [ms, h]
  exact Int.mul_fdiv_cancel n (by omega)

theorem ofMs?_ms (t : Instant) : ofMs? t.ms = some t.floorMs := ofNs?_eq_some_iff.2 rfl

theorem ms_floorMs (t : Instant) : t.floorMs.ms = t.ms := ms_ofMs? t.ofMs?_ms

theorem ms_le_ms {t u : Instant} (h : t ≤ u) : t.ms ≤ u.ms := by
  have := Int.mul_fdiv_add_fmod t.ns 1000000
  have := Int.fmod_nonneg_of_pos t.ns (b := 1000000) (by omega)
  have := Int.mul_fdiv_add_fmod u.ns 1000000
  have := Int.fmod_lt_of_pos u.ns (b := 1000000) (by omega)
  rw [le_def] at h
  simp only [ms]
  omega

theorem floorMs_le (t : Instant) : t.floorMs ≤ t := by
  have := Int.mul_fdiv_add_fmod t.ns 1000000
  have := Int.fmod_nonneg_of_pos t.ns (b := 1000000) (by omega)
  simp only [le_def, floorMs, ms]; omega

end Instant

end MailQueue
