import MailQueue.TransportPool
import Mathlib.Order.Interval.Finset.Nat

/-!
# Transports that take turns

One pool is asked for a transport again and again, each time for some task that names one. Under the
balancer the answers do not depend on what the tasks name.

* `TransportPool.selections` are the answers and `cursorAfter` is the cursor after them;
* `selections_of_balancer`: the transports come one after the other, beginning with the second;
* `count_of_block` and `Fair`: of so many selections in a row as there are transports, times any
  number, each transport has its share.
-/

namespace MailQueue

namespace TransportPool

variable {p : TransportPool}

def selections (p : TransportPool) : Nat → List Nat → List Nat
  | _, [] => []
  | cursor, stored :: rest =>
    (p.select cursor stored).1 :: p.selections (p.select cursor stored).2 rest

/-- The cursor after the transports for tasks that name these. -/
def cursorAfter (p : TransportPool) (cursor : Nat) (named : List Nat) : Nat :=
  named.foldl (fun c stored => (p.select c stored).2) cursor

lemma cursorAfter_append_singleton (cursor : Nat) (named : List Nat) (stored : Nat) :
    p.cursorAfter cursor (named ++ [stored]) =
      (p.select (p.cursorAfter cursor named) stored).2 := by
  simp [cursorAfter]

lemma selections_append_singleton (cursor : Nat) (named : List Nat) (stored : Nat) :
    p.selections cursor (named ++ [stored]) =
      p.selections cursor named ++ [(p.select (p.cursorAfter cursor named) stored).1] := by
  induction named generalizing cursor with
  | nil => rfl
  | cons i named ih =>
    simp only [List.cons_append, selections, ih]
    rfl

lemma select_of_balancer (hs : p.strategy = .balancer) (hpos : 0 < p.size) (cursor stored : Nat) :
    p.select cursor stored = ((cursor + 1) % p.size, (cursor + 1) % p.size) := by
  have hne : p.size ≠ 0 := by omega
  simp [select, hs, hne]

lemma cursorAfter_of_balancer (hs : p.strategy = .balancer) (hpos : 0 < p.size)
    (named : List Nat) : p.cursorAfter 0 named = named.length % p.size := by
  induction named using List.reverseRecOn with
  | nil => simp [cursorAfter]
  | append_singleton named stored ih =>
    rw [cursorAfter_append_singleton, ih, select_of_balancer hs hpos, Nat.mod_add_mod,
      List.length_append, List.length_singleton]

/-- **The transports come one after the other**, whatever the tasks name. -/
theorem selections_of_balancer (hs : p.strategy = .balancer) (hpos : 0 < p.size)
    (named : List Nat) :
    p.selections 0 named = (List.range named.length).map fun i => (i + 1) % p.size := by
  induction named using List.reverseRecOn with
  | nil => rfl
  | append_singleton named stored ih =>
    rw [selections_append_singleton, ih, cursorAfter_of_balancer hs hpos,
      select_of_balancer hs hpos, Nat.mod_add_mod, List.length_append, List.length_singleton,
      List.range_succ, List.map_append]
    rfl

end TransportPool

/-! ### Shares -/

/-- In a row of as many items as there are numbers below `n`, times some number, each of these
numbers stands that many times. -/
def Fair (n : Nat) (l : List Nat) : Prop :=
  ∀ pre window post q, l = pre ++ window ++ post → window.length = q * n →
    ∀ j < n, window.count j = q

/-- So many numbers in a row leave each rest once. -/
lemma count_of_turn {n j : Nat} (hj : j < n) (a : Nat) :
    ((List.range n).map fun i => (a + i) % n).count j = 1 := by
  have hico : ((List.range n).map fun i => (a + i) % n : Multiset Nat) = Multiset.range n := by
    have hrow : Multiset.Ico a (a + n) = (List.range' a n : Multiset Nat) := by
      rw [Multiset.Ico, Nat.Ico_eq_range', Nat.add_sub_cancel_left]
    rw [← Nat.multiset_Ico_map_mod a n, hrow, List.range'_eq_map_range, Multiset.map_coe,
      List.map_map]
    rfl
  rw [← Multiset.coe_count, hico]
  exact Multiset.count_eq_one_of_mem (Multiset.nodup_range n) (Multiset.mem_range.2 hj)

/-- A multiple of so many numbers in a row leaves each rest that many times. -/
lemma count_of_block {n j : Nat} (hj : j < n) (a q : Nat) :
    ((List.range (q * n)).map fun i => (a + i) % n).count j = q := by
  induction q with
  | zero => simp
  | succ q ih =>
    have hlast : (List.range n).map ((fun i => (a + i) % n) ∘ (q * n + ·)) =
        (List.range n).map fun i => (a + q * n + i) % n := by
      simp [Nat.add_assoc]
    rw [Nat.succ_mul, List.range_add, List.map_append, List.count_append, ih, List.map_map, hlast,
      count_of_turn hj]

/-- Numbers that come one after the other are fair. -/
theorem fair_of_turns (n m : Nat) : Fair n ((List.range m).map fun i => (i + 1) % n) := by
  intro pre window post q hl hlen j hj
  have hwindow : window = (List.range (q * n)).map fun i => (pre.length + 1 + i) % n := by
    refine List.ext_getElem (by simpa using hlen) fun i hi hi' => ?_
    have hlt : pre.length + i < m := by
      have hm := congrArg List.length hl
      simp only [List.length_map, List.length_range, List.length_append] at hm
      omega
    have hget : window[i] = (pre.length + i + 1) % n := by
      have hg := congrArg (fun l => l[pre.length + i]?) hl
      simpa [List.getElem?_append, hi, hlt, eq_comm] using hg
    rw [hget, List.getElem_map, List.getElem_range, Nat.add_right_comm]
  rw [hwindow]
  exact count_of_block hj _ q

end MailQueue
