import MailQueue.Value.Basic
import Mathlib.Data.List.Basic

/-!
# Values that a program can hold

A value is read and written as it is when its integers are words and its objects have each key
once.

* `Value.Lawful` says so, at every depth;
* `Value.merged_eq`: with each key once there is nothing to merge.
-/

namespace MailQueue

namespace Entries

variable {α : Type}

theorem put_of_not_mem {l : Entries α} {key : String} (h : key ∉ l.keys) (v : α) :
    l.put key v = l ++ [(key, v)] := by
  induction l with
  | nil => rfl
  | cons e l ih =>
    obtain ⟨k, w⟩ := e
    simp only [keys, List.map_cons, List.mem_cons, not_or] at h
    have hk : ¬k = key := fun e => h.1 e.symm
    simp only [put, hk, if_false, List.cons_append]
    rw [ih h.2]

theorem foldl_put_of_nodup (l acc : Entries α) (h : (acc ++ l).keys.Nodup) :
    l.foldl (fun acc e => put acc e.1 e.2) acc = acc ++ l := by
  induction l generalizing acc with
  | nil => simp
  | cons e l ih =>
    have hk : e.1 ∉ acc.keys := by
      intro hm
      simp only [keys, List.map_append, List.map_cons] at h hm
      exact (List.nodup_append.1 h).2.2 _ hm _ (by simp) rfl
    have happ : acc ++ e :: l = (acc ++ [e]) ++ l := by simp
    rw [happ] at h ⊢
    rw [List.foldl_cons, put_of_not_mem hk]
    exact ih _ h

theorem merge_of_nodup {l : Entries α} (h : l.keys.Nodup) : l.merge = l :=
  foldl_put_of_nodup l [] h

theorem mem_put {l : Entries α} {key : String} {v : α} {e : String × α} (h : e ∈ l.put key v) :
    e = (key, v) ∨ e ∈ l := by
  induction l with
  | nil => exact .inl (List.mem_singleton.1 h)
  | cons d l ih =>
    obtain ⟨k, w⟩ := d
    rw [put] at h
    split at h
    · rcases List.mem_cons.1 h with h | h
      · exact .inl h
      · exact .inr (List.mem_cons_of_mem _ h)
    · rcases List.mem_cons.1 h with h | h
      · exact .inr (h ▸ List.mem_cons_self)
      · rcases ih h with h | h
        · exact .inl h
        · exact .inr (List.mem_cons_of_mem _ h)

theorem mem_of_get? {l : Entries α} {key : String} {v : α} (h : l.get? key = some v) :
    (key, v) ∈ l := by
  induction l with
  | nil => cases h
  | cons e l ih =>
    obtain ⟨k, w⟩ := e
    rw [get?_cons] at h
    split at h
    · next hk =>
      obtain rfl := Option.some.inj h
      rw [hk]
      exact List.mem_cons_self ..
    · exact List.mem_cons_of_mem _ (ih h)

theorem get?_of_mem {l : Entries α} (hn : l.keys.Nodup) {e : String × α} (h : e ∈ l) :
    l.get? e.1 = some e.2 := by
  induction l with
  | nil => cases h
  | cons d l ih =>
    obtain ⟨hd, hn⟩ := List.nodup_cons.1 hn
    rw [get?_cons]
    rcases List.mem_cons.1 h with rfl | h
    · exact if_pos rfl
    · rw [if_neg, ih hn h]
      intro he
      exact hd (he ▸ List.mem_map_of_mem h)

end Entries

namespace Value

mutual

/-- What a program can hold: integers of 64 bits, signed or unsigned, finite floats, and each key
of an object once. -/
def Lawful : Value → Prop
  | int i => -9223372036854775808 ≤ i ∧ i < (UInt64.size : Int)
  | float x => x.isFinite = true
  | list items => LawfulItems items
  | object entries => (Entries.keys entries).Nodup ∧ LawfulEntries entries
  | _ => True

def LawfulItems : List Value → Prop
  | [] => True
  | v :: rest => Lawful v ∧ LawfulItems rest

def LawfulEntries : List (String × Value) → Prop
  | [] => True
  | (_, v) :: rest => Lawful v ∧ LawfulEntries rest

end

theorem lawfulItems_iff {vs : List Value} : LawfulItems vs ↔ ∀ v ∈ vs, v.Lawful := by
  induction vs with
  | nil => simp [LawfulItems]
  | cons v vs ih => simp [LawfulItems, ih]

theorem lawfulEntries_iff {es : Entries Value} : LawfulEntries es ↔ ∀ e ∈ es, e.2.Lawful := by
  induction es with
  | nil => simp [LawfulEntries]
  | cons e es ih => simp [LawfulEntries, ih]

mutual

theorem merged_eq (v : Value) (h : v.Lawful) : v.merged = v := by
  cases v with
  | list items =>
    simp only [Lawful] at h
    simp only [merged, mergedItems_eq items h]
  | object entries =>
    simp only [Lawful] at h
    simp only [merged, mergedEntries_eq entries h.2, Entries.merge_of_nodup h.1]
  | _ => simp only [merged]

theorem mergedItems_eq (vs : List Value) (h : LawfulItems vs) : mergedItems vs = vs := by
  cases vs with
  | nil => rfl
  | cons v vs =>
    simp only [LawfulItems] at h
    simp only [mergedItems, merged_eq v h.1, mergedItems_eq vs h.2]

theorem mergedEntries_eq (es : List (String × Value)) (h : LawfulEntries es) :
    mergedEntries es = es := by
  cases es with
  | nil => rfl
  | cons e es =>
    simp only [LawfulEntries] at h
    simp only [mergedEntries, merged_eq e.2 h.1, mergedEntries_eq es h.2]

end

end Value

end MailQueue
