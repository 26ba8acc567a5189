/-!
# Entries in order

A list of keyed entries as it is written, and `Fields`, the same with each key at most once. Keys
keep the place of their first writing.

* `put` replaces the first entry of its key where it stands, or adds one at the end;
* `get?_put`, `get?_erase`, `keys_put` say what the operations do to the two views, the look-up
  and the keys;
* `Fields` carries the proof that no key stands twice, and its operations keep it.
-/

namespace MailQueue

/-- Keyed entries in the order of writing. -/
abbrev Entries (α : Type) := List (String × α)

namespace Entries

variable {α β : Type}

def keys (l : Entries α) : List String := l.map Prod.fst

/-- The first entry of a key. -/
def get? (l : Entries α) (key : String) : Option α :=
  match l with
  | [] => none
  | (k, v) :: rest => if k = key then some v else get? rest key

/-- Replaces the first entry of the key where it stands, or adds one at the end. -/
def put (l : Entries α) (key : String) (value : α) : Entries α :=
  match l with
  | [] => [(key, value)]
  | (k, v) :: rest => if k = key then (key, value) :: rest else (k, v) :: put rest key value

/-- Leaves out every entry of the key. -/
def erase (l : Entries α) (key : String) : Entries α := l.filter fun e => e.1 != key

/-- Each entry in its turn put after those before it, so that the last of a key wins and stands in
the place of the first. -/
def merge (l : Entries α) : Entries α := l.foldl (fun acc e => put acc e.1 e.2) []

@[simp] theorem get?_nil (key : String) : get? ([] : Entries α) key = none := rfl

theorem get?_cons (k key : String) (v : α) (l : Entries α) :
    get? ((k, v) :: l) key = if k = key then some v else get? l key := rfl

@[simp] theorem get?_put (l : Entries α) (key key' : String) (v : α) :
    (l.put key v).get? key' = if key = key' then some v else l.get? key' := by
  induction l with
  | nil => simp [put, get?_cons]
  | cons e l ih =>
    obtain ⟨k, w⟩ := e
    by_cases h : k = key <;> by_cases h' : key = key' <;> simp_all [put, get?_cons]

@[simp] theorem get?_erase (l : Entries α) (key key' : String) :
    (l.erase key).get? key' = if key = key' then none else l.get? key' := by
  induction l with
  | nil => simp [erase]
  | cons e l ih =>
    obtain ⟨k, w⟩ := e
    simp only [erase] at ih ⊢
    by_cases h : k = key <;> by_cases h' : key = key' <;>
      simp_all [get?_cons]

theorem keys_put (l : Entries α) (key : String) (v : α) :
    (l.put key v).keys = if key ∈ l.keys then l.keys else l.keys ++ [key] := by
  induction l with
  | nil => simp [put, keys]
  | cons e l ih =>
    obtain ⟨k, w⟩ := e
    simp only [keys, List.map_cons, List.mem_cons] at ih ⊢
    by_cases h : k = key
    · subst h; simp [put]
    · have h' : ¬ key = k := fun e => h e.symm
      simp only [put, h, h', if_false, List.map_cons, false_or, ih]
      by_cases hm : key ∈ List.map Prod.fst l <;> simp [hm]

theorem nodup_keys_put {l : Entries α} (h : l.keys.Nodup) (key : String) (v : α) :
    (l.put key v).keys.Nodup := by
  rw [keys_put]
  split
  · exact h
  · next hk => exact List.nodup_append.2 ⟨h, by simp, by rintro a ha b hb rfl; simp_all⟩

theorem nodup_keys_erase {l : Entries α} (h : l.keys.Nodup) (key : String) :
    (l.erase key).keys.Nodup :=
  h.sublist ((List.filter_sublist (l := l)).map Prod.fst)

theorem nodup_keys_foldl_put (l : Entries α) {acc : Entries α} (h : acc.keys.Nodup) :
    (l.foldl (fun acc e => put acc e.1 e.2) acc).keys.Nodup := by
  induction l generalizing acc with
  | nil => exact h
  | cons e l ih => exact ih (nodup_keys_put h e.1 e.2)

theorem nodup_keys_merge (l : Entries α) : l.merge.keys.Nodup :=
  nodup_keys_foldl_put l (by simp [keys])

theorem get?_eq_none_iff {l : Entries α} {key : String} : l.get? key = none ↔ key ∉ l.keys := by
  induction l with
  | nil => simp [keys]
  | cons e l ih =>
    obtain ⟨k, w⟩ := e
    simp only [get?_cons, keys, List.map_cons, List.mem_cons] at ih ⊢
    by_cases h : k = key
    · simp [h]
    · have h' : ¬ key = k := fun e => h e.symm
      simp [h, h', ih]

end Entries

/-- Entries with each key at most once. -/
structure Fields (α : Type) where
  /-- The entries, in order. -/
  entries : Entries α
  nodup : entries.keys.Nodup

namespace Fields

variable {α : Type}

instance [DecidableEq α] : DecidableEq (Fields α) := fun a b =>
  decidable_of_iff (a.entries = b.entries) (by cases a; cases b; simp)

theorem ext_entries {a b : Fields α} (h : a.entries = b.entries) : a = b := by
  cases a; cases b; simp_all

def empty : Fields α := ⟨[], by simp [Entries.keys]⟩

instance : Inhabited (Fields α) := ⟨empty⟩

def get? (f : Fields α) (key : String) : Option α := f.entries.get? key

def keys (f : Fields α) : List String := f.entries.keys

/-- Sets the value of a key; a new key stands at the end. -/
def put (f : Fields α) (key : String) (value : α) : Fields α :=
  ⟨f.entries.put key value, Entries.nodup_keys_put f.nodup key value⟩

def erase (f : Fields α) (key : String) : Fields α :=
  ⟨f.entries.erase key, Entries.nodup_keys_erase f.nodup key⟩

/-- Entries one after the other, a later one of a key in the place of the earlier. -/
def ofEntries (l : Entries α) : Fields α := ⟨l.merge, Entries.nodup_keys_merge l⟩

/-- All of `other` put after what is there. -/
def extend (f other : Fields α) : Fields α :=
  other.entries.foldl (fun acc e => acc.put e.1 e.2) f

@[simp] theorem get?_put (f : Fields α) (key key' : String) (v : α) :
    (f.put key v).get? key' = if key = key' then some v else f.get? key' :=
  Entries.get?_put f.entries key key' v

@[simp] theorem get?_erase (f : Fields α) (key key' : String) :
    (f.erase key).get? key' = if key = key' then none else f.get? key' :=
  Entries.get?_erase f.entries key key'

end Fields

end MailQueue
