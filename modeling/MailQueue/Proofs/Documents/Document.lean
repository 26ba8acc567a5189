import MailQueue.Documents.Document
import MailQueue.Proofs.Letter

/-!
# Documents read back and updated

A task and a patch are no objects of a reserved form, and neither is a mail: each has a key without
a dollar. A further field of a mail may hold one, and is then read back as what was stored for it.

* `Value.Ordinary` are the values without such objects, which are read back as they are
  (`Datum.toValue_of_ofValue?`);
* `entriesOf` is what the document of a plain task is made of (`taskDocument?_eq`);
* `Shown` are the fields that filters look at;
* `taskDocument?_apply`: setting the fields of a patch in the document of a task makes the document
  of the patched task;
* `Task.stored` is the task as it is read back, `taskOf?_of_taskDocument?`: so the document of a
  plain task gives it back.
-/

namespace MailQueue

/-! ### What a program can hold -/

namespace Mail

variable {m : Mail}

theorem Plain.lawful_written (h : m.Plain) : m.written.Lawful := by
  have hknown : m.known.keys.Nodup := (by decide : knownKeys.Nodup).sublist m.keys_known_sublist
  have hkeys : (Entries.keys m.entries).Nodup := by
    rw [entries_eq, Entries.keys, List.map_append]
    refine List.nodup_append.2 ⟨hknown, m.extra.nodup, ?_⟩
    rintro k hk _ hk' rfl
    obtain ⟨e, he, rfl⟩ := List.mem_map.1 hk'
    exact h.names e he (m.keys_known_sublist.subset hk)
  refine ⟨hkeys, Value.lawfulEntries_iff.2 fun e he => ?_⟩
  rcases List.mem_append.1 he with he | he
  · rcases mem_known he with hv | ⟨s, hv⟩ <;> rw [hv]
    · exact m.recipient.lawful_toValue
    · trivial
  · exact Value.lawfulEntries_iff.1 h.lawful e he

theorem lawful_list_written {ms : List Mail} (h : ∀ m ∈ ms, m.Plain) :
    (Value.list (ms.map written)).Lawful := by
  refine Value.lawfulItems_iff.2 fun v hv => ?_
  obtain ⟨m, hm, rfl⟩ := List.mem_map.1 hv
  exact (h m hm).lawful_written

end Mail

theorem Task.Plain.toValue_eq {t : Task} (h : t.Plain) : t.toValue = t.written := by
  have hkeys : (Entries.keys (t.header ++
      [("mailOptions", Value.list (t.fragments.map Mail.written))])).Sublist keys := by
    rcases t with
      ⟨id, r, attempts, sendAt, sent, cancelled, failed, template, transport, subject, ms⟩
    cases template <;> cases subject <;> exact List.isSublist_iff_sublist.1 rfl
  refine Value.merged_eq _ ⟨(by decide : keys.Nodup).sublist hkeys,
    Value.lawfulEntries_iff.2 fun e he => ?_⟩
  rcases List.mem_append.1 he with he | he
  · exact lawful_header h.transport e he
  · obtain rfl := List.mem_singleton.1 he
    exact Mail.lawful_list_written h.fragments

namespace Patch

variable {p : Patch} {e : String × Value}

theorem keys_toList_sublist {α : Type} (o : Option α) (k : String) (v : α → Value) :
    (Entries.keys (o.map fun a => (k, v a)).toList).Sublist [k] := by
  cases o
  · exact List.nil_sublist _
  · exact List.Sublist.refl _

theorem nodup_keys_written (p : Patch) : p.written.keys.Nodup := by
  have hkeys : p.written.keys.Sublist
      (["tries"] ++ ["sendAt"] ++ ["isSent"] ++ ["isCancelled"] ++ ["isFailed"] ++ ["transport"] ++
        ["mailOptions"]) := by
    simp only [written, Entries.keys, List.map_append]
    repeat' refine List.Sublist.append ?_ (keys_toList_sublist _ _ _)
    exact keys_toList_sublist _ _ _
  exact List.Nodup.sublist hkeys (by decide)

theorem Plain.lawful_written (h : p.Plain) (he : e ∈ p.written) : e.2.Lawful := by
  simp only [written, List.mem_append, Option.mem_toList, Option.map_eq_some_iff] at he
  rcases he with ((((((⟨n, -, rfl⟩ | ⟨u, -, rfl⟩) | ⟨b, -, rfl⟩) | ⟨b, -, rfl⟩) | ⟨b, -, rfl⟩) |
    ⟨n, hn, rfl⟩) | ⟨ms, hms, rfl⟩)
  · exact Value.lawful_nat (Nat.lt_trans n.toNat_lt (by decide))
  · exact Value.lawful_ms u
  · trivial
  · trivial
  · trivial
  · exact Value.lawful_nat (h.transport n hn)
  · exact Mail.lawful_list_written (h.fragments ms hms)

theorem Plain.toValue_eq (h : p.Plain) : p.toValue = .object p.written :=
  Value.merged_eq _
    ⟨p.nodup_keys_written, Value.lawfulEntries_iff.2 fun _ he => h.lawful_written he⟩

end Patch

/-! ### The objects in a value -/

namespace Value

section

variable (P : Entries Value → Prop)

mutual

/-- The entries of each object in the value have the property, however deep it stands. -/
def EachObject : Value → Prop
  | list items => EachObjectOfItems items
  | object entries => P entries ∧ EachObjectOfEntries entries
  | _ => True

def EachObjectOfItems : List Value → Prop
  | [] => True
  | v :: rest => EachObject v ∧ EachObjectOfItems rest

def EachObjectOfEntries : List (String × Value) → Prop
  | [] => True
  | (_, v) :: rest => EachObject v ∧ EachObjectOfEntries rest

end

end

/-- Entries that are in no reserved form, whatever the forms: not all their keys are reserved. -/
def Unreserved (es : Entries Value) : Prop :=
  es ≠ [] → ∃ e ∈ es, Documents.isReserved e.1 = false

/-- No object in it may stand for something else. -/
def Ordinary (v : Value) : Prop := v.EachObject Unreserved

theorem eachObjectOfItems_iff {P : Entries Value → Prop} {vs : List Value} :
    EachObjectOfItems P vs ↔ ∀ v ∈ vs, v.EachObject P := by
  induction vs with
  | nil => simp [EachObjectOfItems]
  | cons v vs ih => simp [EachObjectOfItems, ih]

end Value

theorem Recipient.ordinary_toValue (r : Recipient) : r.toValue.Ordinary := by
  cases r with
  | one address => simp [toValue, Value.Ordinary, Value.EachObject]
  | many addresses =>
    simp [toValue, Value.Ordinary, Value.EachObject, Value.eachObjectOfItems_iff]

namespace Documents

/-- The entries with further ones put in their places, one after the other. -/
def putAll {α : Type} (d fields : Entries α) : Entries α :=
  fields.foldl (fun acc e => Entries.put acc e.1 e.2) d

theorem putAll_cons {α : Type} (d fields : Entries α) (k : String) (x : α) :
    putAll d ((k, x) :: fields) = putAll (d.put k x) fields := rfl

theorem putAll_append {α : Type} (d fs gs : Entries α) :
    putAll d (fs ++ gs) = putAll (putAll d fs) gs := List.foldl_append ..

/-! ### Values encoded -/

namespace Datum

section

variable {forms : Forms} {es fs : Entries Value} {d ds : Entries Datum} {k : String} {v : Value}
  {x : Datum}

theorem ofEntries?_cons : ofEntries? forms ((k, v) :: es) =
    (ofValue? forms v).bind fun x => (ofEntries? forms es).map ((k, x) :: ·) := by
  rw [ofEntries?]
  rcases ofValue? forms v with _ | x
  · rfl
  · rcases ofEntries? forms es with _ | d <;> rfl

theorem ofEntries?_cons_eq_some : ofEntries? forms ((k, v) :: es) = some d ↔
    ∃ x d', ofValue? forms v = some x ∧ ofEntries? forms es = some d' ∧ d = (k, x) :: d' := by
  simp only [ofEntries?_cons, Option.bind_eq_some_iff, Option.map_eq_some_iff]
  constructor
  · rintro ⟨x, hv, d', hes, rfl⟩
    exact ⟨x, d', hv, hes, rfl⟩
  · rintro ⟨x, d', hv, hes, rfl⟩
    exact ⟨x, hv, d', hes, rfl⟩

theorem ofEntries?_put (h : ofEntries? forms es = some d) (hv : ofValue? forms v = some x) :
    ofEntries? forms (es.put k v) = some (d.put k x) := by
  induction es generalizing d with
  | nil =>
    obtain rfl := Option.some.inj h
    exact ofEntries?_cons_eq_some.2 ⟨x, [], hv, rfl, rfl⟩
  | cons e es ih =>
    obtain ⟨k', w⟩ := e
    obtain ⟨y, d', hw, hes, rfl⟩ := ofEntries?_cons_eq_some.1 h
    by_cases hk : k' = k
    · rw [Entries.put, Entries.put, if_pos hk, if_pos hk]
      exact ofEntries?_cons_eq_some.2 ⟨x, d', hv, hes, rfl⟩
    · rw [Entries.put, Entries.put, if_neg hk, if_neg hk]
      exact ofEntries?_cons_eq_some.2 ⟨y, _, hw, ih hes, rfl⟩

theorem ofEntries?_putAll (h : ofEntries? forms es = some d) (hf : ofEntries? forms fs = some ds) :
    ofEntries? forms (putAll es fs) = some (putAll d ds) := by
  induction fs generalizing es d ds with
  | nil =>
    obtain rfl := Option.some.inj hf
    exact h
  | cons e fs ih =>
    obtain ⟨k, v⟩ := e
    obtain ⟨x, ds', hv, hfs, rfl⟩ := ofEntries?_cons_eq_some.1 hf
    rw [putAll_cons, putAll_cons]
    exact ih (ofEntries?_put h hv) hfs

theorem ofEntries?_append (es fs : Entries Value) : ofEntries? forms (es ++ fs) =
    (ofEntries? forms es).bind fun d => (ofEntries? forms fs).map (d ++ ·) := by
  induction es with
  | nil => simp [ofEntries?]
  | cons e es ih =>
    obtain ⟨k, v⟩ := e
    rw [List.cons_append, ofEntries?_cons, ofEntries?_cons, ih]
    rcases ofValue? forms v with _ | x
    · rfl
    · rcases ofEntries? forms es with _ | d
      · rfl
      · rcases ofEntries? forms fs with _ | ds <;> rfl

theorem keys_ofEntries? (h : ofEntries? forms es = some d) : d.keys = es.keys := by
  induction es generalizing d with
  | nil =>
    obtain rfl := Option.some.inj h
    rfl
  | cons e es ih =>
    obtain ⟨x, d', -, hes, rfl⟩ := ofEntries?_cons_eq_some.1 h
    exact congrArg (e.1 :: ·) (ih hes)

theorem exists_of_get? (h : ofEntries? forms es = some d) (hv : es.get? k = some v) :
    ∃ x, ofValue? forms v = some x ∧ d.get? k = some x := by
  induction es generalizing d with
  | nil => cases hv
  | cons e es ih =>
    obtain ⟨x, d', hx, hes, rfl⟩ := ofEntries?_cons_eq_some.1 h
    rw [Entries.get?_cons] at hv
    simp only [Entries.get?_cons]
    split at hv
    · next hk =>
      obtain rfl := Option.some.inj hv
      exact ⟨x, hx, if_pos hk⟩
    · next hk =>
      rw [if_neg hk]
      exact ih hes hv

theorem get?_text (h : ofEntries? forms es = some d) {s : String}
    (hv : es.get? k = some (.text s)) : d.get? k = some (text s) := by
  obtain ⟨x, hx, hd⟩ := exists_of_get? h hv
  exact hd.trans hx.symm

theorem get?_bool (h : ofEntries? forms es = some d) {b : Bool}
    (hv : es.get? k = some (.bool b)) : d.get? k = some (bool b) := by
  obtain ⟨x, hx, hd⟩ := exists_of_get? h hv
  exact hd.trans hx.symm

theorem get?_int (h : ofEntries? forms es = some d) {i : Int} (hv : es.get? k = some (.int i)) :
    d.get? k = some (int i) := by
  obtain ⟨x, hx, hd⟩ := exists_of_get? h hv
  rw [ofValue?] at hx
  split at hx
  · exact hd.trans hx.symm
  · cases hx

theorem length_ofItems? {vs : List Value} {xs : List Datum} (h : ofItems? forms vs = some xs) :
    xs.length = vs.length := by
  induction vs generalizing xs with
  | nil =>
    obtain rfl := Option.some.inj h
    rfl
  | cons v vs ih =>
    rw [ofItems?] at h
    obtain ⟨x, -, h⟩ := Option.bind_eq_some_iff.1 h
    obtain ⟨xs', hvs, h⟩ := Option.bind_eq_some_iff.1 h
    obtain rfl := Option.some.inj h
    rw [List.length_cons, List.length_cons, ih hvs]

theorem get?_list (h : ofEntries? forms es = some d) {vs : List Value}
    (hv : es.get? k = some (.list vs)) :
    ∃ xs, d.get? k = some (list xs) ∧ xs.length = vs.length := by
  obtain ⟨x, hx, hd⟩ := exists_of_get? h hv
  rw [ofValue?] at hx
  obtain ⟨xs, hxs, rfl⟩ := Option.map_eq_some_iff.1 hx
  exact ⟨xs, hd, length_ofItems? hxs⟩

/-- An object with a key that no reserved form has becomes a document. -/
theorem ofValue?_object {e : String × Value} (he : e ∈ es) (hk : isReserved e.1 = false) :
    ofValue? forms (.object es) = (ofEntries? forms es).map document := by
  rw [ofValue?]
  rcases hd : ofEntries? forms es with _ | d
  · rfl
  · have hmem : e.1 ∈ Entries.keys d :=
      keys_ofEntries? hd ▸ List.mem_map_of_mem (f := Prod.fst) he
    obtain ⟨y, hy, hye⟩ := List.mem_map.1 hmem
    have hnone : forms.datum? d = none := by
      refine Option.eq_none_iff_forall_ne_some.2 fun x hx => ?_
      have hreserved := (forms.reserved hx).2 y hy
      rw [hye, hk] at hreserved
      cases hreserved
    rw [Option.map_some, Option.map_some, hnone, Option.getD_none]

theorem ofValue?_object_nil : ofValue? forms (.object []) = some (document []) := by
  have hnone : forms.datum? [] = none :=
    Option.eq_none_iff_forall_ne_some.2 fun x hx => (forms.reserved hx).1 rfl
  rw [ofValue?, ofEntries?, Option.map_some, hnone, Option.getD_none]

end

/-! ### Values read back -/

section

variable (forms : Forms)

/-- What a value is read back as from a document. -/
def readBack (v : Value) : Value := ((ofValue? forms v).map toValue).getD v

variable {forms} {es : Entries Value} {d : Entries Datum} {v : Value} {x : Datum}

theorem readBack_of_ofValue? (h : ofValue? forms v = some x) : readBack forms v = x.toValue := by
  rw [readBack, h]
  rfl

theorem toItems_of_ofItems? {vs : List Value} {xs : List Datum}
    (h : ofItems? forms vs = some xs) : toItems xs = vs.map (readBack forms) := by
  induction vs generalizing xs with
  | nil =>
    obtain rfl := Option.some.inj h
    rfl
  | cons v vs ih =>
    rw [ofItems?] at h
    obtain ⟨x, hv, h⟩ := Option.bind_eq_some_iff.1 h
    obtain ⟨xs', hvs, h⟩ := Option.bind_eq_some_iff.1 h
    obtain rfl := Option.some.inj h
    rw [toItems, List.map_cons, readBack_of_ofValue? hv, ih hvs]

theorem toEntries_of_ofEntries? (h : ofEntries? forms es = some d) :
    toEntries d = es.map fun e => (e.1, readBack forms e.2) := by
  induction es generalizing d with
  | nil =>
    obtain rfl := Option.some.inj h
    rfl
  | cons e es ih =>
    obtain ⟨x, d', hv, hes, rfl⟩ := ofEntries?_cons_eq_some.1 h
    rw [toEntries, List.map_cons, readBack_of_ofValue? hv, ih hes]

end

mutual

/-- An ordinary value is read back as it is. -/
theorem toValue_of_ofValue? {forms : Forms} (v : Value) (hl : v.Lawful) (ho : v.Ordinary)
    {x : Datum} (h : ofValue? forms v = some x) : x.toValue = v := by
  match v with
  | .null => obtain rfl := Option.some.inj h; rfl
  | .bool b => obtain rfl := Option.some.inj h; rfl
  | .text s => obtain rfl := Option.some.inj h; rfl
  | .float f =>
    obtain rfl := Option.some.inj h
    exact if_pos hl
  | .int i =>
    rw [ofValue?] at h
    split at h
    · obtain rfl := Option.some.inj h; rfl
    · cases h
  | .list items =>
    rw [ofValue?, Option.map_eq_some_iff] at h
    obtain ⟨xs, hxs, rfl⟩ := h
    rw [toValue, toItems_of_ordinary items hl ho hxs]
  | .object [] =>
    rw [ofValue?_object_nil] at h
    obtain rfl := Option.some.inj h
    rfl
  | .object (e :: es) =>
    obtain ⟨hkey, hes⟩ := ho
    obtain ⟨e', he', hk⟩ := hkey (by simp)
    rw [ofValue?_object he' hk, Option.map_eq_some_iff] at h
    obtain ⟨d, hd, rfl⟩ := h
    rw [toValue, toEntries_of_ordinary (e :: es) hl.2 hes hd]

theorem toItems_of_ordinary {forms : Forms} (vs : List Value) (hl : Value.LawfulItems vs)
    (ho : Value.EachObjectOfItems Value.Unreserved vs) {xs : List Datum}
    (h : ofItems? forms vs = some xs) : toItems xs = vs := by
  match vs with
  | [] => obtain rfl := Option.some.inj h; rfl
  | v :: vs =>
    rw [ofItems?] at h
    obtain ⟨x, hv, h⟩ := Option.bind_eq_some_iff.1 h
    obtain ⟨xs', hvs, h⟩ := Option.bind_eq_some_iff.1 h
    obtain rfl := Option.some.inj h
    rw [toItems, toValue_of_ofValue? v hl.1 ho.1 hv, toItems_of_ordinary vs hl.2 ho.2 hvs]

theorem toEntries_of_ordinary {forms : Forms} (es : List (String × Value))
    (hl : Value.LawfulEntries es) (ho : Value.EachObjectOfEntries Value.Unreserved es)
    {d : List (String × Datum)} (h : ofEntries? forms es = some d) : toEntries d = es := by
  match es with
  | [] => obtain rfl := Option.some.inj h; rfl
  | (k, v) :: es =>
    obtain ⟨x, d', hv, hes, rfl⟩ := ofEntries?_cons_eq_some.1 h
    rw [toEntries, toValue_of_ofValue? v hl.1 ho.1 hv, toEntries_of_ordinary es hl.2 ho.2 hes]

end

theorem readBack_of_ordinary {forms : Forms} {v : Value} (hl : v.Lawful) (ho : v.Ordinary) :
    readBack forms v = v := by
  unfold readBack
  rcases h : ofValue? forms v with _ | x
  · rfl
  · exact toValue_of_ofValue? v hl ho h

theorem map_readBack_of_ordinary {forms : Forms} {es : Entries Value}
    (h : ∀ e ∈ es, e.2.Lawful ∧ e.2.Ordinary) :
    (es.map fun e => (e.1, readBack forms e.2)) = es := by
  conv_rhs => rw [← List.map_id es]
  exact List.map_congr_left fun e he => by rw [readBack_of_ordinary (h e he).1 (h e he).2]; rfl

end Datum

/-! ### The document of a task -/

/-- The entries of the document of a task, before they are encoded, with these values in the place
of its mails. -/
def entriesWith (t : Task) (mails : List Value) : Entries Value :=
  t.header ++ [("mailOptions", .list mails)] ++ [(recipientKey, .text t.recipient.groupingKey)]

def entriesOf (t : Task) : Entries Value := entriesWith t (t.fragments.map Mail.written)

/-- What the filters look at in the document of a task. -/
structure Shown (d : Document) (t : Task) : Prop where
  id : d.get? "uuid" = some (.text t.id.text)
  attempts : d.get? "tries" = some (.int t.attempts.toNat)
  sendAt : d.get? "sendAt" = some (.int t.sendAt.ms)
  sent : d.get? "isSent" = some (.bool t.sent)
  cancelled : d.get? "isCancelled" = some (.bool t.cancelled)
  failed : d.get? "isFailed" = some (.bool t.failed)
  recipient : d.get? recipientKey = some (.text t.recipient.groupingKey)
  fragments : ∃ items, d.get? "mailOptions" = some (.list items) ∧
    items.length = t.fragments.length

section

variable {forms : Forms} {t : Task} {p : Patch} {d fields : Document}

theorem entriesOf_eq_put (t : Task) : entriesOf t =
    Entries.put (t.header ++ [("mailOptions", .list (t.fragments.map Mail.written))])
      recipientKey (.text t.recipient.groupingKey) := by
  rcases t with ⟨id, r, attempts, sendAt, sent, cancelled, failed, template, transport, subject, ms⟩
  cases template <;> cases subject <;> rfl

theorem taskDocument?_eq (h : t.Plain) :
    taskDocument? forms t = Datum.ofEntries? forms (entriesOf t) := by
  have hput := entriesOf_eq_put t
  have hcut : entriesOf t = _ ++ _ := rfl
  have hid : ("uuid", Value.text t.id.text) ∈
      t.header ++ [("mailOptions", .list (t.fragments.map Mail.written))] := by
    simp [Task.header]
  have hobject : Datum.ofValue? forms (.object _) = _ :=
    Datum.ofValue?_object hid (by simp [isReserved])
  rw [taskDocument?, h.toValue_eq, Task.written_eq, hobject]
  generalize t.header ++ [("mailOptions", .list (t.fragments.map Mail.written))] = es at *
  rcases hes : Datum.ofEntries? forms es with _ | d
  · rw [hcut, Datum.ofEntries?_append, hes]
    rfl
  · rw [hput, Datum.ofEntries?_put hes rfl]
    rfl

theorem isReserved_of_patch {e : String × Value} (he : e ∈ p.written) :
    isReserved e.1 = false := by
  simp only [Patch.written, List.mem_append, Option.mem_toList, Option.map_eq_some_iff] at he
  rcases he with ((((((⟨n, -, rfl⟩ | ⟨u, -, rfl⟩) | ⟨b, -, rfl⟩) | ⟨b, -, rfl⟩) | ⟨b, -, rfl⟩) |
    ⟨n, -, rfl⟩) | ⟨ms, -, rfl⟩) <;> simp [isReserved]

theorem patchDocument?_eq (h : p.Plain) :
    patchDocument? forms p = Datum.ofEntries? forms p.written := by
  rw [patchDocument?, h.toValue_eq]
  rcases hw : p.written with _ | ⟨e, es⟩
  · rw [Datum.ofValue?_object_nil]
    rfl
  · have hmem : e ∈ p.written := hw ▸ List.mem_cons_self
    rw [Datum.ofValue?_object List.mem_cons_self (isReserved_of_patch hmem)]
    rcases Datum.ofEntries? forms (e :: es) with _ | d <;> rfl

theorem get?_entriesOf_fragments (t : Task) :
    (entriesOf t).get? "mailOptions" = some (.list (t.fragments.map Mail.written)) := by
  rcases t with ⟨id, r, attempts, sendAt, sent, cancelled, failed, template, transport, subject, ms⟩
  cases template <;> cases subject <;> rfl

theorem shown_of_taskDocument? (ht : t.Plain) (h : taskDocument? forms t = some d) :
    Shown d t := by
  rw [taskDocument?_eq ht] at h
  have hrecipient : (entriesOf t).get? recipientKey = some (.text t.recipient.groupingKey) := by
    rw [entriesOf_eq_put, Entries.get?_put, if_pos rfl]
  obtain ⟨items, hitems, hlength⟩ := Datum.get?_list h (get?_entriesOf_fragments t)
  exact ⟨Datum.get?_text h rfl, Datum.get?_int h rfl, Datum.get?_int h rfl, Datum.get?_bool h rfl,
    Datum.get?_bool h rfl, Datum.get?_bool h rfl, Datum.get?_text h hrecipient, items, hitems,
    by rw [hlength, List.length_map]⟩

/-! ### Setting fields -/

theorem putAll_attempts (t : Task) (o : Option UInt32) :
    putAll (entriesOf t) (o.map fun n => ("tries", Value.nat n.toNat)).toList =
      entriesOf { t with attempts := o.getD t.attempts } := by
  cases o <;> rfl

theorem putAll_sendAt (t : Task) (o : Option Instant) :
    putAll (entriesOf t) (o.map fun u => ("sendAt", Value.int u.ms)).toList =
      entriesOf { t with sendAt := o.getD t.sendAt } := by
  cases o <;> rfl

theorem putAll_sent (t : Task) (o : Option Bool) :
    putAll (entriesOf t) (o.map fun b => ("isSent", Value.bool b)).toList =
      entriesOf { t with sent := o.getD t.sent } := by
  cases o <;> rfl

theorem putAll_cancelled (t : Task) (o : Option Bool) :
    putAll (entriesOf t) (o.map fun b => ("isCancelled", Value.bool b)).toList =
      entriesOf { t with cancelled := o.getD t.cancelled } := by
  cases o <;> rfl

theorem putAll_failed (t : Task) (o : Option Bool) :
    putAll (entriesOf t) (o.map fun b => ("isFailed", Value.bool b)).toList =
      entriesOf { t with failed := o.getD t.failed } := by
  cases o <;> rfl

theorem putAll_transport (t : Task) (o : Option Nat) :
    putAll (entriesOf t) (o.map fun n => ("transport", Value.nat n)).toList =
      entriesOf { t with transport := o.getD t.transport } := by
  rcases t with ⟨id, r, attempts, sendAt, sent, cancelled, failed, template, transport, subject, ms⟩
  cases o <;> cases template <;> rfl

theorem putAll_fragments (t : Task) (o : Option (List Mail)) :
    putAll (entriesOf t)
        (o.map fun ms => ("mailOptions", Value.list (ms.map Mail.written))).toList =
      entriesOf { t with fragments := o.getD t.fragments } := by
  rcases t with ⟨id, r, attempts, sendAt, sent, cancelled, failed, template, transport, subject, ms⟩
  cases o <;> cases template <;> cases subject <;> rfl

theorem putAll_written (p : Patch) (t : Task) :
    putAll (entriesOf t) p.written = entriesOf (p.apply t) := by
  simp only [Patch.written, putAll_append, putAll_attempts, putAll_sendAt, putAll_sent,
    putAll_cancelled, putAll_failed, putAll_transport, putAll_fragments]
  rfl

/-- **Setting the fields of a patch** in the document of a task makes the document of the patched
task. -/
theorem taskDocument?_apply (ht : t.Plain) (hp : p.Plain) (h : taskDocument? forms t = some d)
    (hf : patchDocument? forms p = some fields) :
    taskDocument? forms (p.apply t) = some (putAll d fields) := by
  rw [taskDocument?_eq ht] at h
  rw [patchDocument?_eq hp] at hf
  rw [taskDocument?_eq (hp.apply ht), ← putAll_written]
  exact Datum.ofEntries?_putAll h hf

end

end Documents

/-! ### Reading back -/

open Documents

section

variable (forms : Forms)

/-- The mail as it is read back: its further fields may have been stored as something else. -/
def Mail.stored (m : Mail) : Mail :=
  { m with extra := .ofEntries <| Value.mergedEntries <|
      m.extra.entries.map fun e => (e.1, Datum.readBack forms e.2) }

/-- The task as it is read back. -/
def Task.stored (t : Task) : Task :=
  { t with fragments := t.fragments.map fun m => m.stored forms }

end

namespace Mail

variable {forms : Forms} {m : Mail}

theorem map_readBack_known :
    (m.known.map fun e => (e.1, Datum.readBack forms e.2)) = m.known := by
  refine Datum.map_readBack_of_ordinary fun e he => ?_
  rcases mem_known he with hv | ⟨s, hv⟩ <;> rw [hv]
  · exact ⟨m.recipient.lawful_toValue, m.recipient.ordinary_toValue⟩
  · exact ⟨trivial, trivial⟩

theorem readBack_written {x : Datum} (h : Datum.ofValue? forms m.written = some x) :
    Datum.readBack forms m.written =
      .object (m.known ++ m.extra.entries.map fun e => (e.1, Datum.readBack forms e.2)) := by
  have hto : ("to", m.recipient.toValue) ∈ m.entries := List.mem_cons_self
  have hx := h
  rw [written, Datum.ofValue?_object hto (by simp [isReserved])] at hx
  obtain ⟨d, hd, rfl⟩ := Option.map_eq_some_iff.1 hx
  rw [Datum.readBack_of_ofValue? h, Datum.toValue, Datum.toEntries_of_ofEntries? hd, entries_eq,
    List.map_append, map_readBack_known]

theorem Plain.ofValue_readBack (hp : m.Plain) {x : Datum}
    (h : Datum.ofValue? forms m.written = some x) :
    ofValue (Datum.readBack forms m.written) = .ok (m.stored forms) := by
  rw [readBack_written h]
  refine ofEntries_known_append fun e he => ?_
  obtain ⟨e', he', rfl⟩ := List.mem_map.1 he
  exact hp.names e' he'

theorem mapM_ofValue_readBack {ms : List Mail} (hp : ∀ m ∈ ms, m.Plain) {xs : List Datum}
    (h : Datum.ofItems? forms (ms.map written) = some xs) :
    ((ms.map written).map (Datum.readBack forms)).mapM ofValue =
      .ok (ms.map fun m => m.stored forms) := by
  induction ms generalizing xs with
  | nil => rfl
  | cons m ms ih =>
    rw [List.map_cons, Datum.ofItems?] at h
    obtain ⟨x, hx, h⟩ := Option.bind_eq_some_iff.1 h
    obtain ⟨xs', hxs, -⟩ := Option.bind_eq_some_iff.1 h
    rw [List.map_cons, List.map_cons, List.mapM_cons, (hp m (by simp)).ofValue_readBack hx,
      ih (fun m hm => hp m (by simp [hm])) hxs]
    rfl

/-- A mail without objects of a reserved form is read back as it is. -/
theorem Plain.stored_eq (hp : m.Plain) (ho : ∀ e ∈ m.extra.entries, e.2.Ordinary) :
    m.stored forms = m := by
  have hextra : (m.extra.entries.map fun e => (e.1, Datum.readBack forms e.2)) = m.extra.entries :=
    Datum.map_readBack_of_ordinary fun e he =>
      ⟨Value.lawfulEntries_iff.1 hp.lawful e he, ho e he⟩
  rw [stored, hextra, Value.mergedEntries_eq _ hp.lawful, Fields.ofEntries_entries]

end Mail

namespace Task

variable {forms : Forms} {t : Task}

/-- The further fields of the mails hold no objects of a reserved form. -/
def Ordinary (t : Task) : Prop := ∀ m ∈ t.fragments, ∀ e ∈ m.extra.entries, e.2.Ordinary

theorem Plain.stored_eq (ht : t.Plain) (ho : t.Ordinary) : t.stored forms = t := by
  have hms : (t.fragments.map fun m => m.stored forms) = t.fragments := by
    conv_rhs => rw [← List.map_id t.fragments]
    exact List.map_congr_left fun m hm => (ht.fragments m hm).stored_eq (ho m hm)
  rw [stored, hms]

theorem map_readBack_header (ht : t.transport < UInt64.size) :
    (t.header.map fun e => (e.1, Datum.readBack forms e.2)) = t.header := by
  refine Datum.map_readBack_of_ordinary fun e he => ⟨lawful_header ht e he, ?_⟩
  exact forall_header (P := Value.Ordinary) (fun s => trivial) (fun b => trivial)
    t.recipient.ordinary_toValue trivial trivial trivial e he

end Task

namespace Documents

/-- No key in it, however deep, has the character that ends a key on the way to a server. -/
def Sendable (d : Document) : Prop :=
  (Datum.document d).toValue.EachObject fun es => ∀ k ∈ Entries.keys es, '\x00' ∉ k.toList

variable {forms : Forms} {t : Task} {d : Document}

theorem once_entriesWith {vs : List Value} {k : String} (hk : k ≠ recipientKey) :
    Reading.once (entriesWith t vs) k =
      Reading.once (t.header ++ [("mailOptions", .list vs)]) k := by
  have hnil :
      [(recipientKey, Value.text t.recipient.groupingKey)].filter (fun e => e.1 == k) = [] :=
    List.filter_eq_nil_iff.2 fun e he => by
      rw [List.mem_singleton.1 he]
      simpa using Ne.symm hk
  rw [entriesWith, Reading.once, Reading.once, List.filter_append, hnil, List.append_nil]

theorem ofEntries_entriesWith (t : Task) (vs : List Value) : Task.ofEntries (entriesWith t vs) =
    Task.ofEntries (t.header ++ [("mailOptions", .list vs)]) := by
  simp only [Task.ofEntries, Reading.required, Reading.withDefault, Reading.optional,
    once_entriesWith (show "uuid" ≠ recipientKey by decide),
    once_entriesWith (show "to" ≠ recipientKey by decide),
    once_entriesWith (show "tries" ≠ recipientKey by decide),
    once_entriesWith (show "sendAt" ≠ recipientKey by decide),
    once_entriesWith (show "isSent" ≠ recipientKey by decide),
    once_entriesWith (show "isCancelled" ≠ recipientKey by decide),
    once_entriesWith (show "isFailed" ≠ recipientKey by decide),
    once_entriesWith (show "template" ≠ recipientKey by decide),
    once_entriesWith (show "transport" ≠ recipientKey by decide),
    once_entriesWith (show "concatSubject" ≠ recipientKey by decide),
    once_entriesWith (show "mailOptions" ≠ recipientKey by decide)]

/-- The document of a task is read as its entries, with the mails as they are read back. -/
theorem toEntries_of_taskDocument? (ht : t.Plain) (h : taskDocument? forms t = some d) :
    ∃ xs, Datum.ofItems? forms (t.fragments.map Mail.written) = some xs ∧
      Datum.toEntries d =
        entriesWith t ((t.fragments.map Mail.written).map (Datum.readBack forms)) := by
  rw [taskDocument?_eq ht] at h
  obtain ⟨x, hx, -⟩ := Datum.exists_of_get? h (get?_entriesOf_fragments t)
  obtain ⟨xs, hxs, rfl⟩ := Option.map_eq_some_iff.1 hx
  refine ⟨xs, hxs, ?_⟩
  have hlist : Datum.readBack forms (.list (t.fragments.map Mail.written)) =
      .list ((t.fragments.map Mail.written).map (Datum.readBack forms)) := by
    rw [Datum.readBack_of_ofValue? hx, Datum.toValue, Datum.toItems_of_ofItems? hxs]
  rw [Datum.toEntries_of_ofEntries? h, entriesOf, entriesWith, List.map_append, List.map_append,
    Task.map_readBack_header ht.transport]
  simp only [List.map_cons, List.map_nil, hlist]
  rfl

/-- **The document of a task gives the task back** as it was stored. -/
theorem taskOf?_of_taskDocument? (ht : t.Plain) (h : taskDocument? forms t = some d) :
    taskOf? d = some (t.stored forms) := by
  obtain ⟨xs, hxs, hd⟩ := toEntries_of_taskDocument? ht h
  have hms := Mail.mapM_ofValue_readBack ht.fragments hxs
  have hread := Task.ofValue_header ht.transport
    ((t.fragments.map Mail.written).map (Datum.readBack forms))
  rw [hms] at hread
  have hentries : Task.ofEntries (Datum.toEntries d) = .ok (t.stored forms) := by
    rw [hd, ofEntries_entriesWith]
    exact hread.trans (by rw [ht.aligned]; rfl)
  rw [taskOf?, Datum.toValue]
  show (Task.ofEntries (Datum.toEntries d)).toOption = some (t.stored forms)
  rw [hentries]
  rfl

end Documents

end MailQueue
