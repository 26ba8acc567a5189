import MailQueue.Proofs.Compile.Fields
import MailQueue.Request

/-!
# Flat payloads

The fields of a mail, of a message and of a request stand beside each other in one object. Reading
hands each key to one of three places, the well-known fields, the scheduling or the further fields,
and writing puts each of them back once.

* `Value.withoutNulls` leaves out the keys that say nothing: null under the name of an optional
  field;
* `Mail.Reads.get?_entries` and `get?_payload`: the persisted form and the flat view of a mail have
  what it was read from, key by key;
* `Request.Reads` says the same of a request, whose mail knows nothing of the scheduling;
* `payloads_flat`: nothing is lost, added or changed.
-/

namespace MailQueue

open Reading

/-! ### Entries up to order -/

namespace Entries

variable {α : Type} {l l' : Entries α}

theorem get?_append (l l' : Entries α) (k : String) :
    Entries.get? (l ++ l') k = (l.get? k).or (l'.get? k) := by
  induction l with
  | nil => rfl
  | cons e l ih =>
    obtain ⟨k', v⟩ := e
    rw [List.cons_append, get?_cons, get?_cons]
    split
    · rfl
    · exact ih

/-- With each key once, a choice of entries is told by the look-up. -/
theorem get?_filter_of_nodup (hn : l.keys.Nodup) (test : String × α → Bool) (k : String) :
    Entries.get? (l.filter test) k = (l.get? k).filter fun v => test (k, v) := by
  induction l with
  | nil => rfl
  | cons e l ih =>
    obtain ⟨k', v⟩ := e
    obtain ⟨hk', hn⟩ := List.nodup_cons.1 hn
    rw [get?_cons]
    by_cases hk : k' = k
    · subst hk
      have hnone : Entries.get? l k' = none := get?_eq_none_iff.2 hk'
      cases ht : test (k', v) with
      | true => simp [List.filter_cons_of_pos, Option.filter, ht, get?_cons]
      | false => simp [List.filter_cons_of_neg, Option.filter, ht, ih hn, hnone]
    · rw [if_neg hk, ← ih hn, List.filter_cons]
      split
      · rw [get?_cons, if_neg hk]
      · rfl

/-- With each key once, entries are told by their look-ups up to order. -/
theorem perm_of_get? (hn : l.keys.Nodup) (hn' : l'.keys.Nodup)
    (h : ∀ k, l.get? k = l'.get? k) : l.Perm l' := by
  refine (List.perm_ext_iff_of_nodup (List.Nodup.of_map _ hn) (List.Nodup.of_map _ hn')).2 ?_
  intro e
  constructor
  · intro he
    exact mem_of_get? ((h e.1).symm.trans (get?_of_mem hn he))
  · intro he
    exact mem_of_get? ((h e.1).trans (get?_of_mem hn' he))

theorem nodup_keys_append (hn : l.keys.Nodup) (hn' : l'.keys.Nodup)
    (h : ∀ k ∈ l.keys, l'.get? k = none) : (l ++ l').keys.Nodup := by
  rw [keys, List.map_append]
  refine List.nodup_append.2 ⟨hn, hn', ?_⟩
  rintro k hk k' hk' rfl
  exact get?_eq_none_iff.1 (h k hk) hk'

end Entries

namespace Value

def isNull : Value → Bool
  | null => true
  | _ => false

/-- Leaves out what is null under one of these keys. -/
def withoutNulls (keys : List String) (es : Entries Value) : Entries Value :=
  es.filter fun e => !(decide (e.1 ∈ keys) && e.2.isNull)

variable {keys : List String} {es : Entries Value}

theorem get?_withoutNulls (hn : es.keys.Nodup) (k : String) :
    (withoutNulls keys es).get? k =
      if k ∈ keys then Mail.given (es.get? k) else es.get? k := by
  rw [withoutNulls, Entries.get?_filter_of_nodup hn]
  split
  · next hk =>
    rcases es.get? k with _ | v
    · rfl
    · cases v <;> simp [isNull, Mail.given, hk]
  · next hk => rcases es.get? k with _ | v <;> simp [hk]

theorem nodup_withoutNulls (hn : es.keys.Nodup) : (withoutNulls keys es).keys.Nodup :=
  hn.sublist (List.filter_sublist.map Prod.fst)

end Value

/-! ### Mails -/

namespace Mail

variable {p : Payload} {m : Mail} {k : String}

lemma eq_some_of_given {o : Option Value} {v : Value} (h : given o = some v) : o = some v := by
  rcases o with _ | w
  · cases h
  · cases w with
    | null => cases h
    | _ => exact h

lemma get?_known_of_not_mem (hk : k ∉ knownKeys) : m.known.get? k = none :=
  Entries.get?_eq_none_iff.2 fun h => hk ((keys_known_sublist m).subset h)

/-- The well-known fields are those that the mail was read from, but for null. -/
lemma Reads.get?_known (h : Reads p m) (hk : k ∈ knownKeys) :
    m.known.get? k = if k ∈ textKeys then given (p.get? k) else p.get? k := by
  have htext {e : String × Option String} (he : e ∈ m.texts) (hkey : e.1 ∈ textKeys)
      (hg : given (p.get? e.1) = e.2.map Value.text) :
      m.known.get? e.1 = if e.1 ∈ textKeys then given (p.get? e.1) else p.get? e.1 := by
    rw [if_pos hkey, get?_known_text he, hg]
  simp only [knownKeys, List.mem_cons, List.not_mem_nil, or_false] at hk
  rcases hk with rfl | rfl | rfl | rfl | rfl
  · rw [if_neg (by decide), get?_known_to, h.recipient]
  · exact htext (e := ("from", m.sender)) (by simp [texts]) (by simp [textKeys]) h.sender
  · exact htext (e := ("subject", m.subject)) (by simp [texts]) (by simp [textKeys]) h.subject
  · exact htext (e := ("text", m.text)) (by simp [texts]) (by simp [textKeys]) h.text
  · exact htext (e := ("html", m.html)) (by simp [texts]) (by simp [textKeys]) h.html

lemma not_mem_textKeys (hk : k ∉ knownKeys) : k ∉ textKeys :=
  fun h => hk (List.mem_cons_of_mem _ h)

/-- Each key of the persisted form has what the mail was read from. -/
theorem Reads.get?_entries (h : Reads p m) (k : String) :
    m.entries.get? k = (Value.withoutNulls textKeys p.entries).get? k := by
  rw [entries_eq, Entries.get?_append, Value.get?_withoutNulls p.nodup]
  have hextra : m.extra.entries.get? k = if k ∈ knownKeys then none else p.get? k := h.extra k
  rw [hextra]
  by_cases hk : k ∈ knownKeys
  · rw [if_pos hk, Option.or_none, h.get?_known hk]
    rfl
  · rw [if_neg hk, get?_known_of_not_mem hk, Option.none_or, if_neg (not_mem_textKeys hk)]
    rfl

theorem Reads.nodup_entries (h : Reads p m) : m.entries.keys.Nodup := by
  rw [entries_eq]
  refine Entries.nodup_keys_append m.nodup_known m.extra.nodup fun k hk => ?_
  have hextra := h.extra k
  rwa [if_pos ((keys_known_sublist m).subset hk)] at hextra

lemma get?_payload_of_not_mem (hk : k ∉ knownKeys) : m.payload.get? k = m.extra.get? k := by
  simp only [knownKeys, List.mem_cons, List.not_mem_nil, or_false, not_or] at hk
  obtain ⟨hto, hfrom, hsubject, htext, hhtml⟩ := hk
  simp [payload, texts, get?_putText, Ne.symm hto, Ne.symm hfrom, Ne.symm hsubject, Ne.symm htext,
    Ne.symm hhtml]

theorem Reads.get?_payload (h : Reads p m) (k : String) :
    m.payload.get? k = m.entries.get? k := by
  rw [entries_eq, Entries.get?_append]
  by_cases hk : k ∈ knownKeys
  · have hextra : m.extra.entries.get? k = none := (h.extra k).trans (if_pos hk)
    rw [hextra, Option.or_none]
    by_cases hto : k = "to"
    · subst hto
      rw [get?_payload_to, get?_known_to]
    · obtain ⟨e, he, rfl⟩ := mem_texts_of_mem_knownKeys (m := m) hk hto
      have hextra' : m.extra.get? e.1 = none := hextra
      rw [get?_payload_text he, hextra', Option.or_none, get?_known_text he]
  · rw [get?_payload_of_not_mem hk, get?_known_of_not_mem hk, Option.none_or]
    rfl

/-- How a mail that was read gives back what it was read from. -/
structure Flat (es : Entries Value) (m : Mail) : Prop where
  /-- The written form is what was read, without the optional fields that were null. -/
  written : ∃ out, m.toValue = .object out ∧ out.Perm (Value.withoutNulls textKeys es)
  /-- So is the flat view. -/
  payload : m.payload.entries.Perm (Value.withoutNulls textKeys es)
  /-- The further fields are those without a place of their own, unchanged. -/
  extra : ∀ k, m.extra.get? k = if k ∈ knownKeys then none else es.get? k

theorem Reads.flat (h : Reads p m) : Flat p.entries m := by
  have hn : (Value.withoutNulls textKeys p.entries).keys.Nodup := Value.nodup_withoutNulls p.nodup
  refine ⟨⟨m.entries, ?_, ?_⟩, ?_, h.extra⟩
  · rw [toValue, Entries.merge_of_nodup h.nodup_entries]
  · exact Entries.perm_of_get? h.nodup_entries hn h.get?_entries
  · exact Entries.perm_of_get? m.payload.nodup hn fun k =>
      (h.get?_payload k).trans (h.get?_entries k)

end Mail

/-! ### Requests -/

namespace Request

variable {p : Payload} {r : Request} {k : String}

theorem ofEntries_eq_ok_iff {es : Entries Value} : ofEntries es = .ok r ↔
    Mail.ofEntries (es.filter fun e => decide (e.1 ∉ schedulingKeys)) = .ok r.mail ∧
      Reading.optional Reading.instant es "sendAt" = .ok r.sendAt ∧
      Reading.optional Reading.text es "template" = .ok r.template ∧
      Reading.optional Reading.text es "concatSubject" = .ok r.concatSubject := by
  obtain ⟨mail, sendAt, template, concatSubject⟩ := r
  unfold ofEntries
  rcases Reading.optional Reading.instant es "sendAt" with e | sendAt'
  · simp [bind, Except.bind]
  rcases Reading.optional Reading.text es "template" with e | template'
  · simp [bind, Except.bind]
  rcases Reading.optional Reading.text es "concatSubject" with e | concatSubject'
  · simp [bind, Except.bind]
  rcases Mail.ofEntries (es.filter fun e => decide (e.1 ∉ schedulingKeys)) with e | mail'
  · simp [bind, Except.bind]
  simp [bind, Except.bind, pure, Except.pure]

/-- The fields of the mail among those of a request. -/
def unscheduled (p : Payload) : Payload where
  entries := p.entries.filter fun e => decide (e.1 ∉ schedulingKeys)
  nodup := p.nodup.sublist (List.filter_sublist.map Prod.fst)

lemma get?_unscheduled (p : Payload) (k : String) :
    (unscheduled p).get? k = if k ∈ schedulingKeys then none else p.get? k :=
  Entries.get?_filter_keys p.entries schedulingKeys k

/-- How a request stands to the fields it is read from. -/
structure Reads (p : Payload) (r : Request) : Prop where
  mail : Mail.Reads (unscheduled p) r.mail
  sendAt : Mail.given (p.get? "sendAt") = r.sendAt.map fun t => .int t.ms
  /-- The time of sending is given in whole milliseconds. -/
  whole : ∀ t, r.sendAt = some t → Instant.ofMs? t.ms = some t
  template : Mail.given (p.get? "template") = r.template.map Value.text
  concatSubject : Mail.given (p.get? "concatSubject") = r.concatSubject.map Value.text

lemma eq_int_of_instant {v : Value} {t : Instant} (h : Reading.instant v = .ok t) :
    v = .int t.ms ∧ Instant.ofMs? t.ms = some t := by
  unfold Reading.instant at h
  split at h
  · next i =>
    split at h
    · next u hu =>
      obtain rfl := Except.ok.inj h
      rw [Instant.ms_ofMs? hu]
      exact ⟨rfl, hu⟩
    · cases h
  · cases h

lemma given_of_optional {α : Type} {read : Value → Except ReadError α} {o : Option α}
    (h : Reading.optional read p.entries k = .ok o) :
    (o = none ∧ Mail.given (p.get? k) = none) ∨
      ∃ v a, Mail.given (p.get? k) = some v ∧ read v = .ok a ∧ o = some a := by
  rw [Reading.optional, Mail.once_entries] at h
  rcases hv : p.get? k with _ | v <;> rw [hv] at h
  · obtain rfl := Except.ok.inj h
    exact .inl ⟨rfl, rfl⟩
  · by_cases hnull : v = .null
    · subst hnull
      obtain rfl := Except.ok.inj h
      exact .inl ⟨rfl, rfl⟩
    · rcases hr : read v with e | a
      · cases v <;> simp_all [bind, Except.bind, Functor.map, Except.map]
      · refine .inr ⟨v, a, ?_, hr, ?_⟩ <;>
          cases v <;> simp_all [bind, Except.bind, Functor.map, Except.map, Mail.given]

/-- **A request read from fields** has just these. -/
theorem reads_of_ofEntries (hl : Value.LawfulEntries p.entries)
    (h : ofEntries p.entries = .ok r) : Reads p r := by
  obtain ⟨hmail, hsend, htemplate, hsubject⟩ := ofEntries_eq_ok_iff.1 h
  have hlawful : Value.LawfulEntries (unscheduled p).entries :=
    Value.lawfulEntries_iff.2 fun e he =>
      Value.lawfulEntries_iff.1 hl e (List.mem_of_mem_filter he)
  have htime : Mail.given (p.get? "sendAt") = (r.sendAt.map fun t => .int t.ms) ∧
      ∀ t, r.sendAt = some t → Instant.ofMs? t.ms = some t := by
    rcases given_of_optional hsend with ⟨ho, hnone⟩ | ⟨v, t, hv, hread, ho⟩
    · simp [ho, hnone]
    · obtain ⟨rfl, hms⟩ := eq_int_of_instant hread
      simp [ho, hv, hms]
  exact ⟨Mail.reads_of_ofEntries hlawful hmail, htime.1, htime.2,
    Mail.given_of_optional htemplate, Mail.given_of_optional hsubject⟩

def scheduling (r : Request) : Entries Value :=
  (r.sendAt.map fun t => ("sendAt", Value.int t.ms)).toList ++
    (r.template.map fun s => ("template", Value.text s)).toList ++
    (r.concatSubject.map fun s => ("concatSubject", Value.text s)).toList

lemma entries_eq (r : Request) : r.entries = r.mail.entries ++ r.scheduling := by
  simp [entries, scheduling, List.append_assoc]

lemma keys_scheduling_sublist (r : Request) : r.scheduling.keys.Sublist schedulingKeys := by
  obtain ⟨mail, sendAt, template, concatSubject⟩ := r
  cases sendAt <;> cases template <;> cases concatSubject <;>
    exact List.isSublist_iff_sublist.1 rfl

lemma Reads.get?_scheduling (h : Reads p r) (hk : k ∈ schedulingKeys) :
    r.scheduling.get? k = Mail.given (p.get? k) := by
  simp only [schedulingKeys, List.mem_cons, List.not_mem_nil, or_false] at hk
  rcases hk with rfl | rfl | rfl
  · rw [h.sendAt]
    rcases r with ⟨mail, _ | t, _ | template, _ | concatSubject⟩ <;> rfl
  · rw [h.template]
    rcases r with ⟨mail, _ | t, _ | template, _ | concatSubject⟩ <;> rfl
  · rw [h.concatSubject]
    rcases r with ⟨mail, _ | t, _ | template, _ | concatSubject⟩ <;> rfl

/-- The mail of a request has none of the scheduling keys. -/
lemma Reads.get?_mail (h : Reads p r) (k : String) : r.mail.entries.get? k =
    if k ∈ schedulingKeys then none
    else if k ∈ Mail.textKeys then Mail.given (p.get? k) else p.get? k := by
  have hn : (unscheduled p).entries.keys.Nodup := (unscheduled p).nodup
  have hget : (unscheduled p).entries.get? k = if k ∈ schedulingKeys then none else p.get? k :=
    get?_unscheduled p k
  rw [h.mail.get?_entries, Value.get?_withoutNulls hn, hget]
  by_cases hk : k ∈ schedulingKeys
  · rw [if_pos hk, if_pos hk]
    exact ite_self none
  · rw [if_neg hk, if_neg hk]

theorem Reads.get?_entries (h : Reads p r) (k : String) :
    r.entries.get? k =
      (Value.withoutNulls (Mail.textKeys ++ schedulingKeys) p.entries).get? k := by
  rw [entries_eq, Entries.get?_append, Value.get?_withoutNulls p.nodup, h.get?_mail]
  simp only [List.mem_append]
  by_cases hk : k ∈ schedulingKeys
  · rw [if_pos hk, if_pos (.inr hk), Option.none_or, h.get?_scheduling hk]
    rfl
  · have hnone : r.scheduling.get? k = none :=
      Entries.get?_eq_none_iff.2 fun hm => hk ((keys_scheduling_sublist r).subset hm)
    rw [if_neg hk, hnone, Option.or_none]
    simp only [hk, or_false]
    rfl

theorem Reads.nodup_entries (h : Reads p r) : r.entries.keys.Nodup := by
  rw [entries_eq]
  have hn : r.scheduling.keys.Nodup := List.Nodup.sublist (keys_scheduling_sublist r) (by decide)
  refine Entries.nodup_keys_append h.mail.nodup_entries hn fun k hk => ?_
  refine Entries.get?_eq_none_iff.2 fun hs => ?_
  have hnone : r.mail.entries.get? k = none := by
    rw [h.get?_mail, if_pos ((keys_scheduling_sublist r).subset hs)]
  exact Entries.get?_eq_none_iff.1 hnone hk

/-- How a request that was read gives back what it was read from. -/
structure Flat (es : Entries Value) (r : Request) : Prop where
  /-- The written form is what was read, without the optional fields that were null. -/
  written : ∃ out, r.toValue = .object out ∧
    out.Perm (Value.withoutNulls (Mail.textKeys ++ schedulingKeys) es)
  /-- The flat view of the mail is what was read without the scheduling. -/
  payload : r.mail.payload.entries.Perm (Value.withoutNulls Mail.textKeys
    (es.filter fun e => decide (e.1 ∉ schedulingKeys)))
  unscheduled : ∀ k ∈ schedulingKeys, r.mail.extra.get? k = none
  /-- A key without a place of its own is among the further fields, unchanged. -/
  extra : ∀ k, k ∉ Mail.knownKeys → k ∉ schedulingKeys → r.mail.extra.get? k = es.get? k
  /-- The time of sending is given by its milliseconds. -/
  sendAt : ∀ t, r.sendAt = some t →
    es.get? "sendAt" = some (.int t.ms) ∧ Instant.ofMs? t.ms = some t

theorem Reads.flat (h : Reads p r) : Flat p.entries r where
  written := by
    refine ⟨r.entries, ?_, ?_⟩
    · rw [toValue, Entries.merge_of_nodup h.nodup_entries]
    · exact Entries.perm_of_get? h.nodup_entries (Value.nodup_withoutNulls p.nodup) h.get?_entries
  payload := h.mail.flat.payload
  unscheduled k hk := by
    rw [h.mail.extra, get?_unscheduled, if_pos hk, ite_self]
  extra k hk hs := by
    rw [h.mail.extra, get?_unscheduled, if_neg hk, if_neg hs]
    rfl
  sendAt t ht := by
    refine ⟨?_, h.whole t ht⟩
    have hgiven := h.sendAt
    rw [ht] at hgiven
    exact Mail.eq_some_of_given hgiven

end Request

/-! ### Whatever can be read -/

/-- **A payload keeps each field in its place.** Whatever object can be read as a mail or as a
request, writing it gives the same fields back, but for optional ones that were null. -/
theorem payloads_flat {es : Entries Value} (hl : (Value.object es).Lawful) :
    (∀ m, Mail.ofValue (.object es) = .ok m → Mail.Flat es m) ∧
      ∀ r, Request.ofValue (.object es) = .ok r → Request.Flat es r := by
  rw [Value.Lawful] at hl
  refine ⟨fun m hm => ?_, fun r hr => ?_⟩
  · exact (Mail.reads_of_ofEntries (p := ⟨es, hl.1⟩) hl.2 hm).flat
  · exact (Request.reads_of_ofEntries (p := ⟨es, hl.1⟩) hl.2 hr).flat

/-- Fields of all kinds: well-known and further ones, scheduling, null in several places, and a
well-known name inside a further field. -/
def mixedFields : Entries Value :=
  [("name", .object [("first", .text "Rita"), ("from", .null)]), ("to", .list [.text "a@x"]),
    ("from", .null), ("text", .text "hi"), ("sendAt", .int 1700000000000), ("template", .null),
    ("note", .null)]

theorem payloads_flat_mixedFields : ∃ m r, (Value.object mixedFields).Lawful ∧
    Mail.ofValue (.object mixedFields) = .ok m ∧ Request.ofValue (.object mixedFields) = .ok r ∧
    m.extra.keys = ["name", "sendAt", "template", "note"] ∧ r.mail.extra.keys = ["name", "note"] ∧
    Mail.Flat mixedFields m ∧ Request.Flat mixedFields r := by
  have hl : (Value.object mixedFields).Lawful := by
    simp [mixedFields, Value.Lawful, Value.LawfulEntries, Value.LawfulItems, Entries.keys]
  obtain ⟨hmail, hrequest⟩ := payloads_flat hl
  exact ⟨_, _, hl, rfl, rfl, rfl, rfl, hmail _ rfl, hrequest _ rfl⟩

end MailQueue
