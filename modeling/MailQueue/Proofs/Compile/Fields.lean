import MailQueue.Compile
import MailQueue.Proofs.Equivalence
import MailQueue.Proofs.Readable

/-!
# The fields of a message

What stands under a key after each step of the compilation, told by the key alone, and what the
reader of a mail makes of fields that have each key once.

* `Compiler.layered` is the value of a key by the last mail that has it, else by the transport;
  `Compiler.get?_layers` says that the layers come to this;
* `Compiler.get?_wrap`, `get?_addText`, `get?_addSubject` and `get?_addSender`: each step touches
  its own key only;
* `Mail.Reads` is how a mail stands to the fields it is read from, `Mail.reads_of_ofEntries` that it
  is read so, and `Mail.ofEntries_fields` that only a text of another kind is refused.
-/

namespace MailQueue

open Reading

theorem Entries.get?_filter_keys {α : Type} (l : Entries α) (keys : List String) (k : String) :
    Entries.get? (l.filter fun e => decide (e.1 ∉ keys)) k =
      if k ∈ keys then none else l.get? k := by
  induction l with
  | nil => simp
  | cons e l ih =>
    obtain ⟨k', v⟩ := e
    by_cases hk : k' ∈ keys
    · rw [List.filter_cons_of_neg (by simpa using hk), ih, get?_cons]
      by_cases hkk : k' = k
      · simp [← hkk, hk]
      · rw [if_neg hkk]
    · rw [List.filter_cons_of_pos (by simpa using hk), get?_cons, get?_cons, ih]
      by_cases hkk : k' = k
      · simp [← hkk, hk]
      · rw [if_neg hkk, if_neg hkk]

namespace Fields

variable {α : Type}

theorem get?_foldl_put (l : Entries α) (hn : l.keys.Nodup) (f : Fields α) (k : String) :
    (l.foldl (fun acc e => acc.put e.1 e.2) f).get? k = (l.get? k).or (f.get? k) := by
  induction l generalizing f with
  | nil => rfl
  | cons e l ih =>
    obtain ⟨he, hn⟩ := List.nodup_cons.1 hn
    rw [List.foldl_cons, ih hn, get?_put, Entries.get?_cons]
    by_cases hk : e.1 = k
    · have hnone : Entries.get? l k = none := Entries.get?_eq_none_iff.2 (hk ▸ he)
      simp [hk, hnone]
    · simp [hk]

/-- What is put over other fields hides them. -/
@[simp] theorem get?_extend (f other : Fields α) (k : String) :
    (f.extend other).get? k = (other.get? k).or (f.get? k) :=
  get?_foldl_put other.entries other.nodup f k

theorem lawfulEntries_iff_get? {p : Payload} :
    Value.LawfulEntries p.entries ↔ ∀ k v, p.get? k = some v → v.Lawful := by
  rw [Value.lawfulEntries_iff]
  exact ⟨fun h k v hv => h (k, v) (Entries.mem_of_get? hv),
    fun h e he => h e.1 e.2 (Entries.get?_of_mem p.nodup he)⟩

end Fields

/-! ### The steps -/

namespace Compiler

variable {c : Compiler} {transport : Transport} {task : Task} {mails : List Mail} {p : Payload}
  {k : String}

def bodyKeys : List String := ["html", "text"]

@[simp] theorem get?_withoutBodies :
    (withoutBodies p).get? k = if k ∈ bodyKeys then none else p.get? k := by
  by_cases hhtml : "html" = k
  · subst hhtml
    simp [withoutBodies, bodyKeys]
  · by_cases htext : "text" = k
    · subst htext
      simp [withoutBodies, bodyKeys]
    · simp [withoutBodies, bodyKeys, hhtml, htext, Ne.symm hhtml, Ne.symm htext]

/-- What stands under a key when the fields of each mail in its turn go over those of the
transport. -/
def layered (transport : Transport) (mails : List Mail) (k : String) : Option Value :=
  (mails.reverse.findSome? fun m => m.payload.get? k).or
    (transport.defaults.bind fun p => p.get? k)

/-- One mail after the other: the last that has a key counts. -/
theorem get?_foldl_extend (mails : List Mail) (p : Payload) (hk : k ∉ bodyKeys) :
    (mails.foldl (fun acc m => acc.extend (withoutBodies m.payload)) p).get? k =
      (mails.reverse.findSome? fun m => m.payload.get? k).or (p.get? k) := by
  induction mails generalizing p with
  | nil => rfl
  | cons m mails ih =>
    rw [List.foldl_cons, ih, Fields.get?_extend, get?_withoutBodies, if_neg hk, List.reverse_cons,
      List.findSome?_append, Option.or_assoc]
    simp

theorem get?_foldl_extend_body (mails : List Mail) (p : Payload) (hk : k ∈ bodyKeys) :
    (mails.foldl (fun acc m => acc.extend (withoutBodies m.payload)) p).get? k = p.get? k := by
  induction mails generalizing p with
  | nil => rfl
  | cons m mails ih =>
    rw [List.foldl_cons, ih, Fields.get?_extend, get?_withoutBodies, if_pos hk, Option.none_or]

/-- **What the layers come to.** -/
theorem get?_layers :
    (layers transport mails).get? k =
      if k ∈ bodyKeys then none else layered transport mails k := by
  split
  · next hk => rw [layers, get?_foldl_extend_body _ _ hk, get?_withoutBodies, if_pos hk]
  · next hk =>
    rw [layers, get?_foldl_extend _ _ hk, get?_withoutBodies, if_neg hk, layered]
    rcases transport.defaults with _ | d <;> rfl

theorem get?_wrap {template : Option String} {html : String} (hk : k ≠ "html") :
    (c.wrap template html p).get? k = p.get? k := by
  unfold wrap
  split
  · rfl
  · dsimp only
    split <;> simp [hk.symm]

theorem get?_addText {text : String} :
    (addText text p).get? k = if text ≠ "" ∧ k = "text" then some (.text text) else p.get? k := by
  by_cases ht : text = ""
  · simp [addText, ht]
  · by_cases hk : k = "text"
    · simp [addText, ht, hk]
    · simp [addText, ht, hk, Ne.symm hk]

/-- The subject for merged mails, if there are several. -/
def mergedSubject? (c : Compiler) (task : Task) : Option String :=
  if 1 < task.fragments.length then
    (nonEmpty? task.concatSubject).or (nonEmpty? (some c.concatSubject))
  else none

theorem get?_addSubject :
    (c.addSubject task p).get? k =
      if k = "subject" then ((c.mergedSubject? task).map Value.text).or (p.get? k)
      else p.get? k := by
  unfold addSubject mergedSubject?
  split
  · rcases (nonEmpty? task.concatSubject).or (nonEmpty? (some c.concatSubject)) with _ | s <;>
      simp [eq_comm]
  · simp

/-- Nothing that names a sender: absent, null or empty. -/
def isNobody : Option Value → Bool
  | none | some .null => true
  | some (.text s) => s = ""
  | some _ => false

theorem hasSender_eq : hasSender p = !isNobody (p.get? "from") := by
  unfold hasSender
  rcases p.get? "from" with _ | v
  · rfl
  · cases v with
    | text s => by_cases hs : s = "" <;> simp [isNobody, hs]
    | _ => rfl

/-- The sender that the resolver gives. -/
def resolved? (c : Compiler) (transport : Transport) : Option String :=
  c.resolve.bind fun resolve => resolve transport

theorem get?_addSender :
    (c.addSender transport p).get? k =
      if k = "from" ∧ hasSender p = false then
        ((c.resolved? transport).map Value.text).or (p.get? k)
      else p.get? k := by
  unfold addSender
  cases hp : hasSender p with
  | true => simp
  | false =>
    have hres : (c.resolve.bind fun resolve => resolve transport) = c.resolved? transport := rfl
    rw [hres]
    rcases c.resolved? transport with _ | s <;> simp [eq_comm]

/-! ### Values that a program can hold -/

/-- The fields of the transport and those of the mails have values that a program can hold. -/
structure Lawful (transport : Transport) (mails : List Mail) : Prop where
  defaults : ∀ p ∈ transport.defaults, Value.LawfulEntries p.entries
  mails : ∀ m ∈ mails, m.Lawful

theorem lawful_layered (h : Lawful transport mails) {v : Value}
    (hv : layered transport mails k = some v) : v.Lawful := by
  rw [layered, Option.or_eq_some_iff] at hv
  rcases hv with hv | ⟨-, hv⟩
  · obtain ⟨m, hm, hmv⟩ := List.exists_of_findSome?_eq_some hv
    have hpayload := Mail.lawful_payload (h.mails m (List.mem_reverse.1 hm))
    rw [Value.Lawful] at hpayload
    exact Fields.lawfulEntries_iff_get?.1 hpayload.2 k v hmv
  · obtain ⟨p, hp, hpv⟩ := Option.bind_eq_some_iff.1 hv
    exact Fields.lawfulEntries_iff_get?.1 (h.defaults p hp) k v hpv

theorem lawful_put_text {p : Payload} {key s : String} (h : Value.LawfulEntries p.entries) :
    Value.LawfulEntries (p.put key (.text s)).entries :=
  Value.lawfulEntries_iff.2 (Mail.lawful_put (Value.lawfulEntries_iff.1 h) trivial)

theorem lawful_layers (h : Lawful transport mails) :
    Value.LawfulEntries (layers transport mails).entries := by
  refine Fields.lawfulEntries_iff_get?.2 fun k v hv => ?_
  rw [get?_layers] at hv
  split at hv
  · cases hv
  · exact lawful_layered h hv

section

variable (h : Value.LawfulEntries p.entries)

include h

theorem lawful_wrap {template : Option String} {html : String} :
    Value.LawfulEntries (c.wrap template html p).entries := by
  unfold wrap
  split
  · exact h
  · dsimp only
    split
    · exact lawful_put_text h
    · exact lawful_put_text (lawful_put_text h)

theorem lawful_addText {text : String} : Value.LawfulEntries (addText text p).entries := by
  unfold addText
  split
  · exact h
  · exact lawful_put_text h

theorem lawful_addSubject : Value.LawfulEntries (c.addSubject task p).entries := by
  unfold addSubject
  split
  · split
    · exact lawful_put_text h
    · exact h
  · exact h

theorem lawful_addSender : Value.LawfulEntries (c.addSender transport p).entries := by
  unfold addSender
  split
  · exact h
  · split
    · exact lawful_put_text h
    · exact h

end

theorem lawful_fields (h : Lawful transport task.fragments) :
    Value.LawfulEntries (c.fields transport task).entries :=
  lawful_addSender (lawful_addSubject (lawful_addText (lawful_wrap (lawful_layers h))))

end Compiler

/-! ### Mails read from fields -/

namespace Recipient

theorem toValue_of_ofValue {v : Value} {r : Recipient} (h : ofValue v = .ok r) :
    v = r.toValue := by
  have htexts : ∀ {items : List Value} {addresses : List String},
      items.mapM (fun v => (Reading.text v).toOption) = some addresses →
        items = addresses.map Value.text := by
    intro items
    induction items with
    | nil =>
      intro addresses h
      obtain rfl : [] = addresses := Option.some.inj h
      rfl
    | cons v items ih =>
      intro addresses h
      rw [List.mapM_cons] at h
      obtain ⟨s, hs, h⟩ := Option.bind_eq_some_iff.1 h
      obtain ⟨rest, hrest, h⟩ := Option.bind_eq_some_iff.1 h
      obtain rfl : s :: rest = addresses := Option.some.inj h
      cases v with
      | text t =>
        obtain rfl : t = s := Option.some.inj hs
        rw [List.map_cons, ← ih hrest]
      | _ => cases hs
  cases v with
  | text s =>
    obtain rfl := Except.ok.inj h
    rfl
  | list items =>
    rw [ofValue] at h
    split at h
    · next addresses haddresses =>
      obtain rfl := Except.ok.inj h
      rw [toValue, htexts haddresses]
    · cases h
  | _ => cases h

theorem toValue_injective {r r' : Recipient} (h : r.toValue = r'.toValue) : r = r' := by
  have hr := r.ofValue_toValue
  rw [h, ofValue_toValue] at hr
  exact (Except.ok.inj hr).symm

end Recipient

namespace Mail

variable {p : Payload} {m : Mail}

theorem get?_putText (p : Payload) (e : String × Option String) (k : String) :
    (putText p e).get? k = if e.1 = k then (e.2.map Value.text).or (p.get? k) else p.get? k := by
  rcases e with ⟨k', _ | s⟩ <;> simp [putText]

/-- In the flat view the recipient stands in its place, whatever the further fields are. -/
theorem get?_payload_to (m : Mail) : m.payload.get? "to" = some m.recipient.toValue := by
  simp [payload, texts, get?_putText]

theorem get?_payload_text {e : String × Option String} (he : e ∈ m.texts) :
    m.payload.get? e.1 = (e.2.map Value.text).or (m.extra.get? e.1) := by
  simp only [texts, List.mem_cons, List.not_mem_nil, or_false] at he
  rcases he with rfl | rfl | rfl | rfl <;> simp [payload, texts, get?_putText]

/-- What counts as there: null does not. -/
def given : Option Value → Option Value
  | some .null => none
  | o => o

theorem eq_of_given {o o' : Option String} (h : o.map Value.text = given (o'.map Value.text)) :
    o = o' := by
  cases o <;> cases o' <;> simp_all [given]

def textKeys : List String := ["from", "subject", "text", "html"]

/-- How a mail stands to the fields it is read from. -/
structure Reads (p : Payload) (m : Mail) : Prop where
  recipient : p.get? "to" = some m.recipient.toValue
  sender : given (p.get? "from") = m.sender.map Value.text
  subject : given (p.get? "subject") = m.subject.map Value.text
  text : given (p.get? "text") = m.text.map Value.text
  html : given (p.get? "html") = m.html.map Value.text
  extra : ∀ k, m.extra.get? k = if k ∈ knownKeys then none else p.get? k

theorem once_entries (p : Payload) (k : String) : once p.entries k = .ok (p.get? k) := by
  rw [once, Entries.filter_key p.nodup, Fields.get?]
  rcases p.entries.get? k with _ | v <;> rfl

theorem given_of_optional {k : String} {o : Option String}
    (h : Reading.optional Reading.text p.entries k = .ok o) : given (p.get? k) = o.map .text := by
  rw [Reading.optional, once_entries] at h
  rcases hv : p.get? k with _ | v <;> rw [hv] at h
  · obtain rfl := Except.ok.inj h
    rfl
  · cases v with
    | null | text _ =>
      obtain rfl := Except.ok.inj h
      rfl
    | _ => cases h

/-- **A mail read from fields** has just these. -/
theorem reads_of_ofEntries (hl : Value.LawfulEntries p.entries)
    (h : ofEntries p.entries = .ok m) : Reads p m := by
  obtain ⟨-, hto, hsender, hsubject, htext, hhtml, hextra⟩ := ofEntries_eq_ok_iff.1 h
  refine ⟨?_, given_of_optional hsender, given_of_optional hsubject, given_of_optional htext,
    given_of_optional hhtml, fun k => ?_⟩
  · rw [required, once_entries] at hto
    rcases hv : p.get? "to" with _ | v <;> rw [hv] at hto
    · cases hto
    · rw [Recipient.toValue_of_ofValue hto]
  · -- what is merged on reading has each key once already
    have hlawful : Value.LawfulEntries (p.entries.filter fun e => decide (e.1 ∉ knownKeys)) :=
      Value.lawfulEntries_iff.2 fun e he =>
        Value.lawfulEntries_iff.1 hl e (List.mem_of_mem_filter he)
    have hn : (Entries.keys (p.entries.filter fun e => decide (e.1 ∉ knownKeys))).Nodup :=
      p.nodup.sublist (List.filter_sublist.map Prod.fst)
    rw [← hextra, Value.mergedEntries_eq _ hlawful]
    show (Entries.merge _).get? k = _
    rw [Entries.merge_of_nodup hn, Entries.get?_filter_keys]
    rfl

theorem isText_of_given {v : Value} {o : Option String} (h : given (some v) = o.map Value.text) :
    v.IsText := by
  cases v with
  | null => exact .inl rfl
  | text s => exact .inr ⟨s, rfl⟩
  | _ =>
    obtain ⟨s, -, hs⟩ := Option.map_eq_some_iff.1 h.symm
    cases hs

theorem Reads.isText (h : Reads p m) {k : String} {v : Value} (hk : k ∈ textKeys)
    (hv : p.get? k = some v) : v.IsText := by
  simp only [textKeys, List.mem_cons, List.not_mem_nil, or_false] at hk
  rcases hk with rfl | rfl | rfl | rfl
  · exact isText_of_given (hv ▸ h.sender)
  · exact isText_of_given (hv ▸ h.subject)
  · exact isText_of_given (hv ▸ h.text)
  · exact isText_of_given (hv ▸ h.html)

/-- The first entry that is refused is reported. -/
theorem forM_checkEntry_cases (es : Entries Value) :
    (∀ e ∈ es, checkEntry e = .ok ()) ∨
      ∃ e ∈ es, ∃ err, checkEntry e = .error err ∧ es.forM checkEntry = .error err := by
  induction es with
  | nil => exact .inl fun e he => absurd he List.not_mem_nil
  | cons e es ih =>
    have hforM : List.forM (e :: es) checkEntry =
        checkEntry e >>= fun _ => es.forM checkEntry := rfl
    rcases he : checkEntry e with err | ⟨⟩ <;> rw [he] at hforM
    · exact .inr ⟨e, List.mem_cons_self, err, he, hforM⟩
    · rw [hforM]
      exact ih.imp (fun h => List.forall_mem_cons.2 ⟨he, h⟩)
        fun ⟨d, hd, h⟩ => ⟨d, List.mem_cons_of_mem _ hd, h⟩

theorem isText_of_checkEntry {e : String × Value} (hk : e.1 ∈ textKeys)
    (h : checkEntry e = .ok ()) : e.2.IsText := by
  obtain ⟨k, v⟩ := e
  have hnot : "to" ∉ textKeys := by decide
  have hto : k ≠ "to" := fun h => hnot (h ▸ hk)
  have hknown : k ∈ knownKeys := List.mem_cons_of_mem _ hk
  rw [checkEntry, if_neg hto, if_pos hknown] at h
  cases v with
  | null => exact .inl rfl
  | text s => exact .inr ⟨s, rfl⟩
  | _ => cases h

theorem checkEntry_eq_error {e : String × Value} {err : ReadError}
    (hto : e.1 = "to" → ∃ r : Recipient, e.2 = r.toValue) (h : checkEntry e = .error err) :
    e.1 ∈ textKeys ∧ ¬e.2.IsText ∧ err = .notText e.2 := by
  obtain ⟨k, v⟩ := e
  unfold checkEntry at h
  split at h
  · next hk =>
    obtain ⟨r, hr⟩ := hto hk
    simp only at hr
    subst hr
    rw [Recipient.ofValue_toValue] at h
    cases h
  · next hk =>
    split at h
    · next hknown =>
      have htext : k ∈ textKeys := (List.mem_cons.1 hknown).resolve_left hk
      cases v <;> cases h
      all_goals exact ⟨htext, by simp [Value.IsText], rfl⟩
    · cases h

/-- **What is refused** in fields that have a recipient is a text of another kind. -/
theorem ofEntries_fields {r : Recipient} (hto : p.get? "to" = some r.toValue) :
    (∃ m, ofEntries p.entries = .ok m) ∨
      ∃ k ∈ textKeys, ∃ v, p.get? k = some v ∧ ¬v.IsText ∧
        ofEntries p.entries = .error (.notText v) := by
  have hrecipient : ∀ e ∈ p.entries, e.1 = "to" → ∃ r : Recipient, e.2 = r.toValue := by
    intro e he hk
    have hget := Entries.get?_of_mem p.nodup he
    rw [hk] at hget
    exact ⟨r, Option.some.inj (hget.symm.trans hto)⟩
  rcases forM_checkEntry_cases p.entries with hok | ⟨e, he, err, herr, hforM⟩
  · have hread : required Recipient.ofValue p.entries "to" = .ok r := by
      rw [required, once_entries, hto]
      exact r.ofValue_toValue
    have hopt : ∀ k ∈ textKeys, ∃ o, Reading.optional Reading.text p.entries k = .ok o :=
      fun k hk => (Value.optional_text_isOk (once_entries p k)).2 fun v hv =>
        isText_of_checkEntry hk (hok (k, v) (Entries.mem_of_get? hv))
    obtain ⟨sender, hsender⟩ := hopt "from" (by decide)
    obtain ⟨subject, hsubject⟩ := hopt "subject" (by decide)
    obtain ⟨text, htext⟩ := hopt "text" (by decide)
    obtain ⟨html, hhtml⟩ := hopt "html" (by decide)
    exact .inl ⟨⟨r, sender, subject, text, html, _⟩,
      ofEntries_eq_ok_iff.2 ⟨forM_eq_ok hok, hread, hsender, hsubject, htext, hhtml, rfl⟩⟩
  · obtain ⟨hk, hnot, rfl⟩ := checkEntry_eq_error (hrecipient e he) herr
    refine .inr ⟨e.1, hk, e.2, Entries.get?_of_mem p.nodup he, hnot, ?_⟩
    unfold ofEntries
    rw [hforM]
    rfl

end Mail

end MailQueue
