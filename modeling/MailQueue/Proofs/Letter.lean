import MailQueue.Proofs.Json.Record
import MailQueue.Proofs.TaskId
import MailQueue.Task.Patch

/-!
# Letters read back

* `Mail.Plain` and `Task.Plain` are what letters are made for: milliseconds only, further fields
  under names of their own, and values that a program can hold;
* `Mail.Durable` and `Task.Durable` leave out the values that a letter does not give back;
* `Mail.reread?` is the mail that a letter gives back, if any, and `ofLetter_letter_eq` the task;
* `ofLetter_letter`: a plain task reads back from its letter as it is;
* `Patch.Plain` and `Patch.Durable` are the same for what a patch sets.
-/

namespace MailQueue

open Reading

/-! ### Fields -/

theorem Fields.ofEntries_entries {α : Type} (f : Fields α) : Fields.ofEntries f.entries = f :=
  Fields.ext_entries (Entries.merge_of_nodup f.nodup)

section

variable {α : Type} {read : Value → Except ReadError α} {es : Entries Value} {k : String}
  {v : Value} {a : α}

theorem required_of_once (h : once es k = .ok (some v)) (hv : read v = .ok a) :
    required read es k = .ok a := by
  rw [required, h]
  exact hv

theorem withDefault_of_once {d : α} (h : once es k = .ok (some v)) (hv : read v = .ok a) :
    withDefault read d es k = .ok a := by
  rw [withDefault, h]
  exact hv

theorem optional_of_once {o : Option String} (h : once es k = .ok (o.map Value.text)) :
    Reading.optional Reading.text es k = .ok o := by
  rw [Reading.optional, h]
  cases o <;> rfl

end

namespace Recipient

theorem mapM_text (addresses : List String) :
    (addresses.map Value.text).mapM (fun v => (Reading.text v).toOption) = some addresses := by
  induction addresses with
  | nil => rfl
  | cons a addresses ih =>
    rw [List.map_cons, List.mapM_cons, ih]
    rfl

theorem ofValue_toValue (r : Recipient) : ofValue r.toValue = .ok r := by
  cases r with
  | one address => rfl
  | many addresses =>
    rw [toValue, ofValue, mapM_text]

theorem lawful_toValue (r : Recipient) : r.toValue.Lawful := by
  cases r with
  | one address => simp [toValue, Value.Lawful]
  | many addresses => simp [toValue, Value.Lawful, Value.lawfulItems_iff]

theorem faithful_toValue (r : Recipient) : r.toValue.Faithful := by
  cases r with
  | one address => simp [toValue, Value.Faithful]
  | many addresses => simp [toValue, Value.Faithful, Value.faithfulItems_iff]

theorem depth_toValue_le (r : Recipient) : r.toValue.depth ≤ 1 := by
  cases r with
  | one address => simp [toValue, Value.depth]
  | many addresses =>
    have h : Value.depthItems (addresses.map .text) ≤ 0 := by
      rw [Value.depthItems_le_iff]
      simp [Value.depth]
    simp only [toValue, Value.depth]
    omega

end Recipient

/-! ### Mails -/

namespace Mail

/-- No further field has a well-known name, and the values of the further fields are lawful. -/
structure Plain (m : Mail) : Prop where
  names : ∀ e ∈ m.extra.entries, e.1 ∉ knownKeys
  lawful : Value.LawfulEntries m.extra.entries

/-- The values of the further fields are given back by a letter: it stands three deep around
them, and the reader goes down to a depth of 127. -/
structure Durable (m : Mail) : Prop where
  faithful : Value.FaithfulEntries m.extra.entries
  depth : Value.depthEntries m.extra.entries ≤ 124

def known (m : Mail) : Entries Value :=
  ("to", m.recipient.toValue) :: m.texts.filterMap fun e => e.2.map fun s => (e.1, Value.text s)

variable {m : Mail}

theorem entries_eq (m : Mail) : m.entries = m.known ++ m.extra.entries := rfl

theorem keys_known_sublist (m : Mail) : m.known.keys.Sublist knownKeys := by
  rcases m with ⟨r, sender, subject, text, html, extra⟩
  cases sender <;> cases subject <;> cases text <;> cases html <;>
    exact List.isSublist_iff_sublist.1 rfl

theorem mem_knownKeys {e : String × Value} (h : e ∈ m.known) : e.1 ∈ knownKeys :=
  (keys_known_sublist m).subset (List.mem_map_of_mem h)

theorem mem_knownKeys_of_texts {k : String} {o : Option String} (hk : (k, o) ∈ m.texts) :
    k ∈ knownKeys := by
  simp only [texts, List.mem_cons, Prod.mk.injEq, List.not_mem_nil, or_false] at hk
  rcases hk with ⟨rfl, -⟩ | ⟨rfl, -⟩ | ⟨rfl, -⟩ | ⟨rfl, -⟩ <;> decide

theorem once_known {k : String} {o : Option String} (hk : (k, o) ∈ m.texts) :
    once m.known k = .ok (o.map Value.text) := by
  rcases m with ⟨r, sender, subject, text, html, extra⟩
  simp only [texts, List.mem_cons, Prod.mk.injEq, List.not_mem_nil, or_false] at hk
  rcases hk with ⟨rfl, ho⟩ | ⟨rfl, ho⟩ | ⟨rfl, ho⟩ | ⟨rfl, ho⟩ <;> rw [ho] <;>
    cases sender <;> cases subject <;> cases text <;> cases html <;> rfl

theorem checkEntry_known {e : String × Value} (he : e ∈ m.known) : checkEntry e = .ok () := by
  rcases List.mem_cons.1 he with rfl | he
  · rw [checkEntry, if_pos rfl, Recipient.ofValue_toValue]
    rfl
  · obtain ⟨⟨k, o⟩, hk, ho⟩ := List.mem_filterMap.1 he
    obtain ⟨s, -, rfl⟩ := Option.map_eq_some_iff.1 ho
    simp only [texts, List.mem_cons, Prod.mk.injEq, List.not_mem_nil, or_false] at hk
    rcases hk with ⟨rfl, -⟩ | ⟨rfl, -⟩ | ⟨rfl, -⟩ | ⟨rfl, -⟩ <;> rfl

theorem forM_eq_ok {es : Entries Value} (h : ∀ e ∈ es, checkEntry e = .ok ()) :
    es.forM checkEntry = .ok () := by
  induction es with
  | nil => rfl
  | cons e es ih =>
    show (checkEntry e >>= fun _ => es.forM checkEntry) = _
    rw [h e (by simp)]
    exact ih fun d hd => h d (by simp [hd])

/-! The well-known fields of a mail, written before fields with names of their own. -/

section

variable {es : Entries Value} (h : ∀ e ∈ es, e.1 ∉ knownKeys)

include h

theorem filter_known_append {k : String} (hk : k ∈ knownKeys) :
    (m.known ++ es).filter (fun e => e.1 == k) = m.known.filter fun e => e.1 == k := by
  have hes : es.filter (fun e => e.1 == k) = [] :=
    List.filter_eq_nil_iff.2 fun e he hek => h e he (beq_iff_eq.1 hek ▸ hk)
  rw [List.filter_append, hes, List.append_nil]

theorem optional_known_append {k : String} {o : Option String} (hk : (k, o) ∈ m.texts) :
    optional Reading.text (m.known ++ es) k = .ok o := by
  refine optional_of_once ?_
  rw [← once_known hk, once, once, filter_known_append h (mem_knownKeys_of_texts hk)]

theorem required_known_append :
    required Recipient.ofValue (m.known ++ es) "to" = .ok m.recipient := by
  have hto : (m.known ++ es).filter (fun e => e.1 == "to") = [("to", m.recipient.toValue)] := by
    rw [filter_known_append h (by decide)]
    rcases m with ⟨r, sender, subject, text, html, extra⟩
    cases sender <;> cases subject <;> cases text <;> cases html <;> rfl
  rw [required, once, hto]
  exact m.recipient.ofValue_toValue

theorem checkEntry_known_append {e : String × Value} (he : e ∈ m.known ++ es) :
    checkEntry e = .ok () := by
  rcases List.mem_append.1 he with he | he
  · exact checkEntry_known he
  · have hname := h e he
    have hto : e.1 ≠ "to" := fun hto => hname (hto ▸ by decide)
    rw [checkEntry, if_neg hto, if_neg hname]

theorem filter_not_known_append :
    (m.known ++ es).filter (fun e => decide (e.1 ∉ knownKeys)) = es := by
  have hknown : m.known.filter (fun e => decide (e.1 ∉ knownKeys)) = [] :=
    List.filter_eq_nil_iff.2 fun e he => by simpa using mem_knownKeys he
  rw [List.filter_append, hknown, List.nil_append, List.filter_eq_self]
  exact fun e he => decide_eq_true (h e he)

/-- The mail is read with those further fields in the place of its own. -/
theorem ofEntries_known_append : ofEntries (m.known ++ es) =
    .ok { m with extra := .ofEntries (Value.mergedEntries es) } := by
  have hcheck : (m.known ++ es).forM checkEntry = .ok () :=
    forM_eq_ok fun e he => checkEntry_known_append h he
  simp only [ofEntries, hcheck, required_known_append h, filter_not_known_append h,
    optional_known_append h (m := m) (k := "from") (o := m.sender) (by simp [texts]),
    optional_known_append h (m := m) (k := "subject") (o := m.subject) (by simp [texts]),
    optional_known_append h (m := m) (k := "text") (o := m.text) (by simp [texts]),
    optional_known_append h (m := m) (k := "html") (o := m.html) (by simp [texts])]
  rfl

end

theorem Plain.ofEntries_entries (h : m.Plain) : ofEntries m.entries = .ok m := by
  rw [entries_eq, ofEntries_known_append h.names, Value.mergedEntries_eq _ h.lawful,
    Fields.ofEntries_entries]

theorem mem_known {e : String × Value} (h : e ∈ m.known) :
    e.2 = m.recipient.toValue ∨ ∃ s, e.2 = .text s := by
  rcases List.mem_cons.1 h with rfl | h
  · exact .inl rfl
  · obtain ⟨⟨k, o⟩, -, ho⟩ := List.mem_filterMap.1 h
    obtain ⟨s, -, rfl⟩ := Option.map_eq_some_iff.1 ho
    exact .inr ⟨s, rfl⟩

theorem reread_known (m : Mail) : Value.rereadEntries 125 m.known = some m.known := by
  have hvalue : ∀ e ∈ m.known, e.2.Lawful ∧ e.2.Faithful ∧ e.2.depth ≤ 1 := by
    intro e he
    rcases mem_known he with hv | ⟨s, hv⟩ <;> rw [hv]
    · exact ⟨m.recipient.lawful_toValue, m.recipient.faithful_toValue, m.recipient.depth_toValue_le⟩
    · exact ⟨trivial, trivial, Nat.zero_le _⟩
  have hdepth : Value.depthEntries m.known ≤ 1 :=
    Value.depthEntries_le_iff.2 fun e he => (hvalue e he).2.2
  exact Value.rereadEntries_of_faithful m.known
    (Value.lawfulEntries_iff.2 fun e he => (hvalue e he).1)
    (Value.faithfulEntries_iff.2 fun e he => (hvalue e he).2.1) (by omega)

/-- The mail that a letter gives back, if any: it stands three deep around the further fields. -/
def reread? (m : Mail) : Option Mail :=
  (Value.rereadEntries 125 m.extra.entries).bind fun es => (ofEntries (m.known ++ es)).toOption

theorem reread_written (m : Mail) :
    m.written.reread 126 =
      (Value.rereadEntries 125 m.extra.entries).map fun es => .object (m.known ++ es) := by
  have hentries : Value.rereadEntries 125 m.entries =
      (Value.rereadEntries 125 m.extra.entries).map fun es => m.known ++ es := by
    rw [entries_eq, Value.rereadEntries_append, m.reread_known]
    rfl
  show (if 126 ≤ 1 then none else (Value.rereadEntries 125 m.entries).map Value.object) = _
  rw [if_neg (by omega), hentries, Option.map_map]
  rfl

theorem mapM_reread (ms : List Mail) :
    ((Value.rereadItems 126 (ms.map written)).bind fun vs => (vs.mapM ofValue).toOption) =
      ms.mapM reread? := by
  induction ms with
  | nil => rfl
  | cons m ms ih =>
    rw [List.map_cons, Value.rereadItems, reread_written, List.mapM_cons, ← ih, reread?]
    rcases Value.rereadEntries 125 m.extra.entries with _ | es
    · rfl
    · have hread : ofValue (.object (m.known ++ es)) = ofEntries (m.known ++ es) := rfl
      rcases Value.rereadItems 126 (ms.map written) with _ | vs
      · rcases hes : ofEntries (m.known ++ es) with _ | m' <;> simp [hes, Except.toOption]
      · simp only [Option.map_some, Option.bind_some, List.mapM_cons, hread]
        rcases ofEntries (m.known ++ es) with _ | m'
        · rfl
        · rcases vs.mapM ofValue with _ | ms' <;> rfl

theorem Plain.reread?_eq (hp : m.Plain) (hd : m.Durable) : m.reread? = some m := by
  have hextra := Value.rereadEntries_of_faithful m.extra.entries hp.lawful hd.faithful
    (Nat.lt_succ_of_le hd.depth)
  rw [reread?, hextra, Option.bind_some, ← entries_eq, hp.ofEntries_entries]
  rfl

theorem mapM_reread_of_plain {ms : List Mail} (hp : ∀ m ∈ ms, m.Plain)
    (hd : ∀ m ∈ ms, m.Durable) : ms.mapM reread? = some ms := by
  induction ms with
  | nil => rfl
  | cons m ms ih =>
    rw [List.mapM_cons, (hp m (by simp)).reread?_eq (hd m (by simp)),
      ih (fun d h => hp d (by simp [h])) fun d h => hd d (by simp [h])]
    rfl

end Mail

/-! ### Tasks -/

theorem Value.lawful_ms (u : Instant) : (Value.int u.ms).Lawful := by
  have hms := Int.mul_fdiv_add_fmod u.ns 1000000
  have hms' := Int.fmod_nonneg_of_pos u.ns (b := 1000000) (by omega)
  have hms'' := Int.fmod_lt_of_pos u.ns (b := 1000000) (by omega)
  have hlo := u.lower
  have hhi := u.upper
  show _ ≤ u.ns.fdiv 1000000 ∧ u.ns.fdiv 1000000 < (18446744073709551616 : Int)
  omega

theorem Value.lawful_nat {n : Nat} (h : n < UInt64.size) : (Value.nat n).Lawful :=
  ⟨by omega, Int.ofNat_lt.2 h⟩

namespace Task

/-- What a letter is made for: an instant of whole milliseconds, a transport that a word counts,
and plain mails. -/
structure Plain (t : Task) : Prop where
  aligned : t.sendAt.floorMs = t.sendAt
  transport : t.transport < UInt64.size
  fragments : ∀ m ∈ t.fragments, m.Plain

/-- The letter gives back all the mails. -/
def Durable (t : Task) : Prop := ∀ m ∈ t.fragments, m.Durable

variable {t : Task}

theorem readId_of_parse {s : String} {id : TaskId} (h : TaskId.parse? s = some id) :
    readId (.text s) = .ok id := by
  simp only [readId, Reading.text, bind, Except.bind, h]
  rfl

theorem word32_nat (n : UInt32) : word32 (.nat n.toNat) = .ok n := by
  have hn : 0 ≤ (n.toNat : Int) ∧ (n.toNat : Int) < (UInt32.size : Nat) :=
    ⟨Int.natCast_nonneg _, Int.ofNat_lt.2 n.toNat_lt⟩
  simp only [word32, below, Value.nat, if_pos hn]
  show Except.ok (UInt32.ofNat n.toNat) = _
  rw [UInt32.ofNat_toNat]

theorem below_nat {n bound : Nat} (h : n < bound) : below bound (.nat n) = .ok n := by
  have hn : 0 ≤ (n : Int) ∧ (n : Int) < (bound : Int) := ⟨Int.natCast_nonneg _, Int.ofNat_lt.2 h⟩
  simp only [below, Value.nat, if_pos hn, Int.toNat_natCast]

theorem instant_ms (u : Instant) : Reading.instant (.int u.ms) = .ok u.floorMs := by
  simp only [Reading.instant, Instant.ofMs?_ms]

def header (t : Task) : Entries Value :=
  [("uuid", .text t.id.text), ("to", t.recipient.toValue), ("tries", .nat t.attempts.toNat),
    ("sendAt", .int t.sendAt.ms), ("isSent", .bool t.sent), ("isCancelled", .bool t.cancelled),
    ("isFailed", .bool t.failed)] ++
  (t.template.map fun s => ("template", Value.text s)).toList ++
  [("transport", .nat t.transport)] ++
  (t.concatSubject.map fun s => ("concatSubject", Value.text s)).toList

theorem written_eq (t : Task) :
    t.written = .object (t.header ++ [("mailOptions", .list (t.fragments.map Mail.written))]) :=
  rfl

theorem once_header (t : Task) (v : Value) :
    once (t.header ++ [("mailOptions", v)]) "uuid" = .ok (some (.text t.id.text)) ∧
      once (t.header ++ [("mailOptions", v)]) "to" = .ok (some t.recipient.toValue) ∧
      once (t.header ++ [("mailOptions", v)]) "tries" = .ok (some (.nat t.attempts.toNat)) ∧
      once (t.header ++ [("mailOptions", v)]) "sendAt" = .ok (some (.int t.sendAt.ms)) ∧
      once (t.header ++ [("mailOptions", v)]) "isSent" = .ok (some (.bool t.sent)) ∧
      once (t.header ++ [("mailOptions", v)]) "isCancelled" = .ok (some (.bool t.cancelled)) ∧
      once (t.header ++ [("mailOptions", v)]) "isFailed" = .ok (some (.bool t.failed)) ∧
      once (t.header ++ [("mailOptions", v)]) "template" = .ok (t.template.map Value.text) ∧
      once (t.header ++ [("mailOptions", v)]) "transport" = .ok (some (.nat t.transport)) ∧
      once (t.header ++ [("mailOptions", v)]) "concatSubject" =
        .ok (t.concatSubject.map Value.text) ∧
      once (t.header ++ [("mailOptions", v)]) "mailOptions" = .ok (some v) := by
  rcases t with ⟨id, r, attempts, sendAt, sent, cancelled, failed, template, transport, subject, ms⟩
  cases template <;> cases subject <;>
    exact ⟨rfl, rfl, rfl, rfl, rfl, rfl, rfl, rfl, rfl, rfl, rfl⟩

/-- What is read from the persisted form with these values in the place of the mails. -/
theorem ofValue_header (ht : t.transport < UInt64.size) (vs : List Value) :
    ofValue (.object (t.header ++ [("mailOptions", .list vs)])) =
      (vs.mapM Mail.ofValue).map fun ms =>
        { t with sendAt := t.sendAt.floorMs, fragments := ms } := by
  have hflag : ∀ b, Reading.flag (.bool b) = .ok b := fun b => rfl
  obtain ⟨h₁, h₂, h₃, h₄, h₅, h₆, h₇, h₈, h₉, h₁₀, h₁₁⟩ := once_header t (.list vs)
  have hms : required (fun v => Reading.list v >>= List.mapM Mail.ofValue)
      (t.header ++ [("mailOptions", .list vs)]) "mailOptions" = vs.mapM Mail.ofValue := by
    rw [required, h₁₁]
    rfl
  show ofEntries (t.header ++ [("mailOptions", .list vs)]) = _
  simp only [ofEntries, required_of_once h₁ (readId_of_parse t.id.parse?_text),
    required_of_once h₂ t.recipient.ofValue_toValue,
    withDefault_of_once h₃ (word32_nat t.attempts), required_of_once h₄ (instant_ms t.sendAt),
    withDefault_of_once h₅ (hflag t.sent), withDefault_of_once h₆ (hflag t.cancelled),
    withDefault_of_once h₇ (hflag t.failed), optional_of_once h₈,
    withDefault_of_once h₉ (below_nat ht), optional_of_once h₁₀, hms]
  rcases vs.mapM Mail.ofValue with e | ms <;> rfl

/-- What is true of the values in a task's persisted form but for the mails is true of them by
their kinds. -/
theorem forall_header {P : Value → Prop} (htext : ∀ s, P (.text s)) (hbool : ∀ b, P (.bool b))
    (hto : P t.recipient.toValue) (hattempts : P (.nat t.attempts.toNat))
    (hsendAt : P (.int t.sendAt.ms)) (htransport : P (.nat t.transport)) :
    ∀ e ∈ t.header, P e.2 := by
  rcases t with ⟨id, r, attempts, sendAt, sent, cancelled, failed, template, transport, subject, ms⟩
  cases template <;> cases subject <;> simp [header, *]

theorem lawful_header (ht : t.transport < UInt64.size) : ∀ e ∈ t.header, e.2.Lawful :=
  forall_header (fun s => trivial) (fun b => trivial) t.recipient.lawful_toValue
    (Value.lawful_nat (Nat.lt_trans t.attempts.toNat_lt (by decide))) (Value.lawful_ms t.sendAt)
    (Value.lawful_nat ht)

theorem reread_header (ht : t.transport < UInt64.size) :
    Value.rereadEntries 127 t.header = some t.header := by
  have hdepth : Value.depthEntries t.header ≤ 1 :=
    Value.depthEntries_le_iff.2 (forall_header (P := fun v => v.depth ≤ 1)
      (fun s => Nat.zero_le _) (fun b => Nat.zero_le _) t.recipient.depth_toValue_le
      (Nat.zero_le _) (Nat.zero_le _) (Nat.zero_le _))
  have hfaithful : ∀ e ∈ t.header, e.2.Faithful :=
    forall_header (fun s => trivial) (fun b => trivial) t.recipient.faithful_toValue trivial
      trivial trivial
  exact Value.rereadEntries_of_faithful t.header (Value.lawfulEntries_iff.2 (lawful_header ht))
    (Value.faithfulEntries_iff.2 hfaithful) (by omega)

theorem reread_written (ht : t.transport < UInt64.size) :
    t.written.reread Json.maxDepth =
      (Value.rereadItems 126 (t.fragments.map Mail.written)).map fun vs =>
        .object (t.header ++ [("mailOptions", .list vs)]) := by
  have hmails : Value.rereadEntries 127 [("mailOptions", .list (t.fragments.map Mail.written))] =
      (Value.rereadItems 126 (t.fragments.map Mail.written)).map fun vs =>
        [("mailOptions", .list vs)] := by
    show ((if 127 ≤ 1 then none else (Value.rereadItems 126 (t.fragments.map Mail.written)).map
      Value.list).bind fun v => (some []).map fun es => ("mailOptions", v) :: es) = _
    rw [if_neg (by omega)]
    rcases Value.rereadItems 126 (t.fragments.map Mail.written) with _ | vs <;> rfl
  rw [written_eq, Value.reread, if_neg (by decide)]
  show (Value.rereadEntries 127 _).map Value.object = _
  rw [Value.rereadEntries_append, reread_header ht, hmails]
  rcases Value.rereadItems 126 (t.fragments.map Mail.written) with _ | vs <;> rfl

theorem key_mem_of_mem_header : ∀ e ∈ t.header, e.1 ∈ keys := by
  rcases t with ⟨id, r, attempts, sendAt, sent, cancelled, failed, template, transport, subject, ms⟩
  cases template <;> cases subject <;> simp [header, keys]

/-- A letter has no keys but those of a task, so that nothing of it is passed over. -/
theorem parseRecord_letter :
    Json.parseRecord (fun k => k ∈ keys) t.letter = Json.parse t.letter := by
  have hkeys : ∀ e ∈ t.header ++ [("mailOptions", Value.list (t.fragments.map Mail.written))],
      e.1 ∈ keys :=
    List.forall_mem_append.2 ⟨key_mem_of_mem_header, List.forall_mem_singleton.2 (by simp [keys])⟩
  rw [letter, written_eq, Json.parseRecord_write fun e he => decide_eq_true (hkeys e he)]

/-- **What a letter gives back**: the task to the millisecond, with the mails that are read back. -/
theorem ofLetter_letter_eq (ht : t.transport < UInt64.size) :
    ofLetter t.letter = (t.fragments.mapM Mail.reread?).map fun ms =>
      { t with sendAt := t.sendAt.floorMs, fragments := ms } := by
  rw [ofLetter, parseRecord_letter, letter, Json.parse_write, reread_written ht,
    ← Mail.mapM_reread]
  rcases Value.rereadItems 126 (t.fragments.map Mail.written) with _ | vs
  · rfl
  · rw [Option.map_some, Option.bind_some, Option.bind_some, ofValue_header ht]
    rcases vs.mapM Mail.ofValue with e | ms <;> rfl

/-- **A task reads back from its letter.** -/
theorem ofLetter_letter (hp : t.Plain) (hd : t.Durable) : ofLetter t.letter = some t := by
  rw [ofLetter_letter_eq hp.transport, Mail.mapM_reread_of_plain hp.fragments hd, Option.map_some,
    hp.aligned]

theorem isOpen_of_letter {u : Task} (ht : t.transport < UInt64.size)
    (h : ofLetter t.letter = some u) : u.isOpen = t.isOpen := by
  rw [ofLetter_letter_eq ht] at h
  obtain ⟨ms, -, rfl⟩ := Option.map_eq_some_iff.1 h
  rfl

theorem below_lt {bound n : Nat} {v : Value} (h : below bound v = .ok n) : n < bound := by
  unfold below at h
  split at h
  · split at h
    · next i hi =>
      obtain rfl := Except.ok.inj h
      omega
    · cases h
  · cases h

theorem withDefault_below_lt {bound n : Nat} {es : Entries Value} {k : String} (hb : 0 < bound)
    (h : withDefault (below bound) 0 es k = .ok n) : n < bound := by
  unfold withDefault at h
  rcases ho : once es k with e | _ | v <;> rw [ho] at h
  · cases h
  · obtain rfl := Except.ok.inj h
    exact hb
  · exact below_lt h

theorem ofEntries_eq_ok {es : Entries Value} (h : ofEntries es = .ok t) :
    required Reading.instant es "sendAt" = .ok t.sendAt ∧
      withDefault (below UInt64.size) 0 es "transport" = .ok t.transport ∧
      required (fun v => Reading.list v >>= List.mapM Mail.ofValue) es "mailOptions" =
        .ok t.fragments := by
  have bind_ok : ∀ {α β : Type} {o : Except ReadError α} {f : α → Except ReadError β} {b : β},
      o >>= f = .ok b → ∃ a, o = .ok a ∧ f a = .ok b := by
    intro α β o f b h
    rcases o with e | a
    · cases h
    · exact ⟨a, rfl, h⟩
  -- the fields are read in their order: the fourth, the ninth and the last are asked for
  obtain ⟨_, -, h₁⟩ := bind_ok h
  obtain ⟨_, -, h₂⟩ := bind_ok h₁
  obtain ⟨_, -, h₃⟩ := bind_ok h₂
  obtain ⟨sendAt, hs, h₄⟩ := bind_ok h₃
  obtain ⟨_, -, h₅⟩ := bind_ok h₄
  obtain ⟨_, -, h₆⟩ := bind_ok h₅
  obtain ⟨_, -, h₇⟩ := bind_ok h₆
  obtain ⟨_, -, h₈⟩ := bind_ok h₇
  obtain ⟨transport, ht, h₉⟩ := bind_ok h₈
  obtain ⟨_, -, h₁₀⟩ := bind_ok h₉
  obtain ⟨fragments, hf, h₁₁⟩ := bind_ok h₁₀
  obtain rfl := Except.ok.inj h₁₁
  exact ⟨hs, ht, hf⟩

theorem ofLetter_eq_some {text : String} (h : ofLetter text = some t) :
    ∃ v es, Json.parseRecord (fun k => k ∈ keys) text = some v ∧ record keys 0 v = .ok es ∧
      ofEntries es = .ok t := by
  obtain ⟨v, hv, h⟩ := Option.bind_eq_some_iff.1 h
  rw [ofValue] at h
  rcases hes : record keys 0 v with e | es <;> rw [hes] at h
  · cases h
  · rcases ht : ofEntries es with e | u
    · rw [show (Except.ok es >>= ofEntries) = .error e from ht] at h
      cases h
    · rw [show (Except.ok es >>= ofEntries) = .ok u from ht] at h
      obtain rfl : u = t := Option.some.inj h
      exact ⟨v, es, hv, hes, ht⟩

theorem transport_of_ofLetter {text : String} (h : ofLetter text = some t) :
    t.transport < UInt64.size := by
  obtain ⟨v, es, -, -, ht⟩ := ofLetter_eq_some h
  exact withDefault_below_lt (by decide) (ofEntries_eq_ok ht).2.1

end Task

/-! ### Patches -/

namespace Patch

/-- What a patch sets is what a letter is made for. -/
structure Plain (p : Patch) : Prop where
  aligned : ∀ u ∈ p.sendAt, u.floorMs = u
  transport : ∀ n ∈ p.transport, n < UInt64.size
  fragments : ∀ ms ∈ p.fragments, ∀ m ∈ ms, m.Plain

/-- The letter gives back the mails that a patch sets. -/
def Durable (p : Patch) : Prop := ∀ ms ∈ p.fragments, ∀ m ∈ ms, m.Durable

variable {p : Patch} {t : Task}

theorem Plain.apply (hp : p.Plain) (ht : t.Plain) : (p.apply t).Plain where
  aligned := by
    rcases h : p.sendAt with _ | u
    · simpa [Patch.apply, h] using ht.aligned
    · simpa [Patch.apply, h] using hp.aligned u h
  transport := by
    rcases h : p.transport with _ | n
    · simpa [Patch.apply, h] using ht.transport
    · simpa [Patch.apply, h] using hp.transport n h
  fragments := by
    rcases h : p.fragments with _ | ms
    · simpa [Patch.apply, h] using ht.fragments
    · simpa [Patch.apply, h] using hp.fragments ms h

theorem Durable.apply (hp : p.Durable) (ht : t.Durable) : (p.apply t).Durable := by
  rcases h : p.fragments with _ | ms
  · simpa [Patch.apply, Task.Durable, h] using ht
  · simpa [Patch.apply, Task.Durable, h] using hp ms h

end Patch

end MailQueue
