import Mathlib
import MailQueue.Proofs.Readable

/-!
# What letters give back

A task that is written and read is the same to the millisecond, as long as the reader goes deep
enough for the values of its mails. What has once been read is written and read again without change:
the reader had gone deep enough for it, and the values are written as deep as they were read.

* `Mail.plain_of_read` and `Mail.depth_of_read` are what the reader of a mail leaves of its entries;
* `Task.plain_of_read` and `Task.durable_of_read` are the same for tasks;
* `Task.ofLetter_letter_of_faithful` is what the letter of a task is read as, `given_back` adds what
  was read before;
* `Task.not_givenBackAlways`: the depth counts.
-/

namespace MailQueue

open Reading

/-! ### Fields that were read -/

theorem mem_of_once {es : Entries Value} {k : String} {v : Value} (h : once es k = .ok (some v)) :
    ∃ e ∈ es, e.2 = v := by
  unfold once at h
  split at h
  · cases h
  · next e he =>
    have hmem : e ∈ es.filter fun d => d.1 == k := he ▸ List.mem_singleton_self e
    exact ⟨e, List.mem_of_mem_filter hmem, Option.some.inj (Except.ok.inj h)⟩
  · cases h

theorem mem_of_required {α : Type} {read : Value → Except ReadError α} {es : Entries Value}
    {k : String} {a : α} (h : required read es k = .ok a) : ∃ e ∈ es, read e.2 = .ok a := by
  rw [required] at h
  rcases ho : once es k with e | _ | v <;> rw [ho] at h
  · cases h
  · cases h
  · obtain ⟨e, he, rfl⟩ := mem_of_once ho
    exact ⟨e, he, h⟩

theorem floorMs_of_instant {v : Value} {u : Instant} (h : Reading.instant v = .ok u) :
    u.floorMs = u := by
  unfold Reading.instant at h
  split at h
  · next i =>
    split at h
    · next w hw =>
      obtain rfl : w = u := Except.ok.inj h
      have hfloor := Instant.ofMs?_ms w
      rw [Instant.ms_ofMs? hw, hw] at hfloor
      exact (Option.some.inj hfloor).symm
    · cases h
  · cases h

theorem exists_of_mapM {α β : Type} {read : α → Except ReadError β} {vs : List α} {bs : List β}
    (h : vs.mapM read = .ok bs) : ∀ b ∈ bs, ∃ v ∈ vs, read v = .ok b := by
  induction vs generalizing bs with
  | nil =>
    obtain rfl : [] = bs := Except.ok.inj h
    exact fun b hb => absurd hb List.not_mem_nil
  | cons v vs ih =>
    rw [List.mapM_cons] at h
    rcases hv : read v with e | b <;> rw [hv] at h
    · cases h
    · rcases hvs : vs.mapM read with e | bs' <;> rw [hvs] at h
      · cases h
      · obtain rfl : b :: bs' = bs := Except.ok.inj h
        refine List.forall_mem_cons.2 ⟨⟨v, List.mem_cons_self, hv⟩, fun c hc => ?_⟩
        obtain ⟨w, hw, hwc⟩ := ih hvs c hc
        exact ⟨w, List.mem_cons_of_mem _ hw, hwc⟩

/-! ### Mails that were read -/

namespace Mail

variable {m : Mail} {v : Value} {depth : Nat}

/-- The further fields of a mail are those of its entries that have names of their own. -/
theorem exists_of_extra {es : Entries Value} (h : ofEntries es = .ok m) {e : String × Value}
    (he : e ∈ m.extra.entries) : e.1 ∉ knownKeys ∧ ∃ d ∈ es, e.2 = d.2.merged := by
  obtain ⟨-, -, -, -, -, -, hextra⟩ := ofEntries_eq_ok_iff.1 h
  rw [← hextra] at he
  obtain ⟨d, hd, rfl⟩ := Value.mem_mergedEntries (Entries.mem_merge he)
  exact ⟨of_decide_eq_true (List.mem_filter.1 hd).2, d, List.mem_of_mem_filter hd, rfl⟩

theorem exists_of_ofValue (h : ofValue v = .ok m) :
    ∃ es, v = .object es ∧ ofEntries es = .ok m := by
  cases v with
  | object es => exact ⟨es, rfl, h⟩
  | _ => cases h

theorem plain_of_read (h : ofValue v = .ok m) (hd : 1 < depth) (hv : v.Fits depth)
    (hf : Value.FaithfulEntries m.extra.entries) : m.Plain := by
  obtain ⟨es, rfl, hes⟩ := exists_of_ofValue h
  refine ⟨fun e he => (exists_of_extra hes he).1, Value.lawfulEntries_iff.2 fun e he => ?_⟩
  obtain ⟨-, d, hd', hed⟩ := exists_of_extra hes he
  have hfe := Value.faithfulEntries_iff.1 hf e he
  rw [hed] at hfe ⊢
  exact Value.lawful_merged d.2 ((Value.fits_object hd).1 hv d hd').worded hfe

theorem depth_of_read (h : ofValue v = .ok m) (hd : 1 < depth) (hv : v.Fits depth) :
    Value.depthEntries m.extra.entries ≤ depth - 2 := by
  obtain ⟨es, rfl, hes⟩ := exists_of_ofValue h
  refine Value.depthEntries_le_iff.2 fun e he => ?_
  obtain ⟨-, d, hd', hed⟩ := exists_of_extra hes he
  have hle := Value.depth_merged_le d.2
  have hlt := ((Value.fits_object hd).1 hv d hd').depth
  rw [hed]
  omega

end Mail

/-! ### Tasks that were read -/

namespace Task

variable {t : Task} {text : String}

theorem fits_of_record {v : Value} {keys : List String} {es : Entries Value} {depth : Nat}
    (hd : 1 < depth) (hv : v.Fits depth) (h : record keys 0 v = .ok es) :
    ∀ e ∈ es, e.2.Fits (depth - 1) := by
  unfold record at h
  split at h
  · obtain rfl := Except.ok.inj h
    exact (Value.fits_object hd).1 hv
  · split at h
    · obtain rfl := Except.ok.inj h
      exact fun e he => (Value.fits_list hd).1 hv e.2 (List.of_mem_zip he).2
    · cases h
  · cases h

/-- The mails of a task are read from values that stand two deep in its letter. -/
theorem exists_of_fragment (h : ofLetter text = some t) :
    ∀ m ∈ t.fragments, ∃ v : Value, v.Fits 126 ∧ Mail.ofValue v = .ok m := by
  obtain ⟨v, es, hv, hes, ht⟩ := ofLetter_eq_some h
  have hfit := fits_of_record (by decide) (Json.fits_parseRecord hv) hes
  obtain ⟨e, he, hread⟩ := mem_of_required (ofEntries_eq_ok ht).2.2
  have hfe := hfit e he
  rcases e with ⟨k, w⟩
  cases w with
  | list vs =>
    intro m hm
    obtain ⟨u, hu, hum⟩ := exists_of_mapM hread m hm
    exact ⟨u, (Value.fits_list (by decide)).1 hfe u hu, hum⟩
  | _ => cases hread

theorem plain_of_read (h : ofLetter text = some t)
    (hf : ∀ m ∈ t.fragments, Value.FaithfulEntries m.extra.entries) : t.Plain := by
  obtain ⟨v, es, -, -, ht⟩ := ofLetter_eq_some h
  obtain ⟨e, -, hsend⟩ := mem_of_required (ofEntries_eq_ok ht).1
  refine ⟨floorMs_of_instant hsend, transport_of_ofLetter h, fun m hm => ?_⟩
  obtain ⟨w, hw, hwm⟩ := exists_of_fragment h m hm
  exact Mail.plain_of_read hwm (by decide) hw (hf m hm)

theorem durable_of_read (h : ofLetter text = some t)
    (hf : ∀ m ∈ t.fragments, Value.FaithfulEntries m.extra.entries) : t.Durable := by
  intro m hm
  obtain ⟨w, hw, hwm⟩ := exists_of_fragment h m hm
  exact ⟨hf m hm, Mail.depth_of_read hwm (by decide) hw⟩

/-! ### Letters -/

def floored (t : Task) : Task := { t with sendAt := t.sendAt.floorMs }

theorem letter_floored (t : Task) : t.floored.letter = t.letter := by
  simp only [letter, written, floored, Instant.ms_floorMs]

/-- Lists and objects in the further fields stand no deeper than the reader of a letter goes. -/
def Shallow (t : Task) : Prop := ∀ m ∈ t.fragments, Value.depthEntries m.extra.entries ≤ 124

instance (t : Task) : Decidable t.Shallow :=
  inferInstanceAs (Decidable (∀ m ∈ t.fragments, Value.depthEntries m.extra.entries ≤ 124))

/-- A letter gives back the task to the millisecond, or nothing when it is too deep. -/
theorem ofLetter_letter_of_faithful (ht : t.transport < UInt64.size)
    (hp : ∀ m ∈ t.fragments, m.Plain)
    (hf : ∀ m ∈ t.fragments, Value.FaithfulEntries m.extra.entries) :
    ofLetter t.letter = if t.Shallow then some t.floored else none := by
  split
  · next hd =>
    rw [ofLetter_letter_eq ht,
      Mail.mapM_reread_of_plain hp fun m hm => ⟨hf m hm, hd m hm⟩]
    rfl
  · next hd =>
    have hread := isSome_ofLetter_iff ht fun m hm => (hp m hm).lawful
    rcases h : ofLetter t.letter with _ | u
    · rfl
    · rw [h] at hread
      exact absurd (fun m hm => (hread.1 rfl m hm).depth) hd

/-- **Letters give back what is written**: the task to the millisecond as long as it is shallow,
and just what was read before. -/
theorem given_back :
    (∀ t : Task, t.transport < UInt64.size → (∀ m ∈ t.fragments, m.Plain) →
      (∀ m ∈ t.fragments, Value.FaithfulEntries m.extra.entries) →
      ofLetter t.letter = (if t.Shallow then some t.floored else none) ∧
        t.floored.letter = t.letter) ∧
    ∀ (text : String) (t : Task), ofLetter text = some t →
      (∀ m ∈ t.fragments, Value.FaithfulEntries m.extra.entries) →
      ofLetter t.letter = some t := by
  refine ⟨fun t ht hp hf => ⟨ofLetter_letter_of_faithful ht hp hf, letter_floored t⟩, ?_⟩
  intro text t h hf
  exact ofLetter_letter (plain_of_read h hf) (durable_of_read h hf)

def enclosing (v : Value) : Task := new (.ofNat 1) ((Mail.new (.one "a@x")).field "x" v) .epoch

theorem plain_of_enclosing {v : Value} (h : v.Lawful) : ∀ m ∈ (enclosing v).fragments, m.Plain := by
  have hname : "x" ∉ Mail.knownKeys := by decide
  exact List.forall_mem_singleton.2 ⟨List.forall_mem_singleton.2 hname, h, trivial⟩

theorem faithful_of_enclosing {v : Value} (h : v.Faithful) :
    ∀ m ∈ (enclosing v).fragments, Value.FaithfulEntries m.extra.entries :=
  List.forall_mem_singleton.2 ⟨h, trivial⟩

/-- A letter of another hand, with an order of its own, none of the defaults, and under an unknown
key a number that is no float and half a pair of escapes. -/
def loose : String :=
  "\x7b\"mailOptions\": [\x7b\"x\": [1], \"to\": \"a@x\"\x7d], \"other\": [1e999, \"\\ud800\"], " ++
    "\"to\": \"a@x\", \"sendAt\": 0, \"uuid\": \"00000000000000000000000001\"\x7d"

theorem ofLetter_loose : ofLetter loose = some (enclosing (.list [.int 1])) := by
  have hread : Json.parseRecord (fun k => k ∈ keys) loose = some (.object
      [("mailOptions", .list [.object [("x", .list [.int 1]), ("to", .text "a@x")]]),
        ("to", .text "a@x"), ("sendAt", .int 0),
        ("uuid", .text "00000000000000000000000001")]) := by
    cbv
  rw [ofLetter, hread]
  rfl

theorem given_back_loose :
    let late := { enclosing (.list [.int 1]) with sendAt := ⟨1, by decide, by decide⟩ }
    ofLetter late.letter = some (enclosing (.list [.int 1])) ∧
      ofLetter loose = some (enclosing (.list [.int 1])) ∧
      ofLetter (enclosing (.list [.int 1])).letter = some (enclosing (.list [.int 1])) := by
  intro late
  have hp : ∀ m ∈ late.fragments, m.Plain :=
    plain_of_enclosing (v := .list [.int 1]) (by simp [Value.Lawful, Value.LawfulItems])
  have hf : ∀ m ∈ late.fragments, Value.FaithfulEntries m.extra.entries :=
    faithful_of_enclosing (v := .list [.int 1]) (by simp [Value.Faithful, Value.FaithfulItems])
  have hlate := (given_back.1 late (by decide) hp hf).1
  rw [if_pos (by decide)] at hlate
  exact ⟨hlate, ofLetter_loose, given_back.2 _ _ ofLetter_loose hf⟩

/-! ### A letter that is too deep -/

def nested : Nat → Value
  | 0 => .null
  | n + 1 => .list [nested n]

theorem depth_nested (n : Nat) : (nested n).depth = n := by
  induction n with
  | zero => rfl
  | succ n ih => simp [nested, Value.depth, Value.depthItems, ih]

theorem lawful_nested (n : Nat) : (nested n).Lawful := by
  induction n with
  | zero => trivial
  | succ n ih => exact ⟨ih, trivial⟩

theorem faithful_nested (n : Nat) : (nested n).Faithful := by
  induction n with
  | zero => trivial
  | succ n ih => exact ⟨ih, trivial⟩

/-- Letters give back what is written, however deep, and what was read before. -/
def GivenBackAlways : Prop :=
  (∀ t : Task, t.transport < UInt64.size → (∀ m ∈ t.fragments, m.Plain) →
    (∀ m ∈ t.fragments, Value.FaithfulEntries m.extra.entries) →
    ofLetter t.letter = some t.floored ∧ t.floored.letter = t.letter) ∧
  ∀ (text : String) (t : Task), ofLetter text = some t →
    (∀ m ∈ t.fragments, Value.FaithfulEntries m.extra.entries) →
    ofLetter t.letter = some t

/-- A value that stands 125 deep is written and not read. -/
theorem not_givenBackAlways : ¬GivenBackAlways := by
  intro h
  have ht : (enclosing (nested 125)).transport < UInt64.size := by decide
  have hp := plain_of_enclosing (lawful_nested 125)
  have hf := faithful_of_enclosing (faithful_nested 125)
  have hread := (h.1 _ ht hp hf).1
  rw [ofLetter_letter_of_faithful ht hp hf, if_neg] at hread
  · cases hread
  · intro hd
    have hdepth := hd _ (List.mem_singleton_self _)
    have h125 : Value.depthEntries [("x", nested 125)] ≤ 124 := hdepth
    have := depth_nested 125
    simp only [Value.depthEntries] at h125
    omega

end Task

end MailQueue
