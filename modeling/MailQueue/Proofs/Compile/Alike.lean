import MailQueue.Proofs.Compile.Fields

/-!
# Messages of mails to the same effect

Two mails to the same effect may differ in the order of a list and in the sign of a zero. Neither is
seen by a template, which has no text for lists and for zero, nor by the steps of the compilation,
which look at texts only; so the messages that two such tasks are compiled to are to the same effect.

* `Fields.Akin` says that under each key stand values to the same effect, and
  `Fields.equivalent_iff_akin` that this is what the comparison of fields finds;
* `Template.render_congr`: a template does not tell such fields apart;
* `Compiler.akin_layers`, `akin_wrap` and their like carry this through the compilation;
* `Mail.ofEntries_congr` reads mails to the same effect from such fields;
* `Compiler.compile_alike` puts it together.
-/

namespace MailQueue

/-! ### Values -/

namespace Value

theorem float_eq_of_unpack {x y : Float} (h : x.toModel.unpack = y.toModel.unpack) : x = y := by
  have hbits := (Float.Model.UnpackedFloat.unpack_inj_of_valid x.toModel.valid y.toModel.valid).1 h
  rcases x with ⟨⟨x, hx⟩⟩
  rcases y with ⟨⟨y, hy⟩⟩
  obtain rfl : x = y := UInt64.toBitVec_inj.1 hbits
  rfl

theorem unpack_zero : (0 : Float).toModel.unpack = .zero .positive := rfl

/-- Floats that are equal are the same, or both are zero. -/
theorem eq_or_zero_of_float_beq {x y : Float} (h : (x == y) = true) :
    x = y ∨ (x == 0) = true ∧ (y == 0) = true := by
  obtain ⟨-, -, h⟩ := (float_beq_iff x y).1 h
  simp only [float_beq_iff, unpack_zero]
  rcases h with h | ⟨hx, hy⟩ | ⟨hx, hy⟩
  · exact .inl (float_eq_of_unpack h)
  · exact .inr (by simp [hx, hy])
  · exact .inr (by simp [hx, hy])

theorem eq_text_of_equivalent {s : String} {w : Value} (h : (text s).equivalent w = true) :
    w = text s := by
  cases w <;> simp_all [equivalent, sameScalar]

theorem eq_of_isText {v w : Value} (hv : v.IsText) (h : v.equivalent w = true) : w = v := by
  rcases hv with rfl | ⟨s, rfl⟩
  · cases w <;> simp_all [equivalent, sameScalar]
  · exact eq_text_of_equivalent h

theorem exists_of_equivalentItems {a b : List Value} (hl : a.length = b.length)
    (h : equivalentItems a b = true) : ∀ w ∈ b, ∃ v ∈ a, v.equivalent w = true := by
  induction a generalizing b with
  | nil =>
    obtain rfl := List.length_eq_zero_iff.1 hl.symm
    exact fun w hw => absurd hw List.not_mem_nil
  | cons v a ih =>
    rw [equivalentItems] at h
    split at h
    · next left hleft =>
      obtain ⟨y, hy, hby⟩ := takeFirst_eq_some hleft
      have hlen : b.length = left.length + 1 := by simpa using congrArg Multiset.card hby
      intro w hw
      have hmem : w ∈ y ::ₘ (left : Multiset Value) := hby ▸ hw
      rcases Multiset.mem_cons.1 hmem with rfl | hw
      · exact ⟨v, List.mem_cons_self, hy⟩
      · rw [List.length_cons] at hl
        obtain ⟨u, hu, huw⟩ := ih (by omega) h w hw
        exact ⟨u, List.mem_cons_of_mem _ hu, huw⟩
    · cases h

end Value

theorem Recipient.equivalent_eq (r r' : Recipient) :
    r.equivalent r' = r.toValue.equivalent r'.toValue := by
  cases r <;> cases r' <;> rfl

/-- What is to the effect of a recipient is a recipient. -/
theorem Recipient.exists_of_equivalent {r : Recipient} {w : Value}
    (h : r.toValue.equivalent w = true) : ∃ r' : Recipient, w = r'.toValue := by
  cases r with
  | one s => exact ⟨.one s, Value.eq_text_of_equivalent h⟩
  | many addresses =>
    cases w with
    | list ws =>
      rw [toValue, Value.equivalent, Bool.and_eq_true, beq_iff_eq] at h
      have htext : ∀ w ∈ ws, ∃ s, w = Value.text s := by
        intro w hw
        obtain ⟨v, hv, hvw⟩ := Value.exists_of_equivalentItems h.1 h.2 w hw
        obtain ⟨s, -, rfl⟩ := List.mem_map.1 hv
        exact ⟨s, Value.eq_text_of_equivalent hvw⟩
      choose! text htext using htext
      refine ⟨.many (ws.map text), ?_⟩
      rw [toValue, List.map_map]
      congr 1
      refine (List.map_id ws).symm.trans (List.map_congr_left fun w hw => htext w hw)
    | _ => cases h

/-! ### Fields -/

/-- Nothing in either place, or values to the same effect. -/
abbrev SameEffect (o o' : Option Value) : Prop :=
  Option.Rel (fun v w => v.equivalent w = true) o o'

namespace SameEffect

variable {o o' : Option Value}

theorem text (s : String) : SameEffect (some (.text s)) (some (.text s)) :=
  .some (Value.equivalent_of_sameScalar (by simp [Value.sameScalar]))

theorem eq_none_iff (h : SameEffect o o') : o = none ↔ o' = none := by
  cases h <;> simp

theorem exists_of_some {v : Value} (h : SameEffect (some v) o') :
    ∃ w, o' = some w ∧ v.equivalent w = true := by
  cases h with
  | some hvw => exact ⟨_, rfl, hvw⟩

theorem exists_of_some_right {w : Value} (h : SameEffect o (some w)) :
    ∃ v, o = some v ∧ v.equivalent w = true := by
  cases h with
  | some hvw => exact ⟨_, rfl, hvw⟩

theorem symm (h : SameEffect o o') (ho : ∀ v, o = some v → v.Lawful)
    (ho' : ∀ w, o' = some w → w.Lawful) : SameEffect o' o := by
  cases h with
  | none => exact .none
  | some hvw => exact .some (Value.equivalent_symm (ho _ rfl) (ho' _ rfl) hvw)

theorem bind_eq {α : Type} {f : Value → Option α} (h : SameEffect o o')
    (hf : ∀ v w, v.equivalent w = true → f v = f w) : o.bind f = o'.bind f := by
  cases h with
  | none => rfl
  | some hvw => exact hf _ _ hvw

theorem or {q q' : Option Value} (h : SameEffect o o') (hq : SameEffect q q') :
    SameEffect (o.or q) (o'.or q') := by
  cases h with
  | some hv => exact .some hv
  | none => exact hq

theorem given_eq (h : SameEffect o o') {t t' : Option String}
    (ht : Mail.given o = t.map Value.text) (ht' : Mail.given o' = t'.map Value.text) : t = t' := by
  have ho : o = o' := by
    cases h with
    | none => rfl
    | some hv => rw [Value.eq_of_isText (Mail.isText_of_given ht) hv]
  subst ho
  exact Option.map_injective (fun _ _ => Value.text.inj) (ht.symm.trans ht')

end SameEffect

namespace Fields

variable {p q p' q' : Payload}

/-- Under each key values to the same effect. -/
def Akin (p q : Payload) : Prop := ∀ k, SameEffect (p.get? k) (q.get? k)

/-- **What the comparison of fields finds.** -/
theorem equivalent_iff_akin : p.equivalent q = true ↔ Akin p q := by
  rw [equivalent, Value.equivalent, Bool.and_eq_true, beq_iff_eq, Value.equivalentEntries_iff]
  constructor
  · rintro ⟨hl, h⟩ k
    rcases hp : p.get? k with _ | v
    · have hkeys := Value.keys_subset_of_length p.nodup hl fun e he => (h e he).imp fun _ hw => hw.1
      have hq : q.get? k = none :=
        Entries.get?_eq_none_iff.2 fun hk => Entries.get?_eq_none_iff.1 hp (hkeys hk)
      rw [hq]
      exact .none
    · obtain ⟨w, hw, hvw⟩ := h (k, v) (Entries.mem_of_get? hp)
      rw [show q.get? k = some w from hw]
      exact .some hvw
  · intro h
    have hperm : p.keys.Perm q.keys := by
      refine (List.perm_ext_iff_of_nodup p.nodup q.nodup).2 fun k => not_iff_not.1 ?_
      exact Entries.get?_eq_none_iff.symm.trans
        ((h k).eq_none_iff.trans Entries.get?_eq_none_iff)
    refine ⟨by simpa [keys, Entries.keys] using hperm.length_eq, fun e he => ?_⟩
    have hrel := h e.1
    rw [show p.get? e.1 = some e.2 from Entries.get?_of_mem p.nodup he] at hrel
    exact hrel.exists_of_some

namespace Akin

theorem refl (h : Value.LawfulEntries p.entries) : Akin p p := fun k => by
  rcases hp : p.get? k with _ | v
  · exact .none
  · exact .some (Value.equivalent_refl (lawfulEntries_iff_get?.1 h k v hp))

theorem symm (hp : Value.LawfulEntries p.entries) (hq : Value.LawfulEntries q.entries)
    (h : Akin p q) : Akin q p := fun k =>
  (h k).symm (lawfulEntries_iff_get?.1 hp k) (lawfulEntries_iff_get?.1 hq k)

theorem put_text (h : Akin p q) (key s : String) :
    Akin (p.put key (.text s)) (q.put key (.text s)) := fun k => by
  rw [get?_put, get?_put]
  split
  · exact .text s
  · exact h k

theorem extend (h : Akin p q) (h' : Akin p' q') : Akin (p.extend p') (q.extend q') := fun k => by
  rw [get?_extend, get?_extend]
  exact (h' k).or (h k)

end Akin

end Fields

open Fields (Akin)

/-! ### Templates -/

namespace Template

theorem fillText_congr {v w : Value} (h : v.equivalent w = true) : fillText v = fillText w := by
  rcases Value.cases_of_equivalent h with ⟨a, b, rfl, rfl, -⟩ | ⟨a, b, rfl, rfl, -⟩ | h
  · rfl
  · rfl
  · cases v <;> cases w <;>
      simp only [Value.sameScalar, beq_iff_eq, Bool.false_eq_true] at h
    case float.float x y =>
      rcases Value.eq_or_zero_of_float_beq h with rfl | ⟨hx, hy⟩
      · rfl
      · simp [fillText, hx, hy]
    all_goals first | rfl | rw [h]

/-- **A template does not tell fields apart** that are to the same effect. -/
theorem render_congr {p q : Payload} (h : Akin p q) (template : String) :
    render template p = render template q := by
  have hlookup : lookup p = lookup q :=
    funext fun name => (h (String.ofList name)).bind_eq fun _ _ => fillText_congr
  rw [render, render, renderChars, renderChars, hlookup]

end Template

/-! ### Mails -/

namespace Mail

variable {a b : Mail} {p q : Payload}

theorem akin_payload (h : a.equivalent b = true) : Akin a.payload b.payload :=
  Fields.equivalent_iff_akin.1 h

theorem Plain.get?_payload (ha : a.Plain) {k : String} {o : Option String} (hk : (k, o) ∈ a.texts) :
    a.payload.get? k = o.map Value.text := by
  have hextra : a.extra.get? k = none := by
    refine Entries.get?_eq_none_iff.2 fun hmem => ?_
    obtain ⟨e, he, rfl⟩ := List.mem_map.1 hmem
    exact ha.names e he (mem_knownKeys_of_texts hk)
  rw [get?_payload_text hk, hextra, Option.or_none]

theorem text_eq (ha : a.Plain) (hb : b.Plain) (h : a.equivalent b = true) {k : String}
    {o o' : Option String} (hk : (k, o) ∈ a.texts) (hk' : (k, o') ∈ b.texts) : o = o' := by
  have hrel := akin_payload h k
  rw [ha.get?_payload hk, hb.get?_payload hk'] at hrel
  cases o <;> cases o' <;> cases hrel
  · rfl
  · next h => rw [Value.text.inj (Value.eq_text_of_equivalent h)]

/-- Messages to the same effect: the recipients and the further fields up to the order of lists. -/
structure Matches (a b : Mail) : Prop where
  sender : a.sender = b.sender
  subject : a.subject = b.subject
  text : a.text = b.text
  html : a.html = b.html
  recipient : a.recipient.equivalent b.recipient = true
  extra : a.extra.equivalent b.extra = true

/-- **Mails read from fields** to the same effect. -/
theorem ofEntries_congr (h : Akin p q) (hp : Value.LawfulEntries p.entries)
    (hq : Value.LawfulEntries q.entries) (ha : ofEntries p.entries = .ok a) :
    ∃ b, ofEntries q.entries = .ok b ∧ a.Matches b := by
  have hr := reads_of_ofEntries hp ha
  have hto := h "to"
  rw [hr.recipient] at hto
  obtain ⟨w, hq', hrecipient⟩ := hto.exists_of_some
  obtain ⟨r, rfl⟩ := Recipient.exists_of_equivalent hrecipient
  rcases ofEntries_fields hq' with ⟨b, hb⟩ | ⟨k, hk, w, hw, hnot, -⟩
  · have hs := reads_of_ofEntries hq hb
    refine ⟨b, hb, ?_⟩
    exact {
      sender := (h "from").given_eq hr.sender hs.sender
      subject := (h "subject").given_eq hr.subject hs.subject
      text := (h "text").given_eq hr.text hs.text
      html := (h "html").given_eq hr.html hs.html
      recipient := by
        rw [Recipient.equivalent_eq, ← Option.some.inj (hq'.symm.trans hs.recipient)]
        exact hrecipient
      extra := Fields.equivalent_iff_akin.2 fun k => by
        rw [hr.extra, hs.extra]
        split
        · exact .none
        · exact h k }
  · -- a text of another kind on the one side is one on the other
    have hrel := h k
    rw [hw] at hrel
    obtain ⟨v, hv, hvw⟩ := hrel.exists_of_some_right
    have htext := hr.isText hk hv
    rw [Value.eq_of_isText htext hvw] at hnot
    exact absurd htext hnot

end Mail

/-! ### The compilation -/

namespace Compiler

variable {c : Compiler} {transport : Transport} {task task' : Task} {p q : Payload}
  {ms ms' : List Mail}

theorem akin_withoutBodies (h : Akin p q) : Akin (withoutBodies p) (withoutBodies q) := fun k => by
  rw [get?_withoutBodies, get?_withoutBodies]
  split
  · exact .none
  · exact h k

theorem akin_foldl_extend (hms : List.Forall₂ (fun a b => a.equivalent b = true) ms ms')
    (h : Akin p q) :
    Akin (ms.foldl (fun acc m => acc.extend (withoutBodies m.payload)) p)
      (ms'.foldl (fun acc m => acc.extend (withoutBodies m.payload)) q) := by
  induction hms generalizing p q with
  | nil => exact h
  | cons hm _ ih => exact ih (h.extend (akin_withoutBodies (Mail.akin_payload hm)))

theorem akin_layers (hms : List.Forall₂ (fun a b => a.equivalent b = true) ms ms')
    (hd : ∀ d ∈ transport.defaults, Value.LawfulEntries d.entries) :
    Akin (layers transport ms) (layers transport ms') := by
  refine akin_foldl_extend hms (akin_withoutBodies (Akin.refl ?_))
  rcases hdefaults : transport.defaults with _ | d
  · trivial
  · exact hd d hdefaults

/-- The bodies are the same, since a body and what it is filled in from are. -/
theorem bodies_congr (hms : List.Forall₂ (fun a b => a.equivalent b = true) ms ms')
    (hp : ∀ m ∈ ms, m.Plain) (hp' : ∀ m ∈ ms', m.Plain) (b : Bodies) :
    ms.foldl (Bodies.add c) b = ms'.foldl (Bodies.add c) b := by
  induction hms generalizing b with
  | nil => rfl
  | @cons m m' ms ms' hm _ ih =>
    obtain ⟨hm₁, hp⟩ := List.forall_mem_cons.1 hp
    obtain ⟨hm₂, hp'⟩ := List.forall_mem_cons.1 hp'
    have hhtml : m.html = m'.html :=
      Mail.text_eq hm₁ hm₂ hm (k := "html") (by simp [Mail.texts]) (by simp [Mail.texts])
    have htext : m.text = m'.text :=
      Mail.text_eq hm₁ hm₂ hm (k := "text") (by simp [Mail.texts]) (by simp [Mail.texts])
    have hrender := Template.render_congr (Mail.akin_payload hm)
    have hadd : b.add c m = b.add c m' := by
      simp only [Bodies.add, join, hhtml, htext, hrender]
    rw [List.foldl_cons, List.foldl_cons, hadd, ih hp hp']

theorem akin_wrap (h : Akin p q) (template : Option String) (html : String) :
    Akin (c.wrap template html p) (c.wrap template html q) := by
  have hinner := h.put_text "html" html
  unfold wrap
  split
  · exact h
  · dsimp only
    split
    · exact hinner
    · rw [Template.render_congr hinner]
      exact hinner.put_text "html" _

theorem akin_addText (h : Akin p q) (text : String) : Akin (addText text p) (addText text q) := by
  unfold addText
  split
  · exact h
  · exact h.put_text "text" text

theorem akin_addSubject (h : Akin p q) (hsubject : c.mergedSubject? task = c.mergedSubject? task') :
    Akin (c.addSubject task p) (c.addSubject task' q) := fun k => by
  rw [get?_addSubject, get?_addSubject, hsubject]
  split
  · rcases c.mergedSubject? task' with _ | s
    · exact h k
    · exact .text s
  · exact h k

theorem isNobody_congr {o o' : Option Value} (h : SameEffect o o') : isNobody o = isNobody o' := by
  cases h with
  | none => rfl
  | @some v w hvw =>
    rcases Value.cases_of_equivalent hvw with ⟨a, b, rfl, rfl, -⟩ | ⟨a, b, rfl, rfl, -⟩ | hvw
    · rfl
    · rfl
    · cases v <;> cases w <;> simp_all [Value.sameScalar, isNobody]

theorem akin_addSender (h : Akin p q) :
    Akin (c.addSender transport p) (c.addSender transport q) := fun k => by
  rw [get?_addSender, get?_addSender, hasSender_eq, hasSender_eq, isNobody_congr (h "from")]
  split
  · rcases c.resolved? transport with _ | s
    · exact h k
    · exact .text s
  · exact h k

theorem akin_fields {mails : List Mail}
    (hms : List.Forall₂ (fun a b => a.equivalent b = true) task.fragments mails)
    (hp : ∀ m ∈ task.fragments, m.Plain) (hp' : ∀ m ∈ mails, m.Plain)
    (hd : ∀ d ∈ transport.defaults, Value.LawfulEntries d.entries) :
    Akin (c.fields transport task) (c.fields transport { task with fragments := mails }) := by
  have hsubject : c.mergedSubject? task = c.mergedSubject? { task with fragments := mails } := by
    simp only [mergedSubject?, hms.length_eq]
  have hbodies := bodies_congr (c := c) hms hp hp' {}
  simp only [fields, ← hbodies]
  have hwrap := akin_wrap (c := c) (akin_layers hms hd) task.template
    (task.fragments.foldl (Bodies.add c) {}).html
  exact akin_addSender (akin_addSubject (akin_addText hwrap _) hsubject)

/-- Either neither task is compiled, or both are, to messages to the same effect. -/
def SameOutcome : Except ReadError Mail → Except ReadError Mail → Prop
  | .ok a, .ok b => a.Matches b
  | .error _, .error _ => True
  | _, _ => False

theorem sameOutcome_of_akin (h : Akin p q) (hp : Value.LawfulEntries p.entries)
    (hq : Value.LawfulEntries q.entries) :
    SameOutcome (Mail.ofEntries p.entries) (Mail.ofEntries q.entries) := by
  rcases ha : Mail.ofEntries p.entries with e | a
  · rcases hb : Mail.ofEntries q.entries with e' | b
    · trivial
    · obtain ⟨a, ha', -⟩ := Mail.ofEntries_congr (h.symm hp hq) hq hp hb
      rw [ha'] at ha
      cases ha
  · obtain ⟨b, hb, hab⟩ := Mail.ofEntries_congr h hp hq ha
    rw [hb]
    exact hab

/-- **Mails to the same effect** are rendered alike, and compiled to the same effect. -/
theorem compile_alike :
    (∀ (a b : Mail), a.equivalent b = true → ∀ template : String,
      Template.render template a.payload = Template.render template b.payload) ∧
    ∀ (c : Compiler) (transport : Transport) (task : Task) (mails : List Mail),
      List.Forall₂ (fun a b => a.equivalent b = true) task.fragments mails →
      (∀ m ∈ task.fragments, m.Plain) → (∀ m ∈ mails, m.Plain) →
      (∀ d ∈ transport.defaults, Value.LawfulEntries d.entries) →
      SameOutcome (c.compile transport task)
        (c.compile transport { task with fragments := mails }) := by
  refine ⟨fun a b h => Template.render_congr (Mail.akin_payload h), ?_⟩
  intro c transport task mails hms hp hp' hd
  have hl : Lawful transport task.fragments := ⟨hd, fun m hm => (hp m hm).lawful⟩
  have hl' : Lawful transport mails := ⟨hd, fun m hm => (hp' m hm).lawful⟩
  exact sameOutcome_of_akin (akin_fields hms hp hp' hd) (lawful_fields hl) (lawful_fields hl')

def withCopies (copies : List String) (n : Float) : Mail :=
  let mail := (Mail.new (.many ["a@x", "b@x"])).field "cc" (.list (copies.map .text))
  { mail.field "n" (.float n) with text := some "\x7b\x7bn\x7d\x7d" }

theorem plain_withCopies {copies : List String} {n : Float} (hn : n.isFinite = true) :
    (withCopies copies n).Plain where
  names := by
    have hcc : "cc" ∉ Mail.knownKeys ∧ "n" ∉ Mail.knownKeys := by decide
    exact List.forall_mem_cons.2 ⟨hcc.1, List.forall_mem_singleton.2 hcc.2⟩
  lawful := by
    have hcopies : (Value.list (copies.map .text)).Lawful := by
      simp [Value.Lawful, Value.lawfulItems_iff]
    exact ⟨hcopies, hn, trivial⟩

def bare : Transport := ⟨"post", none⟩

def terse : Compiler := ⟨"", "", "", none⟩

def inOrder : Task := Task.new (.ofNat 1) (withCopies ["c@x", "d@x"] 0) .epoch

/-- The copies in another order, and the other zero. -/
theorem compile_alike_otherOrder :
    (∀ template : String, Template.render template (withCopies ["c@x", "d@x"] 0).payload =
      Template.render template (withCopies ["d@x", "c@x"] (-0)).payload) ∧
    SameOutcome (terse.compile bare inOrder)
      (terse.compile bare { inOrder with fragments := [withCopies ["d@x", "c@x"] (-0)] }) := by
  have hequivalent : (withCopies ["c@x", "d@x"] 0).equivalent (withCopies ["d@x", "c@x"] (-0)) =
      true := by
    decide +kernel
  have hplain : ∀ m ∈ inOrder.fragments, m.Plain :=
    List.forall_mem_singleton.2 (plain_withCopies (by decide +kernel))
  have hplain' : ∀ m ∈ [withCopies ["d@x", "c@x"] (-0)], m.Plain :=
    List.forall_mem_singleton.2 (plain_withCopies (by decide +kernel))
  have hdefaults : ∀ d ∈ bare.defaults, Value.LawfulEntries d.entries := fun d hd => by cases hd
  exact ⟨compile_alike.1 _ _ hequivalent,
    compile_alike.2 terse bare inOrder _ (.cons hequivalent .nil) hplain hplain' hdefaults⟩

end Compiler

end MailQueue
