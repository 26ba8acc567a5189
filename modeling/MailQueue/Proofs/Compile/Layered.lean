import MailQueue.Proofs.Compile.Fields

/-!
# What a task is compiled to

The message told field by field, without the order in which the fields are put over each other.

* `Compiler.filledIn` and `Compiler.inARow` are the bodies of one kind and how they are joined;
  `Compiler.text_bodies` and `Compiler.html_bodies` say that the bodies come to this;
* `Compiler.subjectLayer` and `Compiler.senderLayer` are the subject and the sender as they stand in
  the end, `Compiler.AroundBody` the values that the outer template is filled in from;
* `Compiler.Message` is the message, and `compile_layers` says that there is no other, and when
  there is none.
-/

namespace MailQueue.Compiler

variable {c : Compiler} {transport : Transport} {task : Task} {mails : List Mail} {k : String}

/-! ### Bodies -/

/-- The bodies of one kind that are there, each with its mail and filled in from it. -/
def filledIn (body : Mail → Option String) (mails : List Mail) : List (Mail × String) :=
  mails.filterMap fun m => (nonEmpty? (body m)).map fun s => (m, Template.render s m.payload)

def after (between : Mail → String) (before : String) (body : Mail × String) : String :=
  if before = "" then body.2 else before ++ between body.1 ++ body.2

def inARow (between : Mail → String) (bodies : List (Mail × String)) : String :=
  bodies.foldl (after between) ""

def joinedText (mails : List Mail) : String := inARow (fun _ => "\r\n") (filledIn Mail.text mails)

/-- The joined body, the delimiter filled in from the mail after it. -/
def joinedHtml (c : Compiler) (mails : List Mail) : String :=
  inARow (fun m => Template.render c.delimiter m.payload) (filledIn Mail.html mails)

/-- A body that is added to after each mail comes to the bodies in a row. -/
theorem foldl_join (between : Mail → String) (body : Mail → Option String) (mails : List Mail)
    (before : String) :
    mails.foldl (fun s m => join s (between m) (body m) m.payload) before =
      (filledIn body mails).foldl (after between) before := by
  induction mails generalizing before with
  | nil => rfl
  | cons m mails ih =>
    rw [List.foldl_cons, ih, filledIn, filledIn, List.filterMap_cons]
    rcases hbody : nonEmpty? (body m) with _ | s
    · simp [join, hbody]
    · by_cases hb : before = "" <;> simp [join, hbody, after, hb]

theorem text_foldl_add (mails : List Mail) (b : Bodies) :
    (mails.foldl (Bodies.add c) b).text =
      mails.foldl (fun s m => join s "\r\n" m.text m.payload) b.text := by
  induction mails generalizing b with
  | nil => rfl
  | cons m mails ih => exact ih (b.add c m)

theorem html_foldl_add (mails : List Mail) (b : Bodies) :
    (mails.foldl (Bodies.add c) b).html =
      mails.foldl (fun s m => join s (Template.render c.delimiter m.payload) m.html m.payload)
        b.html := by
  induction mails generalizing b with
  | nil => rfl
  | cons m mails ih => exact ih (b.add c m)

theorem text_bodies (mails : List Mail) :
    (mails.foldl (Bodies.add c) {}).text = joinedText mails := by
  rw [text_foldl_add]
  exact foldl_join (fun _ => "\r\n") Mail.text mails ""

theorem html_bodies (mails : List Mail) :
    (mails.foldl (Bodies.add c) {}).html = c.joinedHtml mails := by
  rw [html_foldl_add]
  exact foldl_join (fun m => Template.render c.delimiter m.payload) Mail.html mails ""

/-! ### The message -/

def subjectLayer (c : Compiler) (transport : Transport) (task : Task) : Option Value :=
  ((c.mergedSubject? task).map Value.text).or (layered transport task.fragments "subject")

def senderLayer (c : Compiler) (transport : Transport) (mails : List Mail) : Option Value :=
  if isNobody (layered transport mails "from") then
    ((c.resolved? transport).map Value.text).or (layered transport mails "from")
  else layered transport mails "from"

/-- What the outer template is filled in from: the layers with the joined body in them. -/
def AroundBody (transport : Transport) (mails : List Mail) (html : String) (values : Payload) :
    Prop :=
  ∀ k, values.get? k =
    if k = "html" then some (.text html)
    else if k = "text" then none
    else layered transport mails k

/-- The message, field by field. -/
structure Message (c : Compiler) (transport : Transport) (task : Task) (m : Mail) : Prop where
  recipient : task.fragments.getLast?.map Mail.recipient = some m.recipient
  sender : m.sender.map Value.text = Mail.given (c.senderLayer transport task.fragments)
  subject : m.subject.map Value.text = Mail.given (c.subjectLayer transport task)
  text : m.text =
    if joinedText task.fragments = "" then none else some (joinedText task.fragments)
  html : ∃ values, AroundBody transport task.fragments (c.joinedHtml task.fragments) values ∧
    m.html =
      if c.joinedHtml task.fragments = "" then none
      else if task.template.getD c.template = "" then some (c.joinedHtml task.fragments)
      else some (Template.render (task.template.getD c.template) values)
  extra : ∀ k, m.extra.get? k =
    if k ∈ Mail.knownKeys then none else layered transport task.fragments k

section

variable (c transport task)

/-- What stands under a key that no step after the layers touches. -/
theorem get?_fields_of_layers (hk : k ∉ Mail.textKeys) :
    (c.fields transport task).get? k = layered transport task.fragments k := by
  simp only [Mail.textKeys, List.mem_cons, List.not_mem_nil, or_false, not_or] at hk
  obtain ⟨hfrom, hsubject, htext, hhtml⟩ := hk
  have hbody : k ∉ bodyKeys := by simp [bodyKeys, hhtml, htext]
  simp only [fields, get?_addSender, get?_addSubject, get?_addText, get?_wrap hhtml, get?_layers,
    hbody, hsubject, hfrom, htext, false_and, and_false, if_false]

theorem get?_fields_subject :
    (c.fields transport task).get? "subject" = c.subjectLayer transport task := by
  have hk : "subject" ∉ bodyKeys := by decide
  simp [fields, get?_addSender, get?_addSubject, get?_addText, get?_wrap, get?_layers, hk,
    subjectLayer]

theorem get?_fields_from :
    (c.fields transport task).get? "from" = c.senderLayer transport task.fragments := by
  have hk : "from" ∉ bodyKeys := by decide
  simp [fields, get?_addSender, get?_addSubject, get?_addText, get?_wrap, get?_layers, hk,
    hasSender_eq, senderLayer]

theorem get?_fields_text :
    (c.fields transport task).get? "text" =
      (if joinedText task.fragments = "" then none
        else some (joinedText task.fragments)).map Value.text := by
  have hk : "text" ∈ bodyKeys := by decide
  by_cases h : joinedText task.fragments = "" <;>
    simp [fields, get?_addSender, get?_addSubject, get?_addText, get?_wrap, get?_layers, hk,
      text_bodies, h]

theorem aroundBody_put (html : String) :
    AroundBody transport task.fragments html
      ((layers transport task.fragments).put "html" (.text html)) := by
  intro k
  rw [Fields.get?_put, get?_layers]
  by_cases hhtml : k = "html"
  · simp [hhtml]
  · by_cases htext : k = "text"
    · simp [htext, bodyKeys]
    · simp [bodyKeys, hhtml, htext, Ne.symm hhtml]

theorem get?_fields_html :
    ∃ values, AroundBody transport task.fragments (c.joinedHtml task.fragments) values ∧
      (c.fields transport task).get? "html" =
        (if c.joinedHtml task.fragments = "" then none
        else if task.template.getD c.template = "" then some (c.joinedHtml task.fragments)
        else some (Template.render (task.template.getD c.template) values)).map Value.text := by
  refine ⟨_, aroundBody_put transport task _, ?_⟩
  have hk : "html" ∈ bodyKeys := by decide
  by_cases h : c.joinedHtml task.fragments = ""
  · simp [fields, get?_addSender, get?_addSubject, get?_addText, get?_layers, hk, html_bodies,
      wrap, h]
  · by_cases ht : task.template.getD c.template = "" <;>
      simp [fields, get?_addSender, get?_addSubject, get?_addText, html_bodies, wrap, h, ht]

theorem get?_fields_to {m : Mail} (hm : task.fragments.getLast? = some m) :
    (c.fields transport task).get? "to" = some m.recipient.toValue := by
  rw [get?_fields_of_layers c transport task (by decide), layered]
  obtain ⟨mails, hmails⟩ := List.getLast?_eq_some_iff.1 hm
  rw [hmails, List.reverse_append, List.reverse_singleton, List.singleton_append,
    List.findSome?_cons, m.get?_payload_to]
  rfl

end

/-- **What a task is compiled to**: this message, unless the sender or the subject is there and no
text. -/
theorem compile_layers (c : Compiler) (transport : Transport) (task : Task)
    (hmails : task.fragments ≠ []) (hl : Lawful transport task.fragments) :
    match c.compile transport task with
    | .ok m => c.Message transport task m
    | .error e => ∃ v, (c.senderLayer transport task.fragments = some v ∨
        c.subjectLayer transport task = some v) ∧ ¬v.IsText ∧ e = .notText v := by
  have hlast := List.getLast?_eq_some_getLast hmails
  have hto := get?_fields_to c transport task hlast
  have hfrom := get?_fields_from c transport task
  have hsubject := get?_fields_subject c transport task
  have htext := get?_fields_text c transport task
  obtain ⟨values, haround, hhtml⟩ := get?_fields_html c transport task
  rcases Mail.ofEntries_fields hto with ⟨m, hm⟩ | ⟨k, hk, v, hv, hnot, herr⟩
  · have hr := Mail.reads_of_ofEntries (lawful_fields hl) hm
    have hrecipient := Option.some.inj (hto.symm.trans hr.recipient)
    rw [compile, hm]
    exact {
      recipient := by rw [hlast, Option.map_some, Recipient.toValue_injective hrecipient]
      sender := by rw [← hfrom, hr.sender]
      subject := by rw [← hsubject, hr.subject]
      text := Mail.eq_of_given (by rw [← htext, hr.text])
      html := ⟨values, haround, Mail.eq_of_given (by rw [← hhtml, hr.html])⟩
      extra := fun k => by
        rw [hr.extra]
        split
        · rfl
        · next hk =>
          exact get?_fields_of_layers c transport task fun h => hk (List.mem_cons_of_mem _ h) }
  · rw [compile, herr]
    refine ⟨v, ?_, hnot, rfl⟩
    simp only [Mail.textKeys, List.mem_cons, List.not_mem_nil, or_false] at hk
    rcases hk with rfl | rfl | rfl | rfl
    · exact .inl (hfrom.symm.trans hv)
    · exact .inr (hsubject.symm.trans hv)
    · obtain ⟨s, -, rfl⟩ := Option.map_eq_some_iff.1 (htext.symm.trans hv)
      exact absurd (.inr ⟨s, rfl⟩) hnot
    · obtain ⟨s, -, rfl⟩ := Option.map_eq_some_iff.1 (hhtml.symm.trans hv)
      exact absurd (.inr ⟨s, rfl⟩) hnot

def digest : Compiler :=
  ⟨"<main>\x7b\x7b\x7bhtml\x7d\x7d\x7d</main>", "<hr>", "News", some fun t => some t.name⟩

/-- A transport with fields of its own, one of them under the name of a body. -/
def postOffice : Transport :=
  ⟨"post@x", some (.ofEntries [("html", .text "none"), ("stamp", .int 1), ("n", .int 1)])⟩

def pair : Task :=
  let mail (n : Int) : Mail :=
    { (Mail.new (.one "a@x")).field "n" (.int n) with html := some "<b>\x7b\x7bn\x7d\x7d</b>" }
  { Task.new (.ofNat 1) (mail 2) .epoch with fragments := [mail 2, mail 3] }

theorem lawful_pair : Lawful postOffice pair.fragments where
  defaults := by
    intro p hp
    obtain rfl := Option.some.inj hp
    refine ⟨trivial, ?_, ?_, trivial⟩ <;> simp only [Value.Lawful] <;> decide
  mails := by
    intro m hm
    simp only [pair, List.mem_cons, List.not_mem_nil, or_false] at hm
    rcases hm with rfl | rfl <;> refine ⟨?_, trivial⟩ <;> simp only [Value.Lawful] <;> decide

theorem compile_layers_digest :
    ∃ m, digest.compile postOffice pair = .ok m ∧ digest.Message postOffice pair m ∧
      m.html = some "<main><b>2</b><hr><b>3</b></main>" ∧ m.subject = some "News" ∧
      m.sender = some "post@x" := by
  have h := compile_layers digest postOffice pair (by decide) lawful_pair
  have hcompile : (digest.compile postOffice pair).toOption.map
      (fun m => (m.html, m.subject, m.sender)) =
        some (some "<main><b>2</b><hr><b>3</b></main>", some "News", some "post@x") := by
    decide +kernel
  rcases hm : digest.compile postOffice pair with e | m <;> rw [hm] at h hcompile
  · cases hcompile
  · have hfields := Option.some.inj hcompile
    simp only [Prod.mk.injEq] at hfields
    exact ⟨m, rfl, h, hfields⟩

end MailQueue.Compiler
