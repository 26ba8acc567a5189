import MailQueue.Config
import MailQueue.Proofs.Compile.Layered
import MailQueue.Proofs.Template

/-!
# The body in the outer template

The outer template that is there by default is one placeholder, for the joined body. What is filled
in there is looked through once more, for placeholders of two braces.

* `Compiler.compile_body` is the body of a message that has this outer template: the joined body,
  in which each placeholder that names a field of the message with a text is filled in from it;
* `Compiler.BodiesStay` says that the joined body goes out as it is; a placeholder that its own mail
  has no text for is filled in from another mail.
-/

namespace MailQueue.Compiler

open Template

variable {c : Compiler} {transport : Transport} {task : Task} {m : Mail}

theorem placeholder_template : Placeholder 3 "html".toList ({} : Config).template.toList := by
  have hmargin : Margin [] := by simp [Margin]
  exact .intro hmargin hmargin (by simp) (by simp [isNameChar])

theorem lookup_html {mails : List Mail} {html : String} {values : Payload}
    (h : AroundBody transport mails html values) (hhtml : html ≠ "") :
    lookup values "html".toList = some html.toList := by
  simp [lookup, h "html", fillText, hhtml]

/-- **The body in the outer template by default.** -/
theorem compile_body (hc : c.template = ({} : Config).template) (ht : task.template = none)
    (hm : c.compile transport task = .ok m) :
    (c.joinedHtml task.fragments = "" → m.html = none) ∧
    (c.joinedHtml task.fragments ≠ "" → ∃ values pieces,
      AroundBody transport task.fragments (c.joinedHtml task.fragments) values ∧
      Scan 2 (c.joinedHtml task.fragments).toList pieces ∧
      m.html = some (String.ofList (pieces.flatMap (Piece.filled (plain values)))) ∧
      ((∀ name written, .slot name written ∈ pieces → lookup values name = none) →
        m.html = some (c.joinedHtml task.fragments))) := by
  obtain ⟨values, haround, hfields⟩ := get?_fields_html c transport task
  obtain ⟨-, -, -, -, -, hread, -⟩ := Mail.ofEntries_eq_ok_iff.1 hm
  have hhtml := Mail.eq_of_given ((Mail.given_of_optional hread).symm.trans (by rw [hfields]))
  have htemplate : ({} : Config).template ≠ "" := by decide
  rw [ht, Option.getD_none, hc, if_neg htemplate] at hhtml
  constructor
  · intro hempty
    rw [hhtml, if_pos hempty]
  · intro hne
    rw [if_neg hne] at hhtml
    obtain ⟨pieces, hscan⟩ := Scan.exists_of_text 2 (c.joinedHtml task.fragments).toList
    have hrender := render_slot placeholder_template (lookup_html haround hne) hscan
    refine ⟨values, pieces, haround, hscan, by rw [hhtml, hrender], fun hnone => ?_⟩
    have hopen : ∀ name written, .slot name written ∈ pieces → plain values name = none :=
      fun name written hslot => by rw [plain, hnone name written hslot, Option.map_none]
    rw [hhtml, hrender, hscan.flatMap_filled_of_none hopen, String.ofList_toList]

def unframed : Compiler := { digest with template := ({} : Config).template }

/-- Two mails for one recipient with the same body, the first without the field that it names. -/
def partly : Task :=
  let mail := { Mail.new (.one "a@x") with html := some "\x7b\x7bn\x7d\x7d" }
  { Task.new (.ofNat 1) mail .epoch with fragments := [mail, mail.field "n" (.int 3)] }

theorem joinedHtml_partly :
    unframed.joinedHtml partly.fragments = "\x7b\x7bn\x7d\x7d<hr>3" := by
  decide +kernel

theorem html_partly : ∃ m, unframed.compile postOffice partly = .ok m ∧ m.html = some "3<hr>3" := by
  have hcompile : (unframed.compile postOffice partly).toOption.map Mail.html =
      some (some "3<hr>3") := by
    decide +kernel
  rcases hm : unframed.compile postOffice partly with e | m <;> rw [hm] at hcompile
  · cases hcompile
  · exact ⟨m, rfl, Option.some.inj hcompile⟩

theorem compile_body_partly : ∃ m values pieces, unframed.compile postOffice partly = .ok m ∧
    AroundBody postOffice partly.fragments "\x7b\x7bn\x7d\x7d<hr>3" values ∧
    Scan 2 "\x7b\x7bn\x7d\x7d<hr>3".toList pieces ∧
    m.html = some (String.ofList (pieces.flatMap (Piece.filled (plain values)))) ∧
    m.html = some "3<hr>3" := by
  obtain ⟨m, hm, hhtml⟩ := html_partly
  have hbody := (compile_body rfl rfl hm).2
  rw [joinedHtml_partly] at hbody
  obtain ⟨values, pieces, haround, hscan, hfilled, -⟩ := hbody (by decide)
  exact ⟨m, values, pieces, hm, haround, hscan, hfilled, hhtml⟩

/-- The joined body goes out as it is: nothing that a mail leaves open is filled in from
elsewhere. -/
def BodiesStay : Prop :=
  ∀ (c : Compiler) (transport : Transport) (task : Task) (m : Mail),
    c.template = ({} : Config).template → task.template = none →
    c.compile transport task = .ok m →
    m.html =
      if c.joinedHtml task.fragments = "" then none else some (c.joinedHtml task.fragments)

/-- The placeholder that the first mail leaves is filled in from the second. -/
theorem not_bodiesStay : ¬BodiesStay := by
  intro h
  obtain ⟨m, hm, hhtml⟩ := html_partly
  have hstay := h unframed postOffice partly m rfl rfl hm
  rw [hhtml, joinedHtml_partly] at hstay
  revert hstay
  decide

end MailQueue.Compiler
