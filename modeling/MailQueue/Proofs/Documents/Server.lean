import MailQueue.Documents.Client
import MailQueue.Proofs.Documents.Document
import Mathlib.Data.Finset.Max
import Mathlib.Data.Multiset.MapFold

/-!
# A document server

A server keeps documents in no order. It lists what a filter finds in any order, and takes any one
of the documents that it finds for an update, a deletion, or the latest of them.

* `Serves` are the answers of a server, `Executes` what the work of a client comes to with them;
* `executes_once` for work that asks once, and `exists_find` and its like: there is an answer.
-/

namespace MailQueue.Documents

/-- The documents on a server. What a server adds to them of its own stands in no filter and is
left out. -/
abbrev Collection := Multiset Document

def sendAt? (d : Document) : Option Int :=
  match d.get? "sendAt" with
  | some (.int n) => some n
  | _ => none

/-- Of two documents with times of sending the first is not the later one. -/
def NoLater (e d : Document) : Prop := ∀ n ∈ sendAt? e, ∀ n' ∈ sendAt? d, n ≤ n'

/-- A server may answer a command so, with these documents afterwards. The calls of a store have
nothing to do with indexes. -/
inductive Serves (s : Collection) : (q : Command) → q.Answer → Collection → Prop where
  | ping : Serves s .ping (some ()) s
  | find {f : Filter} {l : List Document} (h : (l : Collection) = s.filter fun d => f.matches d) :
      Serves s (.find f) (some l) s
  | latest {f : Filter} {d : Document} (hd : d ∈ s) (hm : f.matches d = true)
      (hl : ∀ e ∈ s, f.matches e = true → NoLater e d) : Serves s (.findLatest f) (some (some d)) s
  | noLatest {f : Filter} (h : ∀ d ∈ s, ¬ f.matches d = true) :
      Serves s (.findLatest f) (some none) s
  | count {f : Filter} : Serves s (.count f) (some (s.filter fun d => f.matches d).card) s
  | insert {d : Document} (hd : Sendable d) : Serves s (.insert d) (some ()) (d ::ₘ s)
  | update {f : Filter} {fields d : Document} {r : Collection} (hf : Sendable fields)
      (h : s = d ::ₘ r) (hm : f.matches d = true) :
      Serves s (.update f fields) (some 1) (putAll d fields ::ₘ r)
  | noUpdate {f : Filter} {fields : Document} (hf : Sendable fields)
      (h : ∀ d ∈ s, ¬ f.matches d = true) :
      Serves s (.update f fields) (some 0) s
  | delete {f : Filter} {d : Document} {r : Collection} (h : s = d ::ₘ r)
      (hm : f.matches d = true) : Serves s (.delete f) (some 1) r
  | noDelete {f : Filter} (h : ∀ d ∈ s, ¬ f.matches d = true) : Serves s (.delete f) (some 0) s

/-- The work of a client may end so. -/
inductive Executes {α : Type} : Work α → Collection → α → Collection → Prop where
  | done {a : α} {s : Collection} : Executes (.done a) s a s
  | ask {q : Command} {next : q.Answer → Work α} {s s₁ s₂ : Collection} {x : q.Answer} {a : α}
      (serves : Serves s q x s₁) (rest : Executes (next x) s₁ a s₂) :
      Executes (.ask q next) s a s₂

/-! ### What a client comes to -/

section

variable {α : Type} {q : Command} {next : q.Answer → Work α} {s s' : Collection} {a a' : α}

theorem executes_done (h : Executes (.done a) s a' s') : a' = a ∧ s' = s := by
  cases h
  exact ⟨rfl, rfl⟩

theorem executes_ask (h : Executes (.ask q next) s a s') :
    ∃ x s₁, Serves s q x s₁ ∧ Executes (next x) s₁ a s' := by
  cases h with
  | ask serves rest => exact ⟨_, _, serves, rest⟩

theorem executes_once {f : q.Answer → α} (h : Executes (.ask q fun x => .done (f x)) s a s') :
    ∃ x, Serves s q x s' ∧ a = f x := by
  obtain ⟨x, s₁, serves, rest⟩ := executes_ask h
  obtain ⟨rfl, rfl⟩ := executes_done rest
  exact ⟨x, serves, rfl⟩

theorem exists_executes (h : ∃ x s₁, Serves s q x s₁) (hnext : ∀ x, ∃ r, next x = .done r) :
    ∃ a s', Executes (.ask q next) s a s' := by
  obtain ⟨x, s₁, serves⟩ := h
  obtain ⟨r, hr⟩ := hnext x
  exact ⟨r, s₁, .ask serves (hr ▸ .done)⟩

end

/-! ### What a server comes to -/

theorem exists_cons_or_forall (s : Collection) (f : Filter) :
    (∃ d r, s = d ::ₘ r ∧ f.matches d = true) ∨ ∀ d ∈ s, ¬ f.matches d = true := by
  by_cases h : ∃ d ∈ s, f.matches d = true
  · obtain ⟨d, hd, hm⟩ := h
    obtain ⟨r, hr⟩ := Multiset.exists_cons_of_mem hd
    exact .inl ⟨d, r, hr, hm⟩
  · exact .inr fun d hd hm => h ⟨d, hd, hm⟩

theorem exists_update (s : Collection) (f : Filter) {fields : Document} (hf : Sendable fields) :
    ∃ x s', Serves s (.update f fields) x s' := by
  rcases exists_cons_or_forall s f with ⟨d, r, hs, hm⟩ | h
  · exact ⟨_, _, .update hf hs hm⟩
  · exact ⟨_, _, .noUpdate hf h⟩

theorem exists_delete (s : Collection) (f : Filter) : ∃ x s', Serves s (.delete f) x s' := by
  rcases exists_cons_or_forall s f with ⟨d, r, hs, hm⟩ | h
  · exact ⟨_, _, .delete hs hm⟩
  · exact ⟨_, _, .noDelete h⟩

theorem exists_find (s : Collection) (f : Filter) : ∃ x s', Serves s (.find f) x s' :=
  ⟨_, _, .find (Multiset.coe_toList _)⟩

theorem exists_latest (s : Collection) (f : Filter) :
    ∃ x s', Serves s (.findLatest f) x s' := by
  by_cases h : (s.filter fun d => f.matches d) = 0
  · exact ⟨_, _, .noLatest (Multiset.filter_eq_nil.1 h)⟩
  · obtain ⟨d, hd, hmax⟩ := Multiset.exists_max_image (fun d => (sendAt? d).getD 0) h
    obtain ⟨hd, hm⟩ := Multiset.mem_filter.1 hd
    refine ⟨_, _, .latest hd hm fun e he hme n hn n' hn' => ?_⟩
    have hle := hmax e (Multiset.mem_filter.2 ⟨he, hme⟩)
    rwa [hn, hn'] at hle

end MailQueue.Documents
