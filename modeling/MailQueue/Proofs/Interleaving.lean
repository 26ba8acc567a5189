import MailQueue.Program
import Mathlib.Data.List.Basic
import Mathlib.Data.List.Induction
import Mathlib.Data.Nat.Init

/-!
# Jobs side by side

Programs that run at the same time over one shared state. A step starts a job, answers one question
of one job, or lets the shared state move on its own; nothing else is fixed about the order. Every
answer is recorded, with the shared state as it was found.

* `Program.Path p l p'`: the questions and answers `l` lead from `p` to `p'`;
* `Course Advance c l c'`: the same for a machine that says what one answer can do, and
  `course_of_path` turns a path of a program into a course of its machine;
* `Interleaving.Step` is a step of the jobs and `Interleaving.Run` any number of them;
* `Run.path`: what is left of a job is what its own answers have left of its program;
* `Run.split`: each record was made by a step, from a state that was reached before.
-/

namespace MailQueue

/-! ### Paths of one program -/

abbrev Exchange (Ask : Type) (Answer : Ask → Type) : Type := (q : Ask) × Answer q

namespace Program

variable {Ask : Type} {Answer : Ask → Type} {α β : Type}

/-- The exchanges lead from the first program to the second. -/
inductive Path (p : Program Ask Answer α) :
    List (Exchange Ask Answer) → Program Ask Answer α → Prop where
  | refl : Path p [] p
  | snoc {l : List (Exchange Ask Answer)} {q : Ask} {next : Answer q → Program Ask Answer α}
      (h : Path p l (.ask q next)) (a : Answer q) : Path p (l ++ [⟨q, a⟩]) (next a)

variable {l : List (Exchange Ask Answer)}

theorem Path.of_ask {q : Ask} {next : Answer q → Program Ask Answer α} {p : Program Ask Answer α}
    (h : Path (.ask q next) l p) :
    (l = [] ∧ p = .ask q next) ∨ ∃ a l', l = ⟨q, a⟩ :: l' ∧ Path (next a) l' p := by
  induction h with
  | refl => exact .inl ⟨rfl, rfl⟩
  | snoc h a ih =>
    rcases ih with ⟨rfl, hp⟩ | ⟨b, l', rfl, hp⟩
    · obtain ⟨rfl, hnext⟩ := Program.ask.inj hp
      cases hnext
      exact .inr ⟨a, [], rfl, .refl⟩
    · exact .inr ⟨b, _, rfl, hp.snoc a⟩

theorem Path.cons {q : Ask} {next : Answer q → Program Ask Answer α} {p : Program Ask Answer α}
    (a : Answer q) (h : Path (next a) l p) : Path (.ask q next) (⟨q, a⟩ :: l) p := by
  induction h with
  | refl => exact Path.refl.snoc a
  | snoc _ b ih => exact ih.snoc b

theorem Path.of_done {r : α} {p : Program Ask Answer α} (h : Path (.done r) l p) :
    l = [] ∧ p = .done r := by
  induction h with
  | refl => exact ⟨rfl, rfl⟩
  | snoc _ a ih => cases ih.2

/-- A program that asks first and has ended went on with the answer. -/
theorem Path.exists_of_ask {q : Ask} {next : Answer q → Program Ask Answer α} {r : α}
    (h : Path (.ask q next) l (.done r)) : ∃ a l', l = ⟨q, a⟩ :: l' ∧ Path (next a) l' (.done r) :=
  h.of_ask.resolve_left fun he => by cases he.2

/-- A program that has ended after another one went on when the other had ended. -/
theorem Path.exists_of_bind {p : Program Ask Answer α} {f : α → Program Ask Answer β} {b : β}
    (h : Path (p.bind f) l (.done b)) :
    ∃ l₁ a l₂, l = l₁ ++ l₂ ∧ Path p l₁ (.done a) ∧ Path (f a) l₂ (.done b) := by
  induction p generalizing l with
  | done a => exact ⟨[], a, l, rfl, .refl, h⟩
  | ask q next ih =>
    obtain ⟨x, l', rfl, h'⟩ := h.exists_of_ask
    obtain ⟨l₁, a, l₂, rfl, h₁, h₂⟩ := ih x h'
    exact ⟨⟨q, x⟩ :: l₁, a, l₂, rfl, h₁.cons x, h₂⟩

/-- A program whose result is only put into another form goes on as the program does. -/
theorem Path.of_bind_done {p : Program Ask Answer α} {g : α → β} {w : Program Ask Answer β}
    (h : Path (p.bind fun a => .done (g a)) l w) :
    ∃ p', Path p l p' ∧ w = p'.bind fun a => .done (g a) := by
  induction h with
  | refl => exact ⟨p, .refl, rfl⟩
  | snoc _ a ih =>
    obtain ⟨p', hp, hw⟩ := ih
    cases p' with
    | done => cases hw
    | ask q next =>
      obtain ⟨rfl, hnext⟩ := Program.ask.inj hw
      cases hnext
      exact ⟨next a, hp.snoc a, rfl⟩

/-- Whatever is answered, all questions of the program are of a kind. -/
def Only (P : Ask → Prop) : Program Ask Answer α → Prop
  | done _ => True
  | ask q next => P q ∧ ∀ a, (next a).Only P

variable {P : Ask → Prop} {p p' : Program Ask Answer α}

theorem Only.bind (h : p.Only P) {f : α → Program Ask Answer β} (hf : ∀ a, (f a).Only P) :
    (p.bind f).Only P := by
  induction p with
  | done a => exact hf a
  | ask q next ih => exact ⟨h.1, fun a => ih a (h.2 a)⟩

theorem Only.of_path (h : p.Only P) (hp : Path p l p') :
    p'.Only P ∧ ∀ x ∈ l, P x.1 := by
  induction hp with
  | refl => exact ⟨h, nofun⟩
  | snoc _ a ih =>
    obtain ⟨⟨hq, hnext⟩, hl⟩ := ih
    refine ⟨hnext a, fun x hx => ?_⟩
    rcases List.mem_append.1 hx with hx | hx
    · exact hl x hx
    · rw [List.mem_singleton.1 hx]
      exact hq

/-- Whatever is answered, the program asks so many questions at most. -/
def Within : Nat → Program Ask Answer α → Prop
  | _, done _ => True
  | 0, ask _ _ => False
  | n + 1, ask _ next => ∀ a, (next a).Within n

theorem Within.mono {m n : Nat} (h : p.Within m) (hmn : m ≤ n) : p.Within n := by
  induction p generalizing m n with
  | done a => cases n <;> trivial
  | ask q next ih =>
    rcases m with _ | m
    · exact h.elim
    · obtain ⟨n, rfl⟩ : ∃ k, n = k + 1 := ⟨n - 1, by omega⟩
      exact fun a => ih a (h a) (by omega)

theorem Within.bind {m n : Nat} {f : α → Program Ask Answer β} (h : p.Within m)
    (hf : ∀ a, (f a).Within n) : (p.bind f).Within (m + n) := by
  induction p generalizing m with
  | done a => exact (hf a).mono (Nat.le_add_left n m)
  | ask q next ih =>
    rcases m with _ | m
    · exact h.elim
    · rw [Nat.add_right_comm]
      exact fun a => ih a (h a)

theorem Within.length_le {n : Nat} (h : p.Within n) (hp : Path p l p') : l.length ≤ n := by
  suffices ∃ m, l.length + m = n ∧ p'.Within m by
    obtain ⟨m, hm, -⟩ := this
    omega
  induction hp with
  | refl => exact ⟨n, by simp, h⟩
  | snoc _ a ih =>
    obtain ⟨m, hm, hw⟩ := ih
    rcases m with _ | m
    · exact hw.elim
    · exact ⟨m, by rw [List.length_append, List.length_singleton]; omega, hw a⟩

end Program

section Course

variable {Ask : Type} {Answer : Ask → Type} {α σ : Type}

/-- The exchanges lead a machine from its first state to its second. -/
inductive Course (Advance : σ → (q : Ask) → Answer q → σ → Prop) (c : σ) :
    List (Exchange Ask Answer) → σ → Prop where
  | refl : Course Advance c [] c
  | snoc {l : List (Exchange Ask Answer)} {d e : σ} {q : Ask} {a : Answer q}
      (h : Course Advance c l d) (step : Advance d q a e) : Course Advance c (l ++ [⟨q, a⟩]) e

theorem Course.eq_of_nil {Advance : σ → (q : Ask) → Answer q → σ → Prop} {c d : σ}
    (h : Course Advance c [] d) : d = c := by
  generalize hl : [] = l at h
  cases h with
  | refl => rfl
  | snoc => simp at hl

theorem Course.of_snoc {Advance : σ → (q : Ask) → Answer q → σ → Prop} {c e : σ}
    {l : List (Exchange Ask Answer)} {q : Ask} {a : Answer q}
    (h : Course Advance c (l ++ [⟨q, a⟩]) e) : ∃ d, Course Advance c l d ∧ Advance d q a e := by
  generalize hl : l ++ [⟨q, a⟩] = l' at h
  cases h with
  | refl => simp at hl
  | snoc h step =>
    obtain ⟨rfl, hx⟩ := List.append_inj' hl rfl
    cases hx
    exact ⟨_, h, step⟩

/-- A machine whose states stand for programs follows each path of its first program. -/
theorem course_of_path {work : σ → Program Ask Answer α}
    {Advance : σ → (q : Ask) → Answer q → σ → Prop}
    (follow : ∀ {d q next}, work d = .ask q next → ∀ a, ∃ e, Advance d q a e ∧ next a = work e)
    {c : σ} {l : List (Exchange Ask Answer)} {p : Program Ask Answer α}
    (h : Program.Path (work c) l p) : ∃ d, Course Advance c l d ∧ p = work d := by
  induction h with
  | refl => exact ⟨c, .refl, rfl⟩
  | snoc _ a ih =>
    obtain ⟨d, hd, hp⟩ := ih
    obtain ⟨e, he, hn⟩ := follow hp.symm a
    exact ⟨e, hd.snoc he, hn⟩

end Course

/-! ### Jobs over a shared state -/

namespace Interleaving

variable {Ask : Type} {Answer : Ask → Type} {Job : Type} {Result : Job → Type} {σ : Type}

structure Thread (Ask : Type) (Answer : Ask → Type) (Job : Type) (Result : Job → Type) where
  job : Job
  work : Program Ask Answer (Result job)

structure Entry (Ask : Type) (Answer : Ask → Type) (Job : Type) (σ : Type) where
  /-- The number of the job, in the order of starting. -/
  thread : Nat
  job : Job
  ask : Ask
  answer : Answer ask
  /-- The shared state as the question found it. -/
  before : σ

def Entry.exchange (e : Entry Ask Answer Job σ) : Exchange Ask Answer := ⟨e.ask, e.answer⟩

def pastIn (log : List (Entry Ask Answer Job σ)) (n : Nat) : List (Exchange Ask Answer) :=
  (log.filter fun e => e.thread == n).map Entry.exchange

structure State (Ask : Type) (Answer : Ask → Type) (Job : Type) (Result : Job → Type)
    (σ : Type) where
  shared : σ
  /-- The jobs in the order of starting; a job that has ended stays. -/
  threads : List (Thread Ask Answer Job Result) := []
  /-- The records in the order of the answers. -/
  log : List (Entry Ask Answer Job σ) := []

def State.past (s : State Ask Answer Job Result σ) (n : Nat) : List (Exchange Ask Answer) :=
  pastIn s.log n

/-- What the jobs are and how their surroundings behave. -/
structure Rules (Ask : Type) (Answer : Ask → Type) (Job : Type) (Result : Job → Type)
    (σ : Type) where
  work : (j : Job) → Program Ask Answer (Result j)
  /-- A job may start, with this shared state afterwards. -/
  starts : State Ask Answer Job Result σ → Job → σ → Prop
  /-- A question may get this answer, with this shared state afterwards. -/
  answers : Job → (q : Ask) → σ → Answer q → σ → Prop
  /-- What the shared state may do on its own. -/
  moves : σ → σ → Prop

variable {R : Rules Ask Answer Job Result σ} {s s' t : State Ask Answer Job Result σ}

def State.answered (s : State Ask Answer Job Result σ) (n : Nat) (j : Job) (q : Ask) (a : Answer q)
    (next : Answer q → Program Ask Answer (Result j)) (x : σ) : State Ask Answer Job Result σ where
  shared := x
  threads := s.threads.set n ⟨j, next a⟩
  log := s.log ++ [⟨n, j, q, a, s.shared⟩]

theorem State.log_answered {s : State Ask Answer Job Result σ} {e : Entry Ask Answer Job σ}
    (h : s.shared = e.before) (next : Answer e.ask → Program Ask Answer (Result e.job)) (x : σ) :
    (s.answered e.thread e.job e.ask e.answer next x).log = s.log ++ [e] := by
  rw [State.answered, h]

def State.started (s : State Ask Answer Job Result σ) (R : Rules Ask Answer Job Result σ) (j : Job)
    (x : σ) : State Ask Answer Job Result σ :=
  { s with shared := x, threads := s.threads ++ [⟨j, R.work j⟩] }

inductive Step (R : Rules Ask Answer Job Result σ) (s : State Ask Answer Job Result σ) :
    State Ask Answer Job Result σ → Prop where
  | move {x : σ} (h : R.moves s.shared x) : Step R s { s with shared := x }
  | start {j : Job} {x : σ} (h : R.starts s j x) : Step R s (s.started R j x)
  | answer {n : Nat} {j : Job} {q : Ask} {next : Answer q → Program Ask Answer (Result j)}
      {a : Answer q} {x : σ} (asks : s.threads[n]? = some ⟨j, .ask q next⟩)
      (h : R.answers j q s.shared a x) : Step R s (s.answered n j q a next x)

inductive Run (R : Rules Ask Answer Job Result σ) (s : State Ask Answer Job Result σ) :
    State Ask Answer Job Result σ → Prop where
  | refl : Run R s s
  | snoc {t u : State Ask Answer Job Result σ} (h : Run R s t) (step : Step R t u) : Run R s u

theorem Run.trans (h : Run R s s') (h' : Run R s' t) : Run R s t := by
  induction h' with
  | refl => exact h
  | snoc _ step ih => exact ih.snoc step

/-- What holds at first and is kept by each step holds throughout. -/
theorem Run.keeps {P : State Ask Answer Job Result σ → Prop} (first : P s)
    (keep : ∀ {t u}, Run R s t → P t → Step R t u → P u) (h : Run R s t) : P t := by
  induction h with
  | refl => exact first
  | snoc h step ih => exact keep h ih step

@[simp] theorem pastIn_nil (n : Nat) : pastIn ([] : List (Entry Ask Answer Job σ)) n = [] := rfl

theorem pastIn_append_self (log : List (Entry Ask Answer Job σ)) (e : Entry Ask Answer Job σ) :
    pastIn (log ++ [e]) e.thread = pastIn log e.thread ++ [e.exchange] := by
  simp [pastIn, List.filter_append]

theorem pastIn_append_of_ne (log : List (Entry Ask Answer Job σ)) {e : Entry Ask Answer Job σ}
    {n : Nat} (h : e.thread ≠ n) : pastIn (log ++ [e]) n = pastIn log n := by
  have : (e.thread == n) = false := by simpa using h
  simp [pastIn, List.filter_append, this]

theorem pastIn_append_of_forall_ne (log : List (Entry Ask Answer Job σ))
    {post : List (Entry Ask Answer Job σ)} {n : Nat} (h : ∀ e ∈ post, e.thread ≠ n) :
    pastIn (log ++ post) n = pastIn log n := by
  have hnil : (post.filter fun e => e.thread == n) = [] :=
    List.filter_eq_nil_iff.2 fun e he => by simpa using h e he
  rw [pastIn, pastIn, List.filter_append, hnil, List.append_nil]

theorem mem_pastIn {log : List (Entry Ask Answer Job σ)} {n : Nat} {x : Exchange Ask Answer} :
    x ∈ pastIn log n ↔ ∃ e ∈ log, e.thread = n ∧ e.exchange = x := by
  simp only [pastIn, List.mem_map, List.mem_filter, beq_iff_eq, and_assoc]

/-- The records of the first jobs are the exchanges of one after the other. -/
theorem perm_flatten_pastIn (log : List (Entry Ask Answer Job σ)) (k : Nat) :
    (((List.range k).map (pastIn log)).flatten).Perm
      ((log.filter fun e => decide (e.thread < k)).map Entry.exchange) := by
  induction k with
  | zero => simp
  | succ k ih =>
    rw [List.range_succ, List.map_append, List.flatten_append]
    have hlt : (log.filter fun e => decide (e.thread < k + 1)).filter
        (fun e => decide (e.thread < k)) = log.filter fun e => decide (e.thread < k) := by
      rw [List.filter_filter]
      exact List.filter_congr fun e _ => by simp; omega
    have heq : (log.filter fun e => decide (e.thread < k + 1)).filter
        (fun e => !decide (e.thread < k)) = log.filter fun e => e.thread == k := by
      rw [List.filter_filter]
      exact List.filter_congr fun e _ => by rw [Bool.eq_iff_iff]; simp; omega
    have hperm := List.filter_append_perm (fun e => decide (e.thread < k))
      (log.filter fun e => decide (e.thread < k + 1))
    rw [hlt, heq] at hperm
    refine (ih.append_right _).trans ?_
    simpa [pastIn] using hperm.map Entry.exchange

theorem exists_last {log : List (Entry Ask Answer Job σ)} {n : Nat}
    {l : List (Exchange Ask Answer)} {x : Exchange Ask Answer} (h : pastIn log n = l ++ [x]) :
    ∃ pre e post, log = pre ++ e :: post ∧ e.thread = n ∧ e.exchange = x ∧ pastIn pre n = l ∧
      ∀ e' ∈ post, e'.thread ≠ n := by
  induction log using List.reverseRecOn with
  | nil => simp at h
  | append_singleton log e ih =>
    by_cases he : e.thread = n
    · subst he
      rw [pastIn_append_self] at h
      obtain ⟨hl, hx⟩ := List.append_inj' h rfl
      exact ⟨log, e, [], rfl, rfl, List.singleton_inj.1 hx, hl, by simp⟩
    · rw [pastIn_append_of_ne log he] at h
      obtain ⟨pre, e', post, rfl, hn, hx, hl, hpost⟩ := ih h
      refine ⟨pre, e', post ++ [e], by simp, hn, hx, hl, fun d hd => ?_⟩
      rcases List.mem_append.1 hd with hd | hd
      · exact hpost d hd
      · exact List.mem_singleton.1 hd ▸ he

@[simp] theorem past_started {n : Nat} {j : Job} {x : σ} :
    (s.started R j x).past n = s.past n := rfl

theorem past_answered_self {n : Nat} {j : Job} {q : Ask} {a : Answer q}
    {next : Answer q → Program Ask Answer (Result j)} {x : σ} :
    (s.answered n j q a next x).past n = s.past n ++ [⟨q, a⟩] :=
  pastIn_append_self s.log ⟨n, j, q, a, s.shared⟩

theorem past_answered_of_ne {n m : Nat} {j : Job} {q : Ask} {a : Answer q}
    {next : Answer q → Program Ask Answer (Result j)} {x : σ} (h : n ≠ m) :
    (s.answered n j q a next x).past m = s.past m :=
  pastIn_append_of_ne s.log h

/-! ### What is left of a job -/

theorem getElem?_answered {n m : Nat} {th : Thread Ask Answer Job Result} {j : Job} {q : Ask}
    {a : Answer q} {next : Answer q → Program Ask Answer (Result j)} {x : σ}
    (hn : n < s.threads.length) (h : (s.answered n j q a next x).threads[m]? = some th) :
    (n = m ∧ th = ⟨j, next a⟩) ∨ (n ≠ m ∧ s.threads[m]? = some th) := by
  have h : (s.threads.set n ⟨j, next a⟩)[m]? = some th := h
  rcases eq_or_ne n m with rfl | hne
  · rw [List.getElem?_set_self hn] at h
    exact .inl ⟨rfl, (Option.some.inj h).symm⟩
  · rw [List.getElem?_set_ne hne] at h
    exact .inr ⟨hne, h⟩

theorem jobs_answered {n : Nat} {j : Job} {q : Ask} {a : Answer q}
    {next : Answer q → Program Ask Answer (Result j)} {x : σ}
    (asks : s.threads[n]? = some ⟨j, .ask q next⟩) :
    (s.answered n j q a next x).threads.map Thread.job = s.threads.map Thread.job := by
  have hjob : (s.threads.map Thread.job)[n]? = some j := by simp [asks]
  obtain ⟨hlt, hj⟩ := List.getElem?_eq_some_iff.1 hjob
  have hset : (s.threads.map Thread.job).set n j = s.threads.map Thread.job := by
    conv_lhs => rw [← hj]
    exact List.set_getElem_self hlt
  rwa [State.answered, List.map_set]

theorem job_of_answered {n m : Nat} {j j' : Job} {q : Ask} {a : Answer q}
    {next : Answer q → Program Ask Answer (Result j)} {x : σ}
    {work : Program Ask Answer (Result j')} (asks : s.threads[n]? = some ⟨j, .ask q next⟩)
    (h : (s.answered n j q a next x).threads[m]? = some ⟨j', work⟩) :
    ∃ work', s.threads[m]? = some ⟨j', work'⟩ := by
  rcases getElem?_answered (List.getElem?_eq_some_iff.1 asks).1 h with ⟨rfl, hth⟩ | ⟨-, hm⟩
  · obtain ⟨rfl, -⟩ := Thread.mk.inj hth
    exact ⟨_, asks⟩
  · exact ⟨work, hm⟩

theorem getElem?_started {m : Nat} {th : Thread Ask Answer Job Result} {j : Job} {x : σ}
    (h : (s.started R j x).threads[m]? = some th) :
    (m < s.threads.length ∧ s.threads[m]? = some th) ∨
      (m = s.threads.length ∧ th = ⟨j, R.work j⟩) := by
  have h : (s.threads ++ [⟨j, R.work j⟩])[m]? = some th := h
  rcases Nat.lt_or_ge m s.threads.length with hm | hm
  · rw [List.getElem?_append_left hm] at h
    exact .inl ⟨hm, h⟩
  · rw [List.getElem?_append_right hm] at h
    have hlt : m - s.threads.length < 1 := (List.getElem?_eq_some_iff.1 h).1
    have hm' : m - s.threads.length = 0 := by omega
    rw [hm'] at h
    exact .inr ⟨by omega, (Option.some.inj h).symm⟩

theorem Step.log_grows (h : Step R s t) : s.log <+: t.log := by
  cases h with
  | move | start => exact List.prefix_refl _
  | answer => exact List.prefix_append _ _

theorem Run.log_grows (h : Run R s t) : s.log <+: t.log := by
  induction h with
  | refl => exact List.prefix_refl _
  | snoc _ step ih => exact ih.trans step.log_grows

theorem Step.job_stays (h : Step R s t) {n : Nat} {j : Job} {w : Program Ask Answer (Result j)}
    (hn : s.threads[n]? = some ⟨j, w⟩) : ∃ w', t.threads[n]? = some ⟨j, w'⟩ := by
  cases h with
  | move => exact ⟨w, hn⟩
  | start =>
    have hlt := (List.getElem?_eq_some_iff.1 hn).1
    exact ⟨w, by rw [State.started, List.getElem?_append_left hlt]; exact hn⟩
  | @answer m j' q next a x asks _ =>
    have hlt := (List.getElem?_eq_some_iff.1 asks).1
    rcases eq_or_ne m n with rfl | hne
    · rw [asks] at hn
      obtain ⟨rfl, -⟩ := Thread.mk.inj (Option.some.inj hn)
      exact ⟨next a, by rw [State.answered, List.getElem?_set_self hlt]⟩
    · exact ⟨w, by rw [State.answered, List.getElem?_set_ne hne]; exact hn⟩

theorem Run.job_stays (h : Run R s t) {n : Nat} {j : Job} {w : Program Ask Answer (Result j)}
    (hn : s.threads[n]? = some ⟨j, w⟩) : ∃ w', t.threads[n]? = some ⟨j, w'⟩ := by
  induction h with
  | refl => exact ⟨w, hn⟩
  | snoc _ step ih =>
    obtain ⟨w', hw⟩ := ih
    exact step.job_stays hw

variable {x₀ : σ}

theorem Run.thread_of_mem_log (h : Run R { shared := x₀ } s) {e : Entry Ask Answer Job σ}
    (he : e ∈ s.log) : ∃ work, s.threads[e.thread]? = some ⟨e.job, work⟩ := by
  induction h with
  | refl => simp at he
  | @snoc t u h step ih =>
    have hold : e ∈ t.log → ∃ work, u.threads[e.thread]? = some ⟨e.job, work⟩ := by
      intro het
      obtain ⟨work, hw⟩ := ih het
      exact step.job_stays hw
    cases step with
    | move | start => exact hold he
    | @answer n j q next a x asks hx =>
      rcases List.mem_append.1 he with het | hnew
      · exact hold het
      · obtain rfl := List.mem_singleton.1 hnew
        have hlt := (List.getElem?_eq_some_iff.1 asks).1
        exact ⟨next a, by rw [State.answered, List.getElem?_set_self hlt]⟩

theorem Run.thread_of_job (h : Run R { shared := x₀ } s) {e : Entry Ask Answer Job σ}
    (he : e ∈ s.log) {j : Job} (hj : e.job = j) :
    ∃ work, s.threads[e.thread]? = some ⟨j, work⟩ := by
  subst hj
  exact h.thread_of_mem_log he

theorem Run.job_eq (h : Run R { shared := x₀ } s) {e : Entry Ask Answer Job σ} (he : e ∈ s.log)
    {j : Job} {work : Program Ask Answer (Result j)}
    (hn : s.threads[e.thread]? = some ⟨j, work⟩) : e.job = j := by
  obtain ⟨work', hw⟩ := h.thread_of_mem_log he
  exact (Thread.mk.inj (Option.some.inj (hw.symm.trans hn))).1

theorem Run.past_eq_nil (h : Run R { shared := x₀ } s) {n : Nat} (hn : s.threads.length ≤ n) :
    s.past n = [] := by
  rw [List.eq_nil_iff_forall_not_mem]
  intro y hy
  obtain ⟨e, he, rfl, -⟩ := mem_pastIn.1 hy
  obtain ⟨work, hw⟩ := h.thread_of_mem_log he
  have := (List.getElem?_eq_some_iff.1 hw).1
  omega

/-- The records are the exchanges of one job after the other. -/
theorem Run.perm_pasts (h : Run R { shared := x₀ } s) :
    (((List.range s.threads.length).map s.past).flatten).Perm (s.log.map Entry.exchange) := by
  have hall : s.log.filter (fun e => decide (e.thread < s.threads.length)) = s.log := by
    refine List.filter_eq_self.2 fun e he => ?_
    obtain ⟨work, hw⟩ := h.thread_of_mem_log he
    exact decide_eq_true (List.getElem?_eq_some_iff.1 hw).1
  have hperm := perm_flatten_pastIn s.log s.threads.length
  rw [hall] at hperm
  exact hperm

/-- **What is left of a job** is what the answers to its own questions have left of its program. -/
theorem Run.path (h : Run R { shared := x₀ } s) {n : Nat} {th : Thread Ask Answer Job Result}
    (hn : s.threads[n]? = some th) : Program.Path (R.work th.job) (s.past n) th.work := by
  induction h generalizing n th with
  | refl => simp at hn
  | @snoc t u h step ih =>
    cases step with
    | move => exact ih hn
    | start =>
      rcases getElem?_started hn with ⟨-, hn⟩ | ⟨rfl, rfl⟩
      · exact ih hn
      · rw [past_started, h.past_eq_nil (Nat.le_refl _)]
        exact .refl
    | @answer m j q next a x asks hx =>
      rcases getElem?_answered (List.getElem?_eq_some_iff.1 asks).1 hn with ⟨rfl, rfl⟩ | ⟨hne, hn⟩
      · rw [past_answered_self]
        exact (ih asks).snoc a
      · rw [past_answered_of_ne hne]
        exact ih hn

/-- **Each record was made by a step**, from a state that was reached before. -/
theorem Run.split (h : Run R { shared := x₀ } s) {pre post : List (Entry Ask Answer Job σ)}
    {e : Entry Ask Answer Job σ} (hlog : s.log = pre ++ e :: post) :
    ∃ t next x, Run R { shared := x₀ } t ∧ t.log = pre ∧ t.shared = e.before ∧
      t.threads[e.thread]? = some ⟨e.job, .ask e.ask next⟩ ∧
      R.answers e.job e.ask e.before e.answer x ∧
      Run R (t.answered e.thread e.job e.ask e.answer next x) s := by
  induction h generalizing post with
  | refl => simp at hlog
  | @snoc t u h step ih =>
    have hold : ∀ {post'}, t.log = pre ++ e :: post' →
        ∃ v next x, Run R { shared := x₀ } v ∧ v.log = pre ∧ v.shared = e.before ∧
          v.threads[e.thread]? = some ⟨e.job, .ask e.ask next⟩ ∧
          R.answers e.job e.ask e.before e.answer x ∧
          Run R (v.answered e.thread e.job e.ask e.answer next x) u := by
      intro post' hl
      obtain ⟨v, next, x, hv, hlv, hsv, htv, hav, hr⟩ := ih hl
      exact ⟨v, next, x, hv, hlv, hsv, htv, hav, hr.snoc step⟩
    cases step with
    | move | start => exact hold hlog
    | @answer n j q next a x asks hx =>
      have hlog : t.log ++ [⟨n, j, q, a, t.shared⟩] = pre ++ e :: post := hlog
      rcases List.eq_nil_or_concat post with rfl | ⟨post', e', rfl⟩
      · obtain ⟨hl, he⟩ := List.append_inj' hlog rfl
        obtain rfl := (List.cons.inj he).1
        exact ⟨t, next, x, h, hl, rfl, asks, hx, .refl⟩
      · rw [List.concat_eq_append, ← List.cons_append, ← List.append_assoc] at hlog
        obtain ⟨hl, -⟩ := List.append_inj' hlog rfl
        exact hold hl

/-- Work that is left alone goes on to its end, if each of its questions may be answered by a step
on the shared state. -/
theorem exists_run_done (answer : (q : Ask) → σ → Answer q × σ)
    (hanswer : ∀ j q x, R.answers j q x (answer q x).1 (answer q x).2) {n : Nat} {j : Job}
    {work : Program Ask Answer (Result j)} (hn : s.threads[n]? = some ⟨j, work⟩) :
    ∃ t, Run R s t ∧ t.shared = (work.run answer s.shared).2 ∧
      t.threads = s.threads.set n ⟨j, .done (work.run answer s.shared).1⟩ := by
  induction work generalizing s with
  | done r =>
    obtain ⟨hlt, hget⟩ := List.getElem?_eq_some_iff.1 hn
    exact ⟨s, .refl, rfl, by rw [Program.run, ← hget, List.set_getElem_self]⟩
  | ask q next ih =>
    have hlt := (List.getElem?_eq_some_iff.1 hn).1
    have step : Step R s
        (s.answered n j q (answer q s.shared).1 next (answer q s.shared).2) :=
      .answer hn (hanswer j q s.shared)
    obtain ⟨t, hrun, hshared, hthreads⟩ := ih (answer q s.shared).1
      (s := s.answered n j q (answer q s.shared).1 next (answer q s.shared).2)
      (List.getElem?_set_self hlt)
    refine ⟨t, (Run.refl.snoc step).trans hrun, hshared, ?_⟩
    rw [hthreads, State.answered, List.set_set]
    rfl

end Interleaving

end MailQueue
