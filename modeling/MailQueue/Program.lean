/-!
# Programs over questions

Work that depends on its surroundings is a program: it ends with a result or asks a question and
goes on with the answer. Whoever runs it decides how questions are answered, so one definition
serves a run against a state, a run against other programs, and the proofs about both.

* `Program.bind` runs one program after another, with the laws of a monad;
* `Program.run` answers each question by a step on a state;
* `Program.expand` replaces each question by a program over finer ones.
-/

namespace MailQueue

/-- A program that asks questions of the type `Ask`. -/
inductive Program (Ask : Type) (Answer : Ask → Type) (α : Type) : Type where
  | done (result : α)
  | ask (question : Ask) (next : Answer question → Program Ask Answer α)

namespace Program

variable {Ask Fine : Type} {Answer : Ask → Type} {FineAnswer : Fine → Type} {α β γ σ : Type}

def bind (p : Program Ask Answer α) (f : α → Program Ask Answer β) : Program Ask Answer β :=
  match p with
  | done a => f a
  | ask q next => ask q fun answer => (next answer).bind f

instance : Monad (Program Ask Answer) where
  pure := done
  bind := bind

def question (q : Ask) : Program Ask Answer (Answer q) := ask q done

/-- Answers the questions one after the other, each by a step on the state. -/
def run (answer : (q : Ask) → σ → Answer q × σ) : Program Ask Answer α → σ → α × σ
  | done a, s => (a, s)
  | ask q next, s =>
    let (a, s) := answer q s
    run answer (next a) s

/-- Replaces each question by a program over finer questions. -/
def expand (refine : (q : Ask) → Program Fine FineAnswer (Answer q)) :
    Program Ask Answer α → Program Fine FineAnswer α
  | done a => done a
  | ask q next => (refine q).bind fun a => expand refine (next a)

@[simp] theorem done_bind (a : α) (f : α → Program Ask Answer β) : (done a).bind f = f a := rfl

theorem bind_done (p : Program Ask Answer α) : p.bind done = p := by
  induction p with
  | done a => rfl
  | ask q next ih => simp only [bind]; congr 1; funext a; exact ih a

theorem bind_assoc (p : Program Ask Answer α) (f : α → Program Ask Answer β)
    (g : β → Program Ask Answer γ) : (p.bind f).bind g = p.bind fun a => (f a).bind g := by
  induction p with
  | done a => rfl
  | ask q next ih => simp only [bind]; congr 1; funext a; exact ih a

instance : LawfulMonad (Program Ask Answer) :=
  LawfulMonad.mk' _ (fun p => bind_done p) (fun _ _ => rfl) (fun p f g => bind_assoc p f g)

theorem run_bind (answer : (q : Ask) → σ → Answer q × σ) (p : Program Ask Answer α)
    (f : α → Program Ask Answer β) (s : σ) :
    (p.bind f).run answer s = (f (p.run answer s).1).run answer (p.run answer s).2 := by
  induction p generalizing s with
  | done a => rfl
  | ask q next ih => simp only [bind, run]; exact ih _ _

end Program

end MailQueue
