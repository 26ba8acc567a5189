import MailQueue.Proofs.Mirror.Server
import MailQueue.Proofs.Json.Number

/-!
# Marks

What a store reads off the marks of its scope.

* `Keys.idOfMark?_mark` and `Client.markValue?_markText`: the key of a mark gives back the task, and
  its text the time of sending;
* `Client.seen` is what a look at a mark shows while nobody writes, with `run_look`;
* `nodup_eraseReps` and `mem_eraseReps`: of a sorted list each item is left once.
-/

namespace MailQueue

/-! ### Repetitions -/

section Repetitions

variable {α : Type} [BEq α]

theorem eraseReps_loop (a : α) (l acc : List α) :
    List.eraseRepsBy.loop (· == ·) a l acc =
      acc.reverse ++ List.eraseRepsBy.loop (· == ·) a l [] := by
  induction l generalizing a acc with
  | nil => simp [List.eraseRepsBy.loop]
  | cons b l ih =>
    rw [List.eraseRepsBy.loop, List.eraseRepsBy.loop]
    cases a == b with
    | true => exact ih a acc
    | false =>
      simp only
      rw [ih b (a :: acc), ih b [a]]
      simp

variable [LawfulBEq α]

theorem eraseReps_cons_self (a : α) (l : List α) :
    (a :: a :: l).eraseReps = (a :: l).eraseReps := by
  show List.eraseRepsBy.loop _ a (a :: l) [] = List.eraseRepsBy.loop _ a l []
  rw [List.eraseRepsBy.loop, beq_self_eq_true]

theorem eraseReps_cons_of_ne {a b : α} (h : a ≠ b) (l : List α) :
    (a :: b :: l).eraseReps = a :: (b :: l).eraseReps := by
  show List.eraseRepsBy.loop _ a (b :: l) [] = a :: List.eraseRepsBy.loop _ b l []
  rw [List.eraseRepsBy.loop, beq_eq_false_iff_ne.2 h]
  simp only
  rw [eraseReps_loop]
  rfl

theorem mem_eraseReps {a : α} {l : List α} : a ∈ l.eraseReps ↔ a ∈ l := by
  match l with
  | [] => rfl
  | [b] => rfl
  | b :: c :: l =>
    by_cases h : b = c
    · subst h
      rw [eraseReps_cons_self, mem_eraseReps]
      simp
    · rw [eraseReps_cons_of_ne h, List.mem_cons, mem_eraseReps, ← List.mem_cons]

/-- In a sorted list what is equal stands together, so that nothing is left twice. -/
theorem nodup_eraseReps {r : α → α → Prop} (anti : ∀ a b, r a b → r b a → a = b) {l : List α}
    (h : l.Pairwise r) : l.eraseReps.Nodup := by
  match l with
  | [] => exact List.nodup_nil
  | [b] => exact List.pairwise_singleton _ b
  | b :: c :: l =>
    obtain ⟨hb, hl⟩ := List.pairwise_cons.1 h
    by_cases hbc : b = c
    · subst hbc
      rw [eraseReps_cons_self]
      exact nodup_eraseReps anti hl
    · rw [eraseReps_cons_of_ne hbc]
      refine List.nodup_cons.2 ⟨fun hmem => ?_, nodup_eraseReps anti hl⟩
      rcases List.mem_cons.1 (mem_eraseReps.1 hmem) with he | hmem
      · exact hbc he
      · exact hbc (anti b c (hb c List.mem_cons_self) ((List.pairwise_cons.1 hl).1 b hmem))

end Repetitions

namespace KeyValue

/-! ### What a mark says -/

namespace Keys

theorem idOfMark?_mark (k : Keys) (id : TaskId) : k.idOfMark? (k.mark id) = some id := by
  have hbase : dropStart? k.base.toList (k.mark id).toList =
      some (":sendat:".toList ++ id.text.toList) := by
    rw [toList_mark, dropStart?_append]
  rw [idOfMark?, hbase]
  simp only [Option.bind_eq_bind, Option.bind_some, dropStart?_append, String.ofList_toList,
    TaskId.parse?_text]

end Keys

namespace Client

theorem markValue?_intDigits {i : Int} (h : Number.fitsWord64 i = true) :
    markValue? (String.ofList (Number.intDigits i)) = some i := by
  have hdigits : ∀ n, ¬((Number.natDigits n).isEmpty = true ∨
      (!(Number.natDigits n).all Char.isDigit) = true) := by
    intro n
    have hall : (Number.natDigits n).all Char.isDigit = true :=
      List.all_eq_true.2 fun c hc => Number.isDigit_of_mem_natDigits hc
    simp [Number.natDigits_ne_nil, hall]
  rw [markValue?]
  rcases i with n | n
  · rcases hd : Number.natDigits n with _ | ⟨c, cs⟩
    · exact absurd hd (Number.natDigits_ne_nil n)
    · have hc : c.isDigit = true := Number.isDigit_of_mem_natDigits (n := n) (by simp [hd])
      have hdn := hdigits n
      have hv := Number.digitsValue_natDigits n
      rw [hd] at hdn hv
      simp only [Number.intDigits, hd, String.toList_ofList]
      split
      · exact absurd hc (by simp_all)
      · exact absurd hc (by simp_all)
      · simp only [if_neg hdn, hv]
        simpa using h
  · have hv := Number.digitsValue_natDigits (n + 1)
    simp only [Number.intDigits, String.toList_ofList, if_neg (hdigits (n + 1)), hv, if_true]
    rw [show (-((n + 1 : Nat) : Int)) = Int.negSucc n from rfl, h]
    rfl

theorem fitsWord64_ms (t : Instant) : Number.fitsWord64 t.ms = true := by
  have hms := Int.mul_fdiv_add_fmod t.ns 1000000
  have hms' := Int.fmod_nonneg_of_pos t.ns (b := 1000000) (by omega)
  have hms'' := Int.fmod_lt_of_pos t.ns (b := 1000000) (by omega)
  have hlo := t.lower
  have hhi := t.upper
  rw [Number.fitsWord64, Bool.and_eq_true]
  exact ⟨decide_eq_true (by rw [Instant.ms]; omega), decide_eq_true (by rw [Instant.ms]; omega)⟩

theorem markValue?_markText {t : Task} (h : t.isOpen = true) :
    markValue? (markText t) = some t.sendAt.ms := by
  rw [markText, if_pos h, markValue?_intDigits (fitsWord64_ms _)]

/-! ### Looking at a mark -/

/-- What a look at a mark shows while nobody writes. -/
def seen (c : Client) (b : Binding) (s : Server) (clock : Int) (key : String) (now : Instant) :
    Except StoreError (Option Task) :=
  match c.keys.idOfMark? key with
  | none => .ok none
  | some id =>
    match (s.get? clock key).bind markValue? with
    | none => .ok none
    | some sendAt =>
      if now.ms < sendAt then .ok none
      else
        match s.get? clock (c.keys.letter id) with
        | none => .ok none
        | some raw =>
          match Task.ofLetter raw with
          | none => .error .unreadable
          | some t => .ok (if t.isDue now b.maxAttempts then some t else none)

section

variable {σ : Type} {answer : (q : Command) → σ → q.Answer × σ} {c : Client} {b : Binding}
  {s : Server} {clock : Int} {x : σ}

theorem run_get (hget : ∀ key, answer (.get key) x = (some (s.get? clock key), x)) (key : String)
    {α : Type} (f : Option (Option String) → Work α) :
    ((Program.question (Command.get key) : Work (Option (Option String))) >>= f).run answer x =
      (f (some (s.get? clock key))).run answer x := by
  show Program.run answer (f (answer (.get key) x).1) (answer (.get key) x).2 = _
  rw [hget]

theorem run_loadLetter (hget : ∀ key, answer (.get key) x = (some (s.get? clock key), x))
    (id : TaskId) :
    (c.loadLetter id).run answer x =
      (match s.get? clock (c.keys.letter id) with
        | none => .ok none
        | some raw =>
          match Task.ofLetter raw with
          | none => .error .unreadable
          | some t => .ok (some (raw, t)), x) := by
  rw [loadLetter, run_get hget]
  rcases s.get? clock (c.keys.letter id) with _ | raw
  · rfl
  · simp only
    rcases Task.ofLetter raw with _ | t <;> rfl

/-- **A look at a mark**, while nobody writes. -/
theorem run_look (hget : ∀ key, answer (.get key) x = (some (s.get? clock key), x)) (key : String)
    (now : Instant) : (c.look b key now).run answer x = (c.seen b s clock key now, x) := by
  rw [look, seen]
  rcases c.keys.idOfMark? key with _ | id
  · rfl
  simp only
  rw [run_get hget]
  simp only
  rcases (s.get? clock key).bind markValue? with _ | sendAt
  · rfl
  simp only
  by_cases hlt : now.ms < sendAt
  · simp only [if_pos hlt]
    rfl
  simp only [if_neg hlt]
  show ((c.loadLetter id).bind _).run answer x = _
  rw [Program.run_bind, run_loadLetter hget]
  rcases s.get? clock (c.keys.letter id) with _ | raw
  · rfl
  · simp only
    rcases Task.ofLetter raw with _ | t
    · rfl
    · simp only [Option.map_some]
      rw [Option.filter_some]
      rfl

end

end Client

end KeyValue

end MailQueue
