import MailQueue.Proofs.Marks
import MailQueue.Proofs.Pattern
import MailQueue.Rehearsal.World

/-!
# Listing what is due

A server lists keys in pages of its own making, and may name a key more than once. A store collects
the pages, leaves each mark once, and looks at the marks one after the other.

* `Lists` says of some replies that they make up a listing of the keys that match a pattern, and
  `exists_lists` that there always are such;
* `Rehearsal.answerListing` is a world whose server lists by given replies;
* `Rehearsal.World.Quiet`: nothing is planned to go wrong and nobody else uses the server;
* `World.Quiet.run_dueTasks`: the due tasks are those seen behind the marks among the replies.
-/

namespace MailQueue

namespace KeyValue

/-! ### Replies -/

/-- The replies to a listing, each with the cursor for the next. -/
abbrev Replies := List (Nat × List String)

/-- The replies make up a listing of the keys that match a pattern, with any paging and any
repetition: the last cursor is the first to be zero, there are no more pages than cursors, and each
key that is there and matches is among the replies. -/
structure Lists (s : Server) (now : Int) (pattern : String) (rs : Replies) : Prop where
  ends : ∃ init page, rs = init ++ [(0, page)] ∧ ∀ r ∈ init, r.1 ≠ 0
  few : rs.length ≤ Client.maxPages
  sound : ∀ r ∈ rs, ∀ key ∈ r.2, Matches pattern.toList key.toList
  complete : ∀ key, (s.get? now key).isSome → Matches pattern.toList key.toList →
    ∃ r ∈ rs, key ∈ r.2

theorem exists_lists (s : Server) (now : Int) (pattern : String) :
    ∃ rs, Lists s now pattern rs := by
  classical
  let page := s.entries.keys.filter fun key => decide (Matches pattern.toList key.toList)
  have hfew : 1 ≤ Client.maxPages := by decide
  refine ⟨[(0, page)], ⟨⟨[], page, rfl, nofun⟩, hfew, fun r hr key hkey => ?_,
    fun key hkey hm => ⟨_, List.mem_singleton_self _, ?_⟩⟩⟩
  · rw [List.mem_singleton.1 hr] at hkey
    exact of_decide_eq_true (List.mem_filter.1 hkey).2
  · obtain ⟨cell, hcell⟩ := Option.isSome_iff_exists.1 (Option.isSome_map ▸ hkey)
    exact List.mem_filter.2 ⟨List.mem_map_of_mem (f := Prod.fst)
      (Server.mem_live (Entries.mem_of_get? hcell)), decide_eq_true hm⟩

/-- The marks among the replies, in order and each once. -/
def Client.marksOf (rs : Replies) : List String :=
  ((rs.flatMap Prod.snd).mergeSort fun a b => a ≤ b).eraseReps

theorem Client.mem_marksOf {rs : Replies} {key : String} :
    key ∈ marksOf rs ↔ ∃ r ∈ rs, key ∈ r.2 := by
  rw [marksOf, mem_eraseReps, List.mem_mergeSort, List.mem_flatMap]

theorem Client.nodup_marksOf (rs : Replies) : (marksOf rs).Nodup :=
  nodup_eraseReps (fun _ _ => String.le_antisymm)
    (Recipient.pairwise_sortAddresses (rs.flatMap Prod.snd))

end KeyValue

namespace Rehearsal

open KeyValue

/-- Runs an errand in a world whose server lists keys by the replies at hand, one by one. -/
def answerListing (e : Errand) (x : Replies × World) : e.Answer × (Replies × World) :=
  match e with
  | .command (.scan _ _ _) => (x.1.head?, (x.1.tail, x.2))
  | e => ((x.2.answer e).1, (x.1, (x.2.answer e).2))

/-! ### What a world without faults answers -/

namespace Access

theorem map_copy (t : Option Task) : t.map (copy none) = t := by
  cases t <;> rfl

theorem map_staleDue (due : List Store.Due) : due.map (staleDue none) = due := by
  induction due with
  | nil => rfl
  | cons d due ih =>
    rw [List.map_cons, ih]
    cases d <;> rfl

theorem under_none (access : Access) (call : Store.Call) :
    access.under {} call = access.reach call := by
  have hbind : ∀ {α : Type} (p : Work α) (f : α → Work α), (∀ a, f a = .done a) → p.bind f = p :=
    fun p f hf => (congrArg p.bind (funext hf)).trans p.bind_done
  cases call with
  | due now =>
    refine hbind _ _ fun r => ?_
    rcases r with e | due
    · rfl
    · simp only [map_staleDue, List.replicate, List.append_nil]
      rfl
  | look key now =>
    refine hbind _ _ fun r => ?_
    rcases r with e | t
    · rfl
    · simp only [map_copy]
      rfl
  | _ => rfl

variable {σ : Type} {answer : (e : Errand) → σ → e.Answer × σ} {x : σ}

/-- Without a fault a call is what the client makes of it. -/
theorem run_call (c : Client) (call : Store.Call) (hfault : answer (.fault call) x = ({}, x)) :
    ((keyValue c).call call).run answer x =
      ((c.answer call).expand fun q => ask (.command q)).run answer x := by
  have hcall : ((keyValue c).call call).run answer x =
      ((keyValue c).under {} call).run answer x := by
    have hstep : ∀ {α : Type} (f : Fault → Work α),
        ((ask (.fault call) : Work Fault) >>= f).run answer x = (f {}).run answer x := by
      intro α f
      show Program.run answer (f (answer (.fault call) x).1) (answer (.fault call) x).2 = _
      rw [hfault]
    rw [Access.call, hstep]
    cases call <;> rfl
  rw [hcall, under_none]
  rfl

end Access

theorem run_expand_command {σ α : Type} {answer : (e : Errand) → σ → e.Answer × σ}
    (p : KeyValue.Work α) (x : σ) :
    (p.expand fun q => ask (.command q)).run answer x =
      p.run (fun q => answer (.command q)) x := by
  induction p generalizing x with
  | done a => rfl
  | ask q next ih => exact ih _ _

end Rehearsal

namespace KeyValue.Client

/-! ### Listing marks -/

section

open Rehearsal

variable {c : Client} {w : World}

theorem run_scan (r : Nat × List String) (rs : Replies) (cursor count : Nat) (pattern : String)
    {α : Type} (f : Option (Nat × List String) → KeyValue.Work α) :
    ((Program.question (Command.scan cursor pattern count) :
        KeyValue.Work (Option (Nat × List String))) >>= f).run
        (fun q => answerListing (.command q)) (r :: rs, w) =
      (f (some r)).run (fun q => answerListing (.command q)) (rs, w) := rfl

/-- All pages are gone through up to the one that ends the listing. -/
theorem run_scanPages (init : Replies) (page : List String) (hinit : ∀ r ∈ init, r.1 ≠ 0)
    {pages : Nat} (hpages : init.length < pages) (cursor : Nat) :
    (c.scanPages pages cursor).run (fun q => answerListing (.command q))
        (init ++ [(0, page)], w) =
      (some ((init ++ [(0, page)]).flatMap Prod.snd), ([], w)) := by
  induction init generalizing pages cursor with
  | nil =>
    obtain ⟨pages, rfl⟩ : ∃ n, pages = n + 1 := ⟨pages - 1, by simp at hpages; omega⟩
    rw [scanPages, List.nil_append, run_scan]
    simp only [if_true, List.flatMap_cons, List.flatMap_nil, List.append_nil]
    rfl
  | cons r init ih =>
    obtain ⟨pages, rfl⟩ : ∃ n, pages = n + 1 := ⟨pages - 1, by simp at hpages; omega⟩
    obtain ⟨hr, hinit⟩ := List.forall_mem_cons.1 hinit
    rw [scanPages, List.cons_append, run_scan]
    simp only [if_neg hr]
    show ((c.scanPages pages r.1).bind _).run _ _ = _
    rw [Program.run_bind, ih hinit (by simpa using hpages)]
    rfl

/-- **A listing** gives the marks among its replies. -/
theorem run_due {b : Binding} (hb : c.binding = some b) {s : Server} {now : Int} {rs : Replies}
    (h : Lists s now c.keys.markPattern rs) (time : Instant) :
    (c.answer (.due time)).run (fun q => answerListing (.command q)) (rs, w) =
      (.ok ((marksOf rs).map .mark), ([], w)) := by
  obtain ⟨init, page, rfl, hinit⟩ := h.ends
  have hfew := h.few
  rw [List.length_append, List.length_singleton] at hfew
  have hscan : c.scan.run (fun q => answerListing (.command q)) (init ++ [(0, page)], w) =
      (some (marksOf (init ++ [(0, page)])), ([], w)) := by
    show ((c.scanPages maxPages 0).bind _).run _ _ = _
    rw [Program.run_bind, run_scanPages init page hinit (by omega)]
    rfl
  simp only [Client.answer, whenBound, hb]
  show (c.scan.bind _).run _ _ = _
  rw [Program.run_bind, hscan]
  rfl

end

end KeyValue.Client

/-! ### The due tasks -/

namespace Rehearsal

open KeyValue

/-- A world over a store in use, without planned faults and with nobody else at its server. -/
structure World.Quiet (w : World) (c : Client) (b : Binding) (s : Server) : Prop where
  backing : w.backing = .keyValue c s
  plan : w.plan = {}
  bound : c.binding = some b
  calm : s.Calm

namespace World.Quiet

variable {w : World} {c : Client} {b : Binding} {s : Server}

theorem access_eq (h : w.Quiet c b s) : w.access = .keyValue c := by
  simp only [World.access, h.backing]

theorem answer_fault (h : w.Quiet c b s) (call : Store.Call) :
    World.answer (.fault call) w = ({}, w) := by
  have hplan := h.plan
  rcases w with ⟨clock, ids, counted, pool, cursor, standIns, plan, backing, hooks, heard⟩
  subst hplan
  cases call <;> rfl

theorem answer_command (h : w.Quiet c b s) (q : Command) :
    World.answer (.command q) w =
      ((s.answer w.clock.ms q).1, { w with backing := .keyValue c (s.answer w.clock.ms q).2 }) := by
  simp only [World.answer, h.backing]
  rfl

theorem answer_get (h : w.Quiet c b s) (key : String) :
    World.answer (.command (.get key)) w = (some (s.get? w.clock.ms key), w) := by
  rw [h.answer_command, h.calm.answer_get, ← h.backing]

variable {rs : Replies}

theorem listing_fault (h : w.Quiet c b s) (call : Store.Call) :
    answerListing (.fault call) (rs, w) = ({}, (rs, w)) := by
  show ((World.answer (.fault call) w).1, (rs, (World.answer (.fault call) w).2)) = _
  rw [h.answer_fault]

theorem listing_get (h : w.Quiet c b s) (key : String) :
    answerListing (.command (.get key)) (rs, w) = (some (s.get? w.clock.ms key), (rs, w)) := by
  show ((World.answer (.command (.get key)) w).1,
    (rs, (World.answer (.command (.get key)) w).2)) = _
  rw [h.answer_get]

end World.Quiet

variable {w : World} {c : Client} {b : Binding} {s : Server} {rs : Replies}

/-- The entry for a look at a mark, if there is one. -/
def entry? : Except StoreError (Option Task) → Option (Except StoreError Task)
  | .ok found => found.map .ok
  | .error e => some (.error e)

theorem World.Quiet.run_call_due (h : w.Quiet c b s) {clock : Int}
    (hl : Lists s clock c.keys.markPattern rs) (now : Instant) :
    ((Access.keyValue c).call (.due now)).run answerListing (rs, w) =
      (.ok ((Client.marksOf rs).map .mark), ([], w)) := by
  rw [Access.run_call c _ (h.listing_fault _), run_expand_command, Client.run_due h.bound hl]

theorem Access.run_look {σ : Type} {answer : (e : Errand) → σ → e.Answer × σ} {x : σ} {clock : Int}
    (hb : c.binding = some b) (hfault : ∀ call, answer (.fault call) x = ({}, x))
    (hget : ∀ key, answer (.command (.get key)) x = (some (s.get? clock key), x)) (key : String)
    (now : Instant) :
    ((keyValue c).call (.look key now)).run answer x = (c.seen b s clock key now, x) := by
  rw [run_call c _ (hfault _), run_expand_command]
  simp only [Client.answer, Client.whenBound, hb]
  exact Client.run_look hget key now

/-- Marks are looked at one after the other. -/
theorem World.Quiet.run_resolve (h : w.Quiet c b s) (keys : List String) (now : Instant) :
    ((Access.keyValue c).resolve now (keys.map .mark)).run answerListing (rs, w) =
      (keys.filterMap fun key => entry? (c.seen b s w.clock.ms key now), (rs, w)) := by
  induction keys with
  | nil => rfl
  | cons key keys ih =>
    rw [List.map_cons, Access.resolve]
    show (((Access.keyValue c).call (.look key now)).bind _).run _ _ = _
    rw [Program.run_bind, Access.run_look h.bound h.listing_fault h.listing_get,
      List.filterMap_cons]
    rcases c.seen b s w.clock.ms key now with e | _ | t
    · show (((Access.keyValue c).resolve now (keys.map .mark)).bind _).run _ _ = _
      rw [Program.run_bind, ih]
      rfl
    · exact ih
    · show (((Access.keyValue c).resolve now (keys.map .mark)).bind _).run _ _ = _
      rw [Program.run_bind, ih]
      rfl

/-- **The due tasks** are those seen behind the marks among the replies. -/
theorem World.Quiet.run_dueTasks (h : w.Quiet c b s) {clock : Int}
    (hl : Lists s clock c.keys.markPattern rs) (now : Instant) :
    (w.access.dueTasks now).run answerListing (rs, w) =
      (((Client.marksOf rs).filterMap fun key =>
        entry? (c.seen b s w.clock.ms key now)).mapM id, ([], w)) := by
  rw [h.access_eq, Access.dueTasks]
  show (((Access.keyValue c).call (.due now)).bind _).run _ _ = _
  rw [Program.run_bind, h.run_call_due hl]
  show (((Access.keyValue c).resolve now _).bind _).run _ _ = _
  rw [Program.run_bind, h.run_resolve]
  rfl

end Rehearsal

end MailQueue
