import MailQueue.Proofs.Listing
import MailQueue.Proofs.Scopes.Basic

/-!
# What is due in a scope

A store looks for due tasks by the marks of its scope: it lists what matches a pattern, reads the
time of sending off each mark and the task off its letter.

* `Stored` is a task that can be read off the letter that stands for it;
* `Kept.seen_eq`: a look at a key shows a stored task just when the key is its mark and it is due;
* `due_once`: whatever was done on the server, the due tasks of a scope are found, each once, if
  their marks match the pattern. They do in a scope without brackets and backslashes.
-/

namespace MailQueue.Scopes

open Interleaving KeyValue KeyValue.Client Rehearsal
open Mirror (mark?)

def Stored (k : Keys) (s : Server) (t : Task) : Prop :=
  ∃ raw, s.text? (k.letter t.id) = some raw ∧ Task.ofLetter raw = some t

/-- Each letter of the scope can be read. -/
def Legible (k : Keys) (s : Server) : Prop :=
  ∀ id raw, s.text? (k.letter id) = some raw → ∃ t, Task.ofLetter raw = some t

variable {k : Keys} {v : Server} {t u : Task}

theorem Stored.unique (ht : Stored k v t) (hu : Stored k v u) (h : u.id = t.id) : u = t := by
  obtain ⟨raw, hraw, ht⟩ := ht
  obtain ⟨raw', hraw', hu⟩ := hu
  rw [h, hraw] at hraw'
  obtain rfl := Option.some.inj hraw'
  exact Option.some.inj (hu.symm.trans ht)

namespace Kept

theorem mark_of_stored (h : Kept k v) (ht : Stored k v t) : v.text? (k.mark t.id) = mark? t := by
  obtain ⟨raw, hraw, ht⟩ := ht
  obtain ⟨o, ho⟩ := h.stands t.id
  obtain ⟨t₀, rfl, rfl⟩ := Option.map_eq_some_iff.1 (ho.letter.symm.trans hraw)
  rw [Task.ofLetter_letter_eq (ho.fits t₀ rfl).2] at ht
  obtain ⟨ms, -, rfl⟩ := Option.map_eq_some_iff.1 ht
  refine ho.mark.trans ?_
  show mark? t₀ = mark? { t₀ with sendAt := t₀.sendAt.floorMs, fragments := ms }
  simp only [mark?, Instant.ms_floorMs]
  rfl

theorem stored_of_read (h : Kept k v) {id : TaskId} {raw : String}
    (hraw : v.text? (k.letter id) = some raw) (ht : Task.ofLetter raw = some t) :
    Stored k v t ∧ t.id = id := by
  have hid := (h.fits_of_read hraw ht).1
  exact ⟨⟨raw, by rw [hid]; exact hraw, ht⟩, hid⟩

theorem get?_mark (h : Kept k v) (clock : Int) (id : TaskId) :
    v.get? clock (k.mark id) = v.text? (k.mark id) :=
  Server.get?_of_lasting (h.lasting id).2 clock

/-! ### Looks -/

variable {c : Client} {b : Binding} (h : Kept c.keys v) (clock : Int) (now : Instant)

include h

theorem seen_mark (ht : Stored c.keys v t) :
    c.seen b v clock (c.keys.mark t.id) now =
      .ok (if t.isDue now b.maxAttempts then some t else none) := by
  have hmark := h.mark_of_stored ht
  obtain ⟨raw, hraw, hread⟩ := ht
  rw [← Server.get?_of_lasting (h.lasting t.id).1 clock] at hraw
  simp only [seen, Keys.idOfMark?_mark, h.get?_mark, hmark]
  cases hopen : t.isOpen with
  | false =>
    have hdue : t.isDue now b.maxAttempts = false := by simp [Task.isDue, hopen]
    simp [mark?, hopen, hdue]
  | true =>
    simp only [mark?, hopen, if_true, Option.bind_some, markValue?_intDigits (fitsWord64_ms _)]
    by_cases hms : now.ms < t.sendAt.ms
    · -- what is not due by the mark is not due by the letter
      have hdue : t.isDue now b.maxAttempts = false := by
        rw [← Bool.not_eq_true, Task.isDue_iff]
        rintro ⟨-, hle, -⟩
        exact absurd (Instant.ms_le_ms hle) (Int.not_le.2 hms)
      simp [hms, hdue]
    · simp only [if_neg hms, hraw, hread]

theorem seen_other {key : String} (hkey : ∀ t, Stored c.keys v t → key ≠ c.keys.mark t.id)
    (hread : Legible c.keys v) : c.seen b v clock key now = .ok none := by
  rcases hid : c.keys.idOfMark? key with _ | id
  · simp only [seen, hid]
  rcases hget : v.get? clock key with _ | value
  · simp only [seen, hid, hget, Option.bind_none]
  -- what is there is the mark of a task, which stands beside its letter
  exfalso
  obtain ⟨cell, hcell, -⟩ := Option.map_eq_some_iff.1 hget
  obtain rfl : key = c.keys.mark id :=
    h.only _ (Server.mem_live (Entries.mem_of_get? hcell)) id hid
  obtain ⟨o, ho⟩ := h.stands id
  rw [h.get?_mark, ho.mark] at hget
  obtain ⟨t₀, rfl, -⟩ := Option.bind_eq_some_iff.1 hget
  obtain ⟨t, ht⟩ := hread id t₀.letter ho.letter
  obtain ⟨hstored, rfl⟩ := h.stored_of_read ho.letter ht
  exact hkey t hstored rfl

/-- **What a look shows**: a stored task just when the key is its mark and it is due. -/
theorem seen_eq (hread : Legible c.keys v) (key : String) :
    ∃ o, c.seen b v clock key now = .ok o ∧ ∀ t, o = some t ↔
      Stored c.keys v t ∧ t.isDue now b.maxAttempts = true ∧ key = c.keys.mark t.id := by
  by_cases hkey : ∃ t, Stored c.keys v t ∧ key = c.keys.mark t.id
  · obtain ⟨t, ht, rfl⟩ := hkey
    refine ⟨_, h.seen_mark clock now ht, fun u => ?_⟩
    constructor
    · intro hu
      split at hu
      · next hdue =>
        obtain rfl := Option.some.inj hu
        exact ⟨ht, hdue, rfl⟩
      · cases hu
    · rintro ⟨hu, hdue, hmark⟩
      obtain rfl := ht.unique hu (Keys.mark_injective hmark).symm
      exact if_pos hdue
  · have hno : ∀ t, Stored c.keys v t → key ≠ c.keys.mark t.id := fun t ht he =>
      hkey ⟨t, ht, he⟩
    refine ⟨none, h.seen_other clock now hno hread, fun t => ⟨(nomatch ·), ?_⟩⟩
    rintro ⟨ht, -, hmark⟩
    exact absurd hmark (hno t ht)

end Kept

/-! ### All looks -/

theorem mapM_filterMap_entry? {found : String → Except StoreError (Option Task)}
    {shown : String → Option Task} (h : ∀ key, found key = .ok (shown key)) (keys : List String) :
    (keys.filterMap fun key => entry? (found key)).mapM id = .ok (keys.filterMap shown) := by
  induction keys with
  | nil => rfl
  | cons key keys ih =>
    rw [List.filterMap_cons, List.filterMap_cons, h key]
    rcases shown key with _ | t
    · exact ih
    · show List.mapM id (.ok t :: keys.filterMap fun key => entry? (found key)) = _
      rw [List.mapM_cons, ih]
      rfl

theorem nodup_filterMap {shown : String → Option Task} {key : Task → String}
    (h : ∀ x t, shown x = some t → x = key t) (hkey : ∀ t u, t.id = u.id → key t = key u)
    {keys : List String} (hn : keys.Nodup) : ((keys.filterMap shown).map Task.id).Nodup := by
  rw [List.Nodup, List.pairwise_map, List.pairwise_filterMap]
  refine hn.imp fun {x y} hne t ht u hu he => hne ?_
  rw [h x t ht, h y u hu, hkey t u he]

variable {f : Mirror} {s : State} {x₀ : Shared} {w : World} {rs : Replies} {clock : Int}

/-- **Each due task of a scope is found once**, and nothing else is, as far as the marks match the
pattern of the scope. -/
theorem due_once (hc : x₀.server.Calm) (he : x₀.server.entries = [])
    (hr : Run rules { shared := x₀ } s) (hclear : Clear f.keys s)
    (hw : w.Quiet f.client f.binding s.shared.server) (hread : Legible f.keys s.shared.server)
    (hl : Lists s.shared.server clock f.keys.markPattern rs) (now : Instant) :
    ∃ ts, (w.access.dueTasks now).run answerListing (rs, w) = (.ok ts, ([], w)) ∧
      (ts.map Task.id).Nodup ∧
      (∀ t, t ∈ ts ↔ Stored f.keys s.shared.server t ∧ t.isDue now f.binding.maxAttempts = true ∧
        Matches f.keys.markPattern.toList (f.keys.mark t.id).toList) ∧
      ('[' ∉ f.keys.scope.toList ∧ '\\' ∉ f.keys.scope.toList → ∀ t, t ∈ ts ↔
        Stored f.keys s.shared.server t ∧ t.isDue now f.binding.maxAttempts = true) := by
  have h : Kept f.client.keys s.shared.server := kept_of_run hc he hr hclear
  choose shown hseen hshown using
    fun key => h.seen_eq (b := f.binding) w.clock.ms now hread key
  have hmem : ∀ t, t ∈ (marksOf rs).filterMap shown ↔
      Stored f.keys s.shared.server t ∧ t.isDue now f.binding.maxAttempts = true ∧
        Matches f.keys.markPattern.toList (f.keys.mark t.id).toList := by
    intro t
    rw [List.mem_filterMap]
    constructor
    · rintro ⟨key, hkey, ht⟩
      obtain ⟨hstored, hdue, rfl⟩ := (hshown key t).1 ht
      obtain ⟨r, hr, hkey⟩ := mem_marksOf.1 hkey
      exact ⟨hstored, hdue, hl.sound r hr _ hkey⟩
    · rintro ⟨hstored, hdue, hm⟩
      refine ⟨_, mem_marksOf.2 (hl.complete _ ?_ hm), (hshown _ t).2 ⟨hstored, hdue, rfl⟩⟩
      have hmark := (h.get?_mark clock t.id).trans (h.mark_of_stored hstored)
      rw [mark?, if_pos (Task.isDue_iff.1 hdue).1] at hmark
      exact Option.isSome_iff_exists.2 ⟨_, hmark⟩
  refine ⟨(marksOf rs).filterMap shown, ?_, ?_, hmem, fun hscope t => ?_⟩
  · rw [hw.run_dueTasks hl, mapM_filterMap_entry? hseen]
  · exact nodup_filterMap (fun key t ht => ((hshown key t).1 ht).2.2)
      (fun t u htu => congrArg f.keys.mark htu) (nodup_marksOf rs)
  · rw [hmem]
    exact ⟨fun ht => ⟨ht.1, ht.2.1⟩, fun ht => ⟨ht.1, ht.2, Keys.matches_mark hscope t.id⟩⟩

def note : Task := Task.new (.ofNat 1) (Mail.new (.one "a@x")) .epoch

/-- The store of a scope that merges no mails. -/
def storeOf (scope : String) : Mirror := ⟨⟨scope⟩, ⟨60, false, false⟩⟩

theorem ofLetter_note : Task.ofLetter note.letter = some note := by
  refine Task.ofLetter_letter ⟨rfl, Nat.zero_lt_succ _, fun m hm => ?_⟩ fun m hm => ?_
  · obtain rfl := List.mem_singleton.1 hm
    exact ⟨fun e he => absurd he List.not_mem_nil, trivial⟩
  · obtain rfl := List.mem_singleton.1 hm
    exact ⟨trivial, by decide⟩

theorem run_note (scope : String) : ∃ s, Run rules { shared := ⟨{}, 0⟩ } s ∧
    Mirror.Rewrites ⟨scope⟩ note.id (some note.letter) (some (markText note)) {}
      s.shared.server := by
  let j : Job := ⟨storeOf scope, .insert note⟩
  have hcalm : ({} : Server).Calm := ⟨rfl, rfl⟩
  have hfair : j.Fair := ⟨rfl, Nat.zero_lt_succ _⟩
  have asks : (State.started { shared := ⟨{}, 0⟩ } rules j ⟨{}, 0⟩).threads[0]? = some ⟨j,
      .ask (.transaction ((storeOf scope).client.insertWrites (storeOf scope).binding note))
        fun a => .done (Mirror.insertResult a)⟩ :=
    congrArg (fun p => some (Thread.mk j p)) (Mirror.work_insert (storeOf scope) note)
  refine ⟨_, .snoc (.snoc .refl (.start ⟨hfair, rfl⟩)) (.answer asks ⟨rfl, rfl⟩), ?_⟩
  show Mirror.Rewrites _ _ _ _ _ (Server.answer 0 _ {}).2
  rw [hcalm.answer_transaction]
  exact Mirror.rewrites_insert (c := (storeOf scope).client) hcalm (fun _ => ⟨nofun, nofun⟩) rfl 0
    (storeOf scope).binding note

variable {scope : String}

theorem stored_note (h : Mirror.Rewrites ⟨scope⟩ note.id (some note.letter) (some (markText note))
    {} v) : Stored ⟨scope⟩ v note ∧ Legible ⟨scope⟩ v := by
  refine ⟨⟨note.letter, by rw [h.letters, if_pos rfl], ofLetter_note⟩, fun id raw hraw => ?_⟩
  rw [h.letters] at hraw
  split at hraw
  · rw [← Option.some.inj hraw]
    exact ⟨note, ofLetter_note⟩
  · cases hraw

/-- The task is found in one scope, and not in another whose name is a pattern that does not match
itself. -/
theorem due_once_note : note.isDue .epoch 60 = true ∧
    (∃ s w rs ts, Run rules { shared := ⟨{}, 0⟩ } s ∧
      World.Quiet w (storeOf "default").client (storeOf "default").binding s.shared.server ∧
      Stored ⟨"default"⟩ s.shared.server note ∧ note ∈ ts ∧
      (w.access.dueTasks .epoch).run answerListing (rs, w) = (.ok ts, ([], w))) ∧
    ∃ s w rs, Run rules { shared := ⟨{}, 0⟩ } s ∧
      World.Quiet w (storeOf "a[b]").client (storeOf "a[b]").binding s.shared.server ∧
      Stored ⟨"a[b]"⟩ s.shared.server note ∧
      (w.access.dueTasks .epoch).run answerListing (rs, w) = (.ok [], ([], w)) := by
  have hcalm : ({} : Server).Calm := ⟨rfl, rfl⟩
  have hdue : note.isDue .epoch 60 = true := by decide
  have hquiet : ∀ scope s, Server.Calm s → World.Quiet
      { clock := .epoch, backing := .keyValue (storeOf scope).client s } (storeOf scope).client
      (storeOf scope).binding s := fun _ _ hs => ⟨rfl, rfl, rfl, hs⟩
  refine ⟨hdue, ?_, ?_⟩
  · obtain ⟨s, hr, hs⟩ := run_note "default"
    obtain ⟨hstored, hread⟩ := stored_note hs
    obtain ⟨rs, hl⟩ := exists_lists s.shared.server 0 (Keys.mk "default").markPattern
    have hw := hquiet "default" _ hs.calm
    obtain ⟨ts, hrun, -, -, hall⟩ := due_once (f := storeOf "default") hcalm rfl hr
      (clear_of_colon (by decide) s) hw hread hl .epoch
    exact ⟨s, _, rs, ts, hr, hw, hstored, (hall (by decide) note).2 ⟨hstored, hdue⟩, hrun⟩
  · obtain ⟨s, hr, hs⟩ := run_note "a[b]"
    obtain ⟨hstored, hread⟩ := stored_note hs
    obtain ⟨rs, hl⟩ := exists_lists s.shared.server 0 (Keys.mk "a[b]").markPattern
    have hw := hquiet "a[b]" _ hs.calm
    obtain ⟨ts, hrun, -, hmem, -⟩ := due_once (f := storeOf "a[b]") hcalm rfl hr
      (clear_of_colon (by decide) s) hw hread hl .epoch
    obtain rfl : ts = [] := List.eq_nil_iff_forall_not_mem.2 fun t ht =>
      Keys.not_matches_mark t.id ((hmem t).1 ht).2.2
    exact ⟨s, _, rs, hr, hw, hstored, hrun⟩

end MailQueue.Scopes
