import BlockFlow.Proofs.Engine.Moves
import BlockFlow.Proofs.Plan.Soundness

/-!
# In which order tasks are started

`Schedule.Balanced` says how far a run has come: the counts are up to date, the queue
holds the tasks that wait for nothing, and what has been started is in flight or
finished. Every move keeps it.

## Key results

- `balanced_of_ran`: a run is balanced all the way
- `Balanced.feeds_finished`: a started task has only finished producers
- `exists_move`: a run that is not over can go on without the collector
- `Balanced.finished_of_isFinished`: when nothing is left to do, all tasks are finished
-/

namespace BlockFlow

namespace Schedule

variable {β : Type} {s : Schedule β} {g : TaskGraph β}

/-- The schedule carries out `g` by a plan of it, and has room for a task. -/
structure Serves (s : Schedule β) (g : TaskGraph β) : Prop where
  tasks : s.tasks = g.tasks
  accounts : s.plan.Accounts g
  room : 0 < s.limit

/-- The schedule that the engine makes of a task graph serves it. -/
theorem serves_schedule (perform : Performer β) (context : RunContext) {plan : Plan}
    (hplan : g.plan = .ok plan) : (Engine.schedule perform g context plan).Serves g where
  tasks := rfl
  accounts := g.accounts_of_plan hplan
  room := Nat.lt_of_lt_of_le Nat.zero_lt_one (Nat.le_max_right _ _)

/-- How far a run has come, with all its books in order. Those `lost` were in flight when
an error ended the run. -/
structure Balanced (s : Schedule β) (g : TaskGraph β) (p : Progress) : Prop where
  remaining : p.remaining = Plan.waitingAll g.producers p.finished
  frontier : Plan.Frontier g.producers p.finished p.started p.ready
  held : ∃ lost, p.started.Perm (p.finished ++ p.inFlight.map (·.index) ++ lost) ∧
    (p.fault = none → lost = [])
  room : p.inFlight.length ≤ s.limit

/-! ## What follows from it -/

namespace Balanced

variable {p : Progress}

theorem nodup_started (h : s.Balanced g p) : p.started.Nodup :=
  (List.nodup_append.1 h.frontier.nodup).1

theorem nodup_held (h : s.Balanced g p) : (p.finished ++ p.inFlight.map (·.index)).Nodup := by
  obtain ⟨lost, hperm, -⟩ := h.held
  exact (List.nodup_append.1 (hperm.nodup_iff.1 h.nodup_started)).1

theorem started_of_finished (h : s.Balanced g p) {i : Nat} (hi : i ∈ p.finished) :
    i ∈ p.started := by
  obtain ⟨lost, hperm, -⟩ := h.held
  exact hperm.mem_iff.2 (List.mem_append_left _ (List.mem_append_left _ hi))

theorem started_of_inFlight (h : s.Balanced g p) {f : Flight} (hf : f ∈ p.inFlight) :
    f.index ∈ p.started := by
  obtain ⟨lost, hperm, -⟩ := h.held
  refine hperm.mem_iff.2 (List.mem_append_left _ (List.mem_append_right _ ?_))
  exact List.mem_map_of_mem hf

/-- A task in flight is not finished. -/
theorem not_finished (h : s.Balanced g p) {f : Flight} (hf : f ∈ p.inFlight) :
    f.index ∉ p.finished := by
  intro hfin
  exact List.disjoint_of_nodup_append h.nodup_held hfin (List.mem_map_of_mem hf)

theorem lt_of_started (h : s.Balanced g p) {i : Nat} (hi : i ∈ p.started) :
    i < g.producers.length :=
  ((h.frontier.mem_iff i).1 (List.mem_append_left _ hi)).1

theorem lt_of_ready (h : s.Balanced g p) {i : Nat} (hi : i ∈ p.ready) :
    i < g.producers.length :=
  ((h.frontier.mem_iff i).1 (List.mem_append_right _ hi)).1

/-- A ready task is not started yet. -/
theorem not_started (h : s.Balanced g p) {i : Nat} (hi : i ∈ p.ready) : i ∉ p.started :=
  fun hs => List.disjoint_of_nodup_append h.frontier.nodup hs hi

/-- All producers of a task that is ready or started are finished. -/
theorem feeds_finished (hs : s.Serves g) (h : s.Balanced g p) {i j : Nat}
    (hi : i ∈ p.started ++ p.ready) (hij : g.Feeds j i) : j ∈ p.finished :=
  Plan.waiting_eq_zero.1 ((h.frontier.mem_iff i).1 hi).2 j ((hs.accounts.mem i j).2 hij)

/-- Two tasks in flight are in one slot, or are different tasks. -/
theorem slot_eq (h : s.Balanced g p) {k l : Nat} {f f' : Flight}
    (hk : p.inFlight[k]? = some f) (hl : p.inFlight[l]? = some f') (hff : f.index = f'.index) :
    k = l := by
  have hnodup := (List.nodup_append.1 h.nodup_held).2.1
  have hk' : (p.inFlight.map (·.index))[k]? = some f.index := by simp [hk]
  have hl' : (p.inFlight.map (·.index))[l]? = some f.index := by simp [hl, hff]
  obtain ⟨hlt, -⟩ := List.getElem?_eq_some_iff.1 hk'
  exact (List.getElem?_inj hlt hnodup).1 (hk'.trans hl'.symm)

end Balanced

/-! ## What keeps it -/

theorem balanced_begin (hs : s.Serves g) (w : World) : s.Balanced g (s.begin w) where
  remaining := hs.accounts.remaining
  frontier := by
    show Plan.Frontier g.producers [] [] (Plan.readyAt s.plan.remaining)
    rw [hs.accounts.remaining]
    exact Plan.frontier_readyAt g.producers
  held := ⟨[], List.Perm.refl _, fun _ => rfl⟩
  room := Nat.zero_le _

/-- Every move keeps a run balanced. -/
theorem Balanced.move (hs : s.Serves g) {p q : Progress} {m : Move} (h : s.Balanced g p)
    (hfault : p.fault = none) (hm : s.Moved p m q) : s.Balanced g q := by
  -- Without an error no task is lost: what has been started is finished or in flight.
  obtain ⟨lost, hperm, hlost⟩ := h.held
  obtain rfl := hlost hfault
  rw [List.append_nil] at hperm
  cases hm with
  | @start i ready t hready hroom ht =>
    have hfrontier := h.frontier
    rw [hready] at hfrontier
    refine ⟨h.remaining, hfrontier.take, ⟨[], ?_, fun _ => rfl⟩, ?_⟩
    · show (p.started ++ [i]).Perm
        (p.finished ++ (p.inFlight ++ [(_ : Flight)]).map (·.index) ++ [])
      rw [List.append_nil, List.map_append, ← List.append_assoc]
      exact hperm.append_right _
    · show (p.inFlight ++ [_]).length ≤ s.limit
      rw [List.length_append]
      exact hroom
  | @advance slot i γ act next hslot =>
    refine ⟨h.remaining, h.frontier, ⟨[], ?_, fun _ => rfl⟩, ?_⟩
    · -- The task in the slot stays the same one.
      show p.started.Perm (p.finished ++ (p.inFlight.set slot _).map (·.index) ++ [])
      have hindex : (p.inFlight.map (·.index))[slot]? = some i := by simp [hslot]
      obtain ⟨hlt, heq⟩ := List.getElem?_eq_some_iff.1 hindex
      rw [List.append_nil, List.map_set, ← heq, List.set_getElem_self]
      exact hperm
    · show (p.inFlight.set slot _).length ≤ s.limit
      rw [List.length_set]
      exact h.room
  | @join slot i state hfull hslot =>
    have hmem := List.mem_of_getElem? hslot
    have hi : i ∉ p.finished := h.not_finished hmem
    have hlt : i < g.producers.length := h.lt_of_started (h.started_of_inFlight hmem)
    have hfinished : (s.complete { p with inFlight := p.inFlight.eraseIdx slot } i state).finished =
        p.finished ++ [i] := by
      simp [Progress.finished, complete]
    have hnodup : ∀ k, (Plan.producersAt g.producers k).Nodup := g.nodup_producersAt
    refine {
      remaining := ?remaining
      frontier := ?frontier
      held := ⟨[], ?held, fun _ => rfl⟩
      room := Nat.le_trans (List.length_eraseIdx_le _ _) h.room }
    case remaining =>
      rw [hfinished, ← Plan.release_waiting hnodup hi, ← hs.accounts.dependents i hlt,
        ← h.remaining]
      rfl
    case frontier =>
      rw [hfinished]
      show Plan.Frontier _ _ p.started
        (p.ready ++ (Plan.release p.remaining (s.plan.dependents[i]?.getD [])).2)
      rw [h.remaining, hs.accounts.dependents i hlt]
      exact h.frontier.finish hnodup hi
    case held =>
      -- The task goes from the flights to the finished ones.
      rw [hfinished, List.append_nil, List.append_assoc]
      show p.started.Perm (p.finished ++ ([i] ++ (p.inFlight.eraseIdx slot).map (·.index)))
      obtain ⟨hlt', heq⟩ := List.getElem?_eq_some_iff.1 hslot
      have hback := (List.getElem_cons_eraseIdx_perm hlt').map (·.index)
      rw [heq] at hback
      exact hperm.trans (hback.symm.append_left _)
  | @abort slot i e hslot =>
    -- The tasks in flight are lost.
    refine ⟨h.remaining, h.frontier,
      ⟨p.inFlight.map (·.index), ?_, fun he => absurd he (Option.some_ne_none _)⟩, Nat.zero_le _⟩
    show p.started.Perm (p.finished ++ [] ++ p.inFlight.map (·.index))
    rw [List.append_nil]
    exact hperm
  | receive => exact ⟨h.remaining, h.frontier, ⟨[], by rwa [List.append_nil], fun _ => rfl⟩, h.room⟩

/-- A run is balanced all the way. -/
theorem balanced_of_ran (hs : s.Serves g) {P : Progress → Prop} {w : World} {p : Progress}
    {log : List (Nat × World)} (h : s.Ran P (s.begin w) log p) : s.Balanced g p :=
  h.invariant (I := fun _ p => s.Balanced g p) (balanced_begin hs w)
    (fun _ _ _ _ _ hp hfault hm _ => hp.move hs hfault hm)

/-! ## Going on -/

/-- A run that is not over can go on, whether or not the collector does anything. -/
theorem exists_move (hs : s.Serves g) {p : Progress} (h : s.Balanced g p)
    (hover : isOver p = false) : ∃ m q, m ≠ .receive ∧ s.move? p m = some q := by
  have hfault : p.fault = none := by
    cases hf : p.fault with
    | none => rfl
    | some e => simp [isOver, hf] at hover
  have hunfinished : ¬(p.ready = [] ∧ p.inFlight = []) := by
    rintro ⟨hready, hflight⟩
    simp [isOver, isFinished, hfault, hready, hflight] at hover
  cases hstart : s.canStart p with
  | true =>
    simp only [canStart, Bool.and_eq_true, decide_eq_true_eq] at hstart
    cases hready : p.ready with
    | nil => simp [hready] at hstart
    | cons i ready =>
      have hlt : i < s.tasks.length := by
        rw [hs.tasks, ← hs.accounts.length]
        exact h.lt_of_ready (by simp [hready])
      obtain ⟨q, hq⟩ := move?_start hfault hready hstart.1 (List.getElem?_eq_getElem hlt)
      exact ⟨.start, q, by decide, hq⟩
  | false =>
    cases hflight : p.inFlight with
    | nil =>
      -- With room and nothing to start, the run would be finished.
      have hroom := hs.room
      simp [canStart, hflight, hroom] at hstart
      exact absurd ⟨hstart, hflight⟩ hunfinished
    | cons f rest =>
      have hslot : p.inFlight[0]? = some f := by simp [hflight]
      cases hdone : f.fiber.isDone with
      | true =>
        obtain ⟨q, hq⟩ := move?_join hfault hstart hslot hdone
        exact ⟨.join 0, q, by decide, hq⟩
      | false =>
        obtain ⟨q, hq⟩ := move?_advance (s := s) hfault hslot hdone
        exact ⟨.advance 0, q, by decide, hq⟩

/-- When nothing is left to do, every task is finished. -/
theorem Balanced.finished_of_isFinished (hs : s.Serves g) {p : Progress} (h : s.Balanced g p)
    (hfin : isFinished p = true) : ∀ i < g.tasks.length, i ∈ p.finished := by
  simp only [isFinished, Bool.and_eq_true, Option.isNone_iff_eq_none, List.isEmpty_iff] at hfin
  obtain ⟨⟨hfault, hready⟩, hflight⟩ := hfin
  -- Nothing is in flight or lost, so what has been started is finished.
  obtain ⟨lost, hperm, hlost⟩ := h.held
  obtain rfl := hlost hfault
  rw [hflight, List.map_nil, List.append_nil, List.append_nil] at hperm
  -- By induction along the wiring: a task whose producers are finished is in the frontier.
  refine fun i hi => hs.accounts.induction (P := fun i => i < g.tasks.length → i ∈ p.finished)
    ?_ i hi hi
  intro i hproducers hi
  have hzero : Plan.waiting g.producers p.finished i = 0 := by
    rw [Plan.waiting_eq_zero]
    intro j hj
    have hfeeds := (hs.accounts.mem i j).1 hj
    exact hproducers j hfeeds hfeeds.lt
  have hmem := (h.frontier.mem_iff i).2 ⟨by rw [hs.accounts.length]; exact hi, hzero⟩
  rw [hready, List.append_nil] at hmem
  exact hperm.mem_iff.1 hmem

/-- When nothing is left to do, there have been as many completions as there are tasks. -/
theorem Balanced.length_completed (hs : s.Serves g) {p : Progress} (h : s.Balanced g p)
    (hfin : isFinished p = true) : p.completed.length = g.tasks.length := by
  have hall : p.finished.Perm (List.range g.tasks.length) := by
    refine (List.perm_ext_iff_of_nodup (List.nodup_append.1 h.nodup_held).1 List.nodup_range).2 ?_
    intro i
    rw [List.mem_range]
    refine ⟨fun hi => ?_, h.finished_of_isFinished hs hfin i⟩
    rw [← hs.accounts.length]
    exact h.lt_of_started (h.started_of_finished hi)
  have := hall.length_eq
  rwa [Progress.finished, List.length_map, List.length_range] at this

end Schedule

end BlockFlow
