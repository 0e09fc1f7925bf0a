import BlockFlow.Proofs.Engine.Aborts
import BlockFlow.Proofs.Plan.Queueing

/-!
# Runs with room for one task

With room for one task only, the engine cannot start a task before the one in front of it has left.
So it goes through the tasks as the traversal behind the plan does: at each point the counts are
those of the traversal, and the task in flight and the ready ones are its queue
(`Schedule.Lockstep`). What the tasks do, and which moves come in between, makes no difference.

## Key results

- `Schedule.lockstep_of_ran`: a run with room for one task keeps step with the plan's traversal
- `sequential_runs_take_turns`: such a run carries the tasks out one by one, in the plan's order
-/

namespace BlockFlow

namespace Schedule

variable {β : Type} {s : Schedule β} {g : TaskGraph β} {w : World} {log : List (Nat × World)}
  {p q : Progress} {P : Progress → Prop} {i j : Nat}

/-! ## Steps in turns -/

/-- The steps in the log come task by task, and the tasks in this order. -/
def InTurns (tasks : List Nat) (log : List (Nat × World)) : Prop :=
  log = tasks.flatMap (fun i => (worldsOf log i).map (fun v => (i, v)))

theorem worldsOf_concat_of_ne (h : i ≠ j) (log : List (Nat × World)) (v : World) :
    worldsOf (log ++ [(i, v)]) j = worldsOf log j := by
  rw [worldsOf_append]
  simp [worldsOf, h]

theorem worldsOf_concat_self (i : Nat) (log : List (Nat × World)) (v : World) :
    worldsOf (log ++ [(i, v)]) i = worldsOf log i ++ [v] := by
  rw [worldsOf_append]
  simp [worldsOf]

/-- It is the turn of a task that has taken no step yet. -/
theorem InTurns.next {tasks : List Nat} (h : InTurns tasks log) (hi : worldsOf log i = []) :
    InTurns (tasks ++ [i]) log := by
  rw [InTurns, List.flatMap_append, List.flatMap_singleton, hi, List.map_nil, List.append_nil]
  exact h

/-- The task whose turn it is takes a step. -/
theorem InTurns.step {tasks : List Nat} (h : InTurns (tasks ++ [i]) log) (hi : i ∉ tasks)
    (v : World) : InTurns (tasks ++ [i]) (log ++ [(i, v)]) := by
  have hothers : tasks.flatMap (fun j => (worldsOf (log ++ [(i, v)]) j).map (fun u => (j, u))) =
      tasks.flatMap (fun j => (worldsOf log j).map (fun u => (j, u))) := by
    refine List.flatMap_congr fun j hj => ?_
    have hij : i ≠ j := fun hij => hi (hij ▸ hj)
    rw [worldsOf_concat_of_ne hij]
  rw [InTurns, List.flatMap_append, List.flatMap_singleton] at h
  rw [InTurns, List.flatMap_append, List.flatMap_singleton, hothers, worldsOf_concat_self,
    List.map_append, ← List.append_assoc, ← h]
  rfl

/-! ## Keeping step -/

/-- The positions of the tasks in flight. -/
def flying (p : Progress) : List Nat := p.inFlight.map (fun f => f.index)

/-- A run keeps step with the traversal behind the plan: all that has been started is finished or in
flight, in this order, and what is in flight or ready is what the traversal has in its queue. -/
structure Lockstep (s : Schedule β) (log : List (Nat × World)) (p : Progress) : Prop where
  started : p.started = p.finished ++ flying p
  order : ∃ fuel, s.tasks.length ≤ fuel + p.finished.length ∧
    p.finished ++ (Plan.traverse s.plan.dependents fuel p.remaining (flying p ++ p.ready)).1 =
      s.plan.order
  steps : InTurns p.started log

theorem lockstep_begin (w : World) (horder : s.plan.order = (Plan.traverse s.plan.dependents
      s.tasks.length s.plan.remaining (Plan.readyAt s.plan.remaining)).1) :
    s.Lockstep [] (s.begin w) where
  started := rfl
  order := ⟨s.tasks.length, Nat.le_add_right _ _, horder.symm⟩
  steps := rfl

/-- With room for one task, what is in flight is alone there. -/
theorem inFlight_of_slot (hroom : p.inFlight.length ≤ 1) {slot : Nat} {f : Flight}
    (hslot : p.inFlight[slot]? = some f) : slot = 0 ∧ p.inFlight = [f] := by
  match hflights : p.inFlight, hroom with
  | [], _ =>
    rw [hflights] at hslot
    cases hslot
  | [f'], _ =>
    rw [hflights, List.getElem?_singleton] at hslot
    split at hslot
    · next hzero => exact ⟨hzero, congrArg (fun f => [f]) (Option.some.inj hslot)⟩
    · cases hslot

/-- While a task is in flight, the traversal has not taken all tasks. -/
theorem Lockstep.finished_lt (hs : s.Serves g) (hb : s.Balanced g p) (h : s.Lockstep log p)
    (hflying : flying p = [i]) : p.finished.length < s.tasks.length := by
  have hstarted : p.started = p.finished ++ [i] := hflying ▸ h.started
  have hsub : p.started ⊆ List.range s.tasks.length := by
    intro k hk
    rw [List.mem_range, hs.tasks, ← hs.accounts.length]
    exact hb.lt_of_started hk
  have hle := (List.subperm_of_subset hb.nodup_started hsub).length_le
  rw [hstarted, List.length_append, List.length_singleton, List.length_range] at hle
  omega

/-- A move takes a run and the traversal on alike, unless it ends the run. -/
theorem Lockstep.move (hs : s.Serves g) (hone : s.limit ≤ 1) (hb : s.Balanced g p)
    (hr : s.Recorded log p) (h : s.Lockstep log p) {m : Move} (hm : s.Moved p m q)
    (hfault : q.fault = none) : s.Lockstep (log ++ logged p m) q := by
  have hroom : p.inFlight.length ≤ 1 := Nat.le_trans hb.room hone
  obtain ⟨fuel, hfuel, horder⟩ := h.order
  cases hm with
  | @start i ready t hready hlimit ht =>
    -- The task goes from the ready ones to those in flight, which stand right before them.
    have hflying : ∀ f : Flight, f.index = i →
        (p.inFlight ++ [f]).map (fun f => f.index) = flying p ++ [i] := by
      rintro f rfl
      rw [List.map_append, List.map_singleton, flying]
    refine ⟨?_, ⟨fuel, hfuel, ?_⟩, ?_⟩
    · show p.started ++ [i] = p.finished ++ List.map _ (p.inFlight ++ [_])
      rw [hflying _ rfl, h.started, List.append_assoc]
    · show p.finished ++ (Plan.traverse s.plan.dependents fuel p.remaining
        (List.map _ (p.inFlight ++ [_]) ++ ready)).1 = s.plan.order
      rw [hflying _ rfl, ← horder, hready, List.append_assoc, List.singleton_append]
    · show InTurns (p.started ++ [i]) (log ++ [])
      rw [List.append_nil]
      exact h.steps.next (hr.waiting i (hb.not_started (by simp [hready])))
  | @advance slot i γ act next hslot =>
    obtain ⟨rfl, halone⟩ := inFlight_of_slot hroom hslot
    have hflying : flying p = [i] := by rw [flying, halone, List.map_singleton]
    have hsame : (p.inFlight.set 0 ⟨i, next (act p.world).2⟩).map (fun f => f.index) =
        flying p := by
      rw [hflying, halone]
      rfl
    refine ⟨?_, ⟨fuel, hfuel, ?_⟩, ?_⟩
    · show p.started = p.finished ++ List.map _ _
      rw [hsame]
      exact h.started
    · show p.finished ++ (Plan.traverse s.plan.dependents fuel p.remaining
        (List.map _ _ ++ p.ready)).1 = s.plan.order
      rw [hsame]
      exact horder
    · show InTurns p.started (log ++ logged p (.advance 0))
      have hlogged : logged p (.advance 0) = [(i, p.world)] := by rw [logged, hslot]; rfl
      have hi : i ∉ p.finished := hb.not_finished (List.mem_of_getElem? hslot)
      have hsteps := h.steps
      rw [h.started, hflying] at hsteps ⊢
      rw [hlogged]
      exact hsteps.step hi p.world
  | @join slot i state hfull hslot =>
    obtain ⟨rfl, halone⟩ := inFlight_of_slot hroom hslot
    have hflying : flying p = [i] := by rw [flying, halone, List.map_singleton]
    have hfinished : (s.complete { p with inFlight := p.inFlight.eraseIdx 0 } i state).finished =
        p.finished ++ [i] := by
      simp [Progress.finished, complete]
    have hgone : flying (s.complete { p with inFlight := p.inFlight.eraseIdx 0 } i state) = [] := by
      show (p.inFlight.eraseIdx 0).map _ = []
      rw [halone]
      rfl
    have hshort := h.finished_lt hs hb hflying
    obtain ⟨fuel, rfl⟩ : ∃ fuel', fuel = fuel' + 1 := ⟨fuel - 1, by omega⟩
    refine ⟨?_, ⟨fuel, ?_, ?_⟩, ?_⟩
    · rw [hfinished, hgone, List.append_nil, ← hflying]
      exact h.started
    · rw [hfinished, List.length_append, List.length_singleton]
      omega
    · -- The traversal takes the task, and what it releases is what the engine makes ready.
      rw [hflying, List.singleton_append, Plan.traverse] at horder
      rw [hfinished, hgone, List.nil_append, List.append_assoc]
      exact horder
    · show InTurns p.started (log ++ [])
      rw [List.append_nil]
      exact h.steps
  | abort => cases hfault
  | receive =>
    refine ⟨h.started, ⟨fuel, hfuel, horder⟩, ?_⟩
    show InTurns p.started (log ++ [])
    rw [List.append_nil]
    exact h.steps

/-- A run with room for one task keeps step with the traversal behind the plan, as long as no error
has ended it. -/
theorem lockstep_of_ran (hs : s.Serves g) (hone : s.limit ≤ 1)
    (horder : s.plan.order = (Plan.traverse s.plan.dependents s.tasks.length s.plan.remaining
      (Plan.readyAt s.plan.remaining)).1)
    (h : s.Ran P (s.begin w) log p) (hfault : p.fault = none) : s.Lockstep log p := by
  induction h with
  | begin => exact lockstep_begin w horder
  | move m hp hm _ ih =>
    obtain ⟨hnone, hmoved⟩ := moved_of_move? hm
    exact (ih hnone).move hs hone (balanced_of_ran hs hp) (recorded_of_ran hs hp) hmoved hfault

/-! ## What follows from it -/

/-- How a run has come along that carries the tasks out one by one, in this order. -/
structure TakesTurns (s : Schedule β) (order : List Nat) (log : List (Nat × World))
    (p : Progress) : Prop where
  /-- The tasks have been started in the order. -/
  started : p.started <+: order
  /-- Each of them but the last has finished, and in the order too. -/
  finished : p.started = p.finished ∨ ∃ i, p.started = p.finished ++ [i]
  /-- No task has taken a step before those in front of it had taken all of theirs. -/
  steps : InTurns p.started log
  /-- When everything has been done, no task of the order has been left out. -/
  whole : isFinished p = true → p.started = order ∧ p.finished = order
  /-- A fatal error is that of the last task that has been started. -/
  fatal : ∀ e, p.fault = some e → ∃ i, p.started = p.finished ++ [i] ∧ s.Errs log i e

theorem Lockstep.finished_cases (hone : s.limit ≤ 1) (hb : s.Balanced g p)
    (h : s.Lockstep log p) : flying p = [] ∧ p.started = p.finished ∨
      ∃ i, flying p = [i] ∧ p.started = p.finished ++ [i] := by
  have hstarted := h.started
  have hroom : (flying p).length ≤ 1 := by
    rw [flying, List.length_map]
    exact Nat.le_trans hb.room hone
  match flying p, hroom, hstarted with
  | [], _, hstarted => exact .inl ⟨rfl, by rwa [List.append_nil] at hstarted⟩
  | [i], _, hstarted => exact .inr ⟨i, rfl, hstarted⟩

theorem Lockstep.started_prefix (hs : s.Serves g) (hone : s.limit ≤ 1) (hb : s.Balanced g p)
    (h : s.Lockstep log p) : p.started <+: s.plan.order := by
  obtain ⟨fuel, hfuel, horder⟩ := h.order
  rcases h.finished_cases hone hb with ⟨-, hstarted⟩ | ⟨i, hflying, hstarted⟩
  · rw [hstarted, ← horder]
    exact List.prefix_append _ _
  · -- The task in flight is the next one that the traversal takes.
    have hshort := h.finished_lt hs hb hflying
    obtain ⟨fuel, rfl⟩ : ∃ fuel', fuel = fuel' + 1 := ⟨fuel - 1, by omega⟩
    rw [hflying, List.singleton_append, Plan.traverse] at horder
    rw [hstarted, ← horder, List.prefix_append_right_inj]
    exact List.prefix_append [i] _

theorem Lockstep.takesTurns (hs : s.Serves g) (hone : s.limit ≤ 1) (hb : s.Balanced g p)
    (h : s.Lockstep log p) (hfault : p.fault = none) : s.TakesTurns s.plan.order log p where
  started := h.started_prefix hs hone hb
  finished := (h.finished_cases hone hb).imp And.right fun ⟨i, _, hstarted⟩ => ⟨i, hstarted⟩
  steps := h.steps
  whole hfin := by
    simp only [isFinished, Bool.and_eq_true, List.isEmpty_iff] at hfin
    have hflying : flying p = [] := by rw [flying, hfin.2, List.map_nil]
    -- With an empty queue the traversal takes no more.
    obtain ⟨fuel, -, horder⟩ := h.order
    have hrest : (Plan.traverse s.plan.dependents fuel p.remaining []).1 = [] := by
      cases fuel <;> rfl
    rw [hflying, hfin.1.2, List.append_nil, hrest, List.append_nil] at horder
    rw [h.started, hflying, List.append_nil]
    exact ⟨horder, horder⟩
  fatal e he := absurd (hfault.symm.trans he) (Option.some_ne_none e).symm

theorem takesTurns_of_ran (hs : s.Serves g) (hone : s.limit ≤ 1)
    (horder : s.plan.order = (Plan.traverse s.plan.dependents s.tasks.length s.plan.remaining
      (Plan.readyAt s.plan.remaining)).1)
    (h : s.Ran P (s.begin w) log p) : s.TakesTurns s.plan.order log p := by
  cases hfault : p.fault with
  | none =>
    exact (lockstep_of_ran hs hone horder h hfault).takesTurns hs hone (balanced_of_ran hs h) hfault
  | some e =>
    -- The run has come along like this until the error, which changes nothing of it.
    obtain ⟨q, slot, i, hq, hnone, hslot, -, rfl⟩ := h.before_fault hfault
    have hb := balanced_of_ran hs hq
    have hlock := lockstep_of_ran hs hone horder hq hnone
    have hturns := hlock.takesTurns hs hone hb hnone
    obtain ⟨-, halone⟩ := inFlight_of_slot (Nat.le_trans hb.room hone) hslot
    have hflying : flying q = [i] := by rw [flying, halone, List.map_singleton]
    refine ⟨hturns.started, hturns.finished, hturns.steps, ?_, fun e' he' => ?_⟩
    · intro hfin
      simp [isFinished, abandon] at hfin
    · obtain rfl := Option.some.inj (hfault.symm.trans he')
      exact ⟨i, hflying ▸ hlock.started, (recorded_of_ran hs hq).errs hslot⟩

end Schedule

/-- With room for one task, which is also there if the limit is zero, every run carries the tasks
out one by one in the order of the plan, up to the first fatal error. It is the order in which a
queue hands them out, so that no task comes before one that feeds it; it is settled by the task
graph alone, and neither what the tasks do nor the order of the moves makes a difference. -/
theorem sequential_runs_take_turns {β : Type} {g : TaskGraph β} {plan : Plan}
    (hplan : g.plan = .ok plan) (hlimit : g.maxConcurrency ≤ 1) :
    (∀ order, g.Queued order ↔ order = plan.order) ∧
      ∀ (perform : Performer β) (context : RunContext) (w : World) (log : List (Nat × World))
        (p : Progress),
        (Engine.schedule perform g context plan).Ran (fun _ => True)
            ((Engine.schedule perform g context plan).begin w) log p →
          (Engine.schedule perform g context plan).TakesTurns plan.order log p := by
  have hqueued := g.queued_order hplan
  refine ⟨fun order => ⟨fun h => ?_, ?_⟩, fun perform context w log p hran => ?_⟩
  · exact h.unique hqueued (g.accounts_of_plan hplan)
  · rintro rfl
    exact hqueued
  · have hone : (Engine.schedule perform g context plan).limit ≤ 1 := Nat.max_le.2 ⟨hlimit, le_rfl⟩
    exact Schedule.takesTurns_of_ran (Schedule.serves_schedule perform context hplan) hone
      (g.order_of_plan hplan) hran

/-! ## Four tasks, one at a time -/

namespace Crossing

/-- The first task reads what the last two publish, of which one reads from the second. -/
def graph : TaskGraph Unit where
  name := "crossing"
  mode := .validate
  maxConcurrency := 1
  tasks := [
    ⟨"end", "end", .process, "",
      SortedMap.ofList [("l", some ⟨"left", "x"⟩), ("r", some ⟨"right", "x"⟩)], ∅, ()⟩,
    ⟨"begin", "begin", .process, "", ∅, SortedMap.ofList [("x", "/out/begin")], ()⟩,
    ⟨"left", "left", .process, "", SortedMap.ofList [("y", some ⟨"begin", "x"⟩)],
      SortedMap.ofList [("x", "/out/left")], ()⟩,
    ⟨"right", "right", .process, "", ∅, SortedMap.ofList [("x", "/out/right")], ()⟩]

def plan : Plan where
  dependents := [[], [2], [0], [0]]
  remaining := [2, 0, 1, 0]
  inputs := [SortedMap.ofList [("l", some "/out/left"), ("r", some "/out/right")], ∅,
    SortedMap.ofList [("y", some "/out/begin")], ∅]
  order := [1, 3, 2, 0]

/-- The run of the four tasks in an empty file system, if all of them succeed at once. -/
def schedule : Schedule Unit := Engine.schedule Relay.perform graph Relay.context plan

def start : Progress := schedule.begin (Engine.prepare Relay.context {}).1

/-- Each task is started, takes its steps, and is joined. -/
def moves : List Move :=
  [5, 5, 5, 4].flatMap fun steps => .start :: List.replicate steps (.advance 0) ++ [.join 0]

theorem isFinished_of_moves :
    (schedule.replay? (fun _ => True) moves start).any Schedule.isFinished = true := by
  decide +kernel

end Crossing

/-- The right task waits for nothing and comes before the left one, which comes before the end. -/
theorem crossing_takes_turns : ∃ log p,
    Crossing.schedule.Ran (fun _ => True) Crossing.start log p ∧ Schedule.isFinished p = true ∧
      p.started = [1, 3, 2, 0] ∧ p.finished = [1, 3, 2, 0] := by
  obtain ⟨p, hmoves, hfin⟩ := (Option.any_eq_true _ _).1 Crossing.isFinished_of_moves
  obtain ⟨log, hran⟩ := Schedule.ran_of_replay? hmoves
  have hplan : Crossing.graph.plan = .ok Crossing.plan := rfl
  have hturns := (sequential_runs_take_turns hplan (by decide)).2 Relay.perform Relay.context _
    log p hran
  exact ⟨log, p, hran, hfin, hturns.whole hfin⟩

end BlockFlow
