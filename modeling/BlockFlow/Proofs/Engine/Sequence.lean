import BlockFlow.Proofs.Engine.Completion
import BlockFlow.Proofs.Engine.Pool

/-!
# Carrying tasks out one at a time

`Engine.oneByOne` is the plainest scheduler: it takes the tasks in a given order and finishes
each of them before it starts the next one. The runs of the engine and those of `oneByOne`
are runs of one pool, at the end of which every task has finished and has its state in the
table.

## Key results

- `Engine.exists_carried`: how every run that succeeds has come to its end
-/

namespace BlockFlow

variable {β : Type}

namespace Schedule

/-- Carries out the tasks at these positions, one after the other. -/
def carryOut (s : Schedule β) : List Nat → World → World × RunResult
  | [], w => (w, .ok ())
  | i :: is, w =>
    match s.fiberOf? i with
    | none => carryOut s is w
    | some fiber =>
      match fiber.run { w with failures := w.failures.openSink } with
      | (w, .error e) => (w, .error e)
      | (w, .ok state) => carryOut s is (w.setState (s.taskName i) state)

end Schedule

/-- Every task is in the order, once, and none comes before one that feeds it. -/
def TaskGraph.IsOrder (g : TaskGraph β) (order : List Nat) : Prop :=
  order.Perm (List.range g.tasks.length) ∧ order.Pairwise (fun i j => ¬g.Feeds j i)

/-- With a plan, it can be decided what is an order. -/
theorem TaskGraph.isOrder_iff {g : TaskGraph β} {plan : Plan} (h : g.plan = .ok plan)
    {order : List Nat} : g.IsOrder order ↔ order.Perm (List.range g.tasks.length) ∧
      order.Pairwise (fun i j => j ∉ Plan.producersAt g.producers i) := by
  simp only [IsOrder, (accounts_of_plan h).mem]

namespace Engine

/-- Plans a task graph and carries its tasks out one at a time, in this order. -/
def oneByOne (perform : Performer β) (order : List Nat) : Scheduler β := fun g context w =>
  match g.plan with
  | .error e => (w, .error e)
  | .ok plan =>
    match prepare context w with
    | (w, .error e) => (w, .error e)
    | (w, .ok ()) =>
      match (schedule perform g context plan).carryOut order w with
      | (w, .error e) => (w, .error e)
      | (w, .ok ()) => (cleanUp context w, .ok ())

/-- `r` is what carrying out a task graph may come to: side by side, by moves in some order,
or one at a time. -/
inductive CarriesOut (perform : Performer β) (g : TaskGraph β) (context : RunContext)
    (w : World) : World × RunResult → Prop
  | sideBySide {r : World × RunResult} (h : MayEnd perform g context w r) :
      CarriesOut perform g context w r
  | oneByOne {order : List Nat} (horder : g.IsOrder order) :
      CarriesOut perform g context w (oneByOne perform order g context w)

/-- Whatever task graph it is given, a scheduler carries it out in some order. -/
def IsScheduler (perform : Performer β) (scheduler : Scheduler β) : Prop :=
  ∀ g context w, CarriesOut perform g context w (scheduler g context w)

/-- How a run that has succeeded has come to its end: `w₁` is the world when the first task
began. -/
structure Carried (perform : Performer β) (g : TaskGraph β) (context : RunContext) (plan : Plan)
    (w w₁ w' : World) (p : Pool) : Prop where
  planned : g.plan = .ok plan
  prepared : prepare context w = (w₁, .ok ())
  runs : Pool.Runs (schedule perform g context plan) g { world := w₁ } p
  cleaned : w' = cleanUp context p.world
  completed : ∀ (i : Nat) (t : Task β), g.tasks[i]? = some t →
    ∃ state, (i, state) ∈ p.completed ∧ p.world.states.get? t.name = some state
  names : ∀ k state, p.world.states.get? k = some state → ∃ t ∈ g.tasks, t.name = k

end Engine

/-! ## One task -/

theorem Fiber.Always.run {σ α : Type} {R : σ → σ → Prop} (hrefl : ∀ s, R s s)
    (htrans : ∀ s s' s'', R s s' → R s' s'' → R s s'') {p : Fiber σ α} (h : p.Always R) (s : σ) :
    R s (p.run s).1 := by
  induction p generalizing s with
  | done a => exact hrefl s
  | step act next ih => exact htrans _ _ _ (h.1 s) (ih _ (h.2 _) _)

theorem World.Writes.trans {name : String} {w w' w'' : World} (h : World.Writes name w w')
    (h' : World.Writes name w' w'') : World.Writes name w w'' := by
  intro k
  rcases h' k with hsame | hwritten
  · rcases h k with hsame' | ⟨hk, hsome⟩
    · exact .inl (hsame.trans hsame')
    · exact .inr ⟨hk, by rwa [hsame]⟩
  · exact .inr hwritten

namespace Pool

variable {s : Schedule β} {g : TaskGraph β}

/-- A task in flight can take all of its steps. -/
theorem runs_steps {p : Pool} {i : Nat} {fiber : Fiber World (Except ExecutionError TaskState)}
    (h : p.inFlight = [⟨i, fiber⟩]) :
    ∃ log, Runs s g p { p with
      inFlight := [⟨i, .done (fiber.run p.world).2⟩]
      world := (fiber.run p.world).1
      log := log } := by
  -- With nothing else in flight the world is what the last step has left.
  induction fiber generalizing p with
  | done a =>
    have hp : ({ p with
        inFlight := [⟨i, .done a⟩], world := p.world, log := p.log } : Pool) = p := by
      rw [← h]
    refine ⟨p.log, ?_⟩
    show Runs s g p { p with inFlight := [⟨i, .done a⟩], world := p.world, log := p.log }
    rw [hp]
  | step act next ih =>
    have hfirst : Step s g p { p with
        inFlight := [⟨i, next (act p.world).2⟩]
        world := (act p.world).1
        log := p.log ++ [(i, p.world)] } := by
      have hsplit : p.inFlight = [] ++ ⟨i, .step act next⟩ :: [] := h
      exact .advance hsplit
    obtain ⟨log, hrest⟩ := ih _ (p := { p with
      inFlight := [⟨i, next (act p.world).2⟩]
      world := (act p.world).1
      log := p.log ++ [(i, p.world)] }) rfl
    exact ⟨log, .head hfirst hrest⟩

/-- A task that may be started can be carried out at once. -/
theorem runs_task {p : Pool} {i : Nat} {t : Task β} {w : World} {state : TaskState}
    (hidle : p.inFlight = []) (ht : g.tasks[i]? = some t) (hnew : i ∉ p.started)
    (hfed : ∀ j, g.Feeds j i → j ∈ p.finished)
    (hrun : (s.fiberAt i t).run { p.world with failures := p.world.failures.openSink } =
      (w, .ok state)) (name : String) :
    ∃ log, Runs s g p {
      started := p.started ++ [i]
      inFlight := []
      completed := p.completed ++ [(i, state)]
      world := w.setState name state
      log := log } := by
  -- Started, told its sink, run to its end, joined: nothing else is in flight meanwhile.
  obtain ⟨log, hsteps⟩ := runs_steps (s := s) (g := g) (p := { p with
    started := p.started ++ [i]
    inFlight := [⟨i, s.fiberAt i t⟩]
    world := { p.world with failures := p.world.failures.openSink } }) rfl
  refine ⟨log, .head (.start ht hnew hfed) ?_⟩
  rw [hidle]
  refine .head (.tend (w := { p.world with failures := p.world.failures.openSink }) rfl
    (fun _ => rfl)) ?_
  refine Relation.ReflTransGen.trans hsteps ?_
  simp only [hrun]
  have hsplit : [⟨i, .done (.ok state)⟩] =
      ([] : List Flight) ++ ⟨i, .done (.ok state)⟩ :: [] := rfl
  refine .head (.finish hsplit) ?_
  exact .single (.tend rfl (fun _ => rfl))

end Pool

/-! ## One task after the other -/

namespace Schedule

variable {s : Schedule β} {g : TaskGraph β}

/-- The finished tasks of a pool have their states in the table, which has nothing else. -/
structure Entered (s : Schedule β) (g : TaskGraph β) (p : Pool) : Prop where
  completed : ∀ i state, (i, state) ∈ p.completed →
    p.world.states.get? (s.taskName i) = some state
  names : ∀ k state, p.world.states.get? k = some state → ∃ t ∈ g.tasks, t.name = k

/-- Carrying out one more task enters its state, and leaves the others as they are. -/
private theorem Entered.task (hs : s.Serves g) (hnames : (g.tasks.map (·.name)).Nodup)
    {p : Pool} {i : Nat} {t : Task β} {w : World} {state : TaskState} (h : s.Entered g p)
    (ht : g.tasks[i]? = some t) (hnew : i ∉ p.finished)
    (hknown : ∀ j ∈ p.finished, j < g.tasks.length) (hwrites : World.Writes t.name p.world w)
    (log : List (Nat × World)) :
    s.Entered g {
      started := p.started ++ [i]
      inFlight := []
      completed := p.completed ++ [(i, state)]
      world := w.setState (s.taskName i) state
      log := log } := by
  have hname : s.taskName i = t.name := taskName_eq (hs.tasks ▸ ht)
  have hlt : i < g.tasks.length := (List.getElem?_eq_some_iff.1 ht).1
  refine ⟨fun j state' hj => ?_, fun k state' hk => ?_⟩
  · show (w.setState (s.taskName i) state).states.get? (s.taskName j) = some state'
    rw [World.get?_setState]
    rcases List.mem_append.1 hj with hj | hj
    · -- Another task has another name.
      have hjfin : j ∈ p.finished := List.mem_map.2 ⟨_, hj, rfl⟩
      have hne : s.taskName i ≠ s.taskName j := fun heq =>
        hnew (taskName_inj hs hnames hlt (hknown j hjfin) heq ▸ hjfin)
      rw [if_neg hne]
      rcases hwrites (s.taskName j) with hsame | ⟨hk, -⟩
      · exact hsame.trans (h.completed j state' hj)
      · exact absurd (hname.trans hk.symm) hne
    · obtain ⟨rfl, rfl⟩ := Prod.mk.inj (List.mem_singleton.1 hj)
      rw [if_pos rfl]
  · change (w.setState (s.taskName i) state).states.get? k = some state' at hk
    rw [World.get?_setState] at hk
    split at hk
    · next heq => exact ⟨t, List.mem_of_getElem? ht, hname.symm.trans heq⟩
    · rcases hwrites k with hsame | ⟨hkname, -⟩
      · exact h.names k state' (hsame.symm.trans hk)
      · exact ⟨t, List.mem_of_getElem? ht, hkname.symm⟩

/-- Carrying out the rest of an order is a run of the pool. -/
private theorem runs_of_carryOut (hs : s.Serves g) (hnames : (g.tasks.map (·.name)).Nodup)
    (hperform : Execution.LeavesStates s.perform) {w' : World} {is done : List Nat}
    (horder : g.IsOrder (done ++ is)) {p : Pool} (hidle : p.inFlight = [])
    (hstarted : p.started = done) (hfinished : p.finished = done) (hentered : s.Entered g p)
    (hrun : s.carryOut is p.world = (w', .ok ())) :
    ∃ p', Pool.Runs s g p p' ∧ p'.world = w' ∧ p'.finished = done ++ is ∧ s.Entered g p' := by
  induction is generalizing done p with
  | nil =>
    obtain ⟨rfl, -⟩ := Prod.mk.inj hrun
    exact ⟨p, .refl, rfl, by rw [hfinished, List.append_nil], hentered⟩
  | cons i is ih =>
    obtain ⟨hperm, hpairwise⟩ := horder
    have hmem : ∀ j, j ∈ done ++ i :: is ↔ j < g.tasks.length := fun j =>
      hperm.mem_iff.trans List.mem_range
    have hlt : i < g.tasks.length := (hmem i).1 (by simp)
    have hnodup := hperm.nodup_iff.2 List.nodup_range
    have hnew : i ∉ done := fun hi =>
      (List.nodup_append.1 hnodup).2.2 i hi i List.mem_cons_self rfl
    obtain ⟨t, ht⟩ : ∃ t, g.tasks[i]? = some t := ⟨_, List.getElem?_eq_getElem hlt⟩
    have hfiber : s.fiberOf? i = some (s.fiberAt i t) := by
      rw [fiberOf?, hs.tasks, ht]
      rfl
    -- What feeds the task comes before it in the order.
    have hfed : ∀ j, g.Feeds j i → j ∈ p.finished := by
      intro j hj
      rw [hfinished]
      rcases List.mem_append.1 ((hmem j).2 hj.lt) with hdone | hrest
      · exact hdone
      · rcases List.mem_cons.1 hrest with rfl | hrest
        · exact absurd hj (hs.accounts.not_feeds_self j)
        · exact absurd hj ((List.pairwise_cons.1 (List.pairwise_append.1 hpairwise).2.1).1 j hrest)
    rw [carryOut, hfiber] at hrun
    simp only at hrun
    cases hend : (s.fiberAt i t).run { p.world with failures := p.world.failures.openSink } with
    | mk w r =>
      rw [hend] at hrun
      cases r with
      | error e => cases (Prod.mk.inj hrun).2
      | ok state =>
        obtain ⟨log, hruns⟩ :=
          Pool.runs_task hidle ht (hstarted ▸ hnew) hfed hend (s.taskName i)
        have hwrites : World.Writes t.name p.world w := by
          have hall := (Execution.always_execute hperform s.context t
            (s.plan.inputs[i]?.getD ∅)).run (fun _ _ => .inl rfl) (fun _ _ _ => .trans)
            { p.world with failures := p.world.failures.openSink }
          rw [show Execution.execute s.perform s.context t (s.plan.inputs[i]?.getD ∅) =
            s.fiberAt i t from rfl, hend] at hall
          exact hall
        have hknown : ∀ j ∈ p.finished, j < g.tasks.length := fun j hj =>
          (hmem j).1 (List.mem_append_left _ (hfinished ▸ hj))
        have hsplit : done ++ i :: is = (done ++ [i]) ++ is := by simp
        have horder' : g.IsOrder ((done ++ [i]) ++ is) := hsplit ▸ ⟨hperm, hpairwise⟩
        obtain ⟨p', hruns', hworld, hall, hentered'⟩ := ih horder' rfl (by rw [hstarted])
          (by simp [Pool.finished, ← hfinished])
          (hentered.task hs hnames ht (hfinished ▸ hnew) hknown hwrites log) hrun
        exact ⟨p', hruns.trans hruns', hworld, hsplit ▸ hall, hentered'⟩

end Schedule

namespace Engine

variable {perform : Performer β} {g : TaskGraph β} {context : RunContext} {plan : Plan}
  {w w₁ w' : World}

private theorem states_of_prepare (hfresh : w.states = ∅)
    (hprepare : prepare context w = (w₁, .ok ())) : w₁.states = ∅ := by
  unfold prepare at hprepare
  split at hprepare
  · rw [← (Prod.mk.inj hprepare).1]
    exact hfresh
  · cases (Prod.mk.inj hprepare).2

/-- The engine has carried out all tasks in its pool. -/
theorem carried_of_ran (hnames : (g.tasks.map (·.name)).Nodup)
    (hperform : Execution.LeavesStates perform) (hfresh : w.states = ∅)
    (hplan : g.plan = .ok plan) (hprepare : prepare context w = (w₁, .ok ()))
    {log : List (Nat × World)} {p : Progress}
    (hran : (schedule perform g context plan).Ran (fun _ => True)
      ((schedule perform g context plan).begin w₁) log p)
    (hover : Schedule.isOver p = true) (hend : conclude context p = (w', .ok ())) :
    Carried perform g context plan w w₁ w' (Pool.ofProgress log p) := by
  have hs := Schedule.serves_schedule perform context hplan
  have hfault : p.fault = none := by
    cases hfault : p.fault with
    | none => rfl
    | some e => rw [conclude, hfault] at hend; cases (Prod.mk.inj hend).2
  have hconclude : conclude context p = (cleanUp context p.world, .ok ()) := by
    rw [conclude, hfault]
  have hfinished : Schedule.isFinished p = true := by
    rw [Schedule.isOver, hfault] at hover
    exact hover
  have hdone := Schedule.accomplished_of_ran hs hnames hperform
    (states_of_prepare hfresh hprepare) hran hfinished
  have hstates : (conclude (schedule perform g context plan).context p).1.states =
      p.world.states := by
    rw [show (schedule perform g context plan).context = context from rfl, hconclude]
    rfl
  refine {
    planned := hplan
    prepared := hprepare
    runs := ?runs
    cleaned := ?cleaned
    completed := ?completed
    names := ?names }
  case runs =>
    -- Before its first move the engine records the states of the tasks.
    obtain ⟨hfiles, hcell⟩ := Schedule.files_cell_begin (schedule perform g context plan) w₁
    exact .head (.tend hfiles hcell) (Pool.runs_of_ran hs hran hfault)
  case cleaned => exact (Prod.mk.inj (hend.symm.trans hconclude)).1
  case completed =>
    intro i t ht
    obtain ⟨state, hmem, hget⟩ := hdone.states i t ht
    exact ⟨state, hmem, hstates ▸ hget⟩
  case names =>
    intro k state hk
    refine (hdone.keys k).1 ?_
    rw [hstates, SortedMap.mem_keys, SortedMap.contains]
    exact Option.isSome_iff_exists.2 ⟨state, hk⟩

/-- Carrying out all tasks in an order is carrying them out in a pool. -/
private theorem carried_of_carryOut (hnames : (g.tasks.map (·.name)).Nodup)
    (hperform : Execution.LeavesStates perform) (hfresh : w.states = ∅) {order : List Nat}
    (horder : g.IsOrder order) (hplan : g.plan = .ok plan)
    (hprepare : prepare context w = (w₁, .ok ()))
    (hcarried : (schedule perform g context plan).carryOut order w₁ = (w', .ok ())) :
    ∃ p, Carried perform g context plan w w₁ (cleanUp context w') p := by
  have hs := Schedule.serves_schedule perform context hplan
  have hentered : (schedule perform g context plan).Entered g { world := w₁ } := by
    refine ⟨fun i state h => absurd h List.not_mem_nil, fun k state hk => ?_⟩
    rw [states_of_prepare hfresh hprepare] at hk
    cases hk
  have horder' : g.IsOrder ([] ++ order) := horder
  obtain ⟨p, hruns, rfl, hfinished, hentered'⟩ := Schedule.runs_of_carryOut hs hnames hperform
    horder' rfl rfl rfl hentered hcarried
  refine ⟨p, hplan, hprepare, hruns, rfl, fun i t ht => ?_, hentered'.names⟩
  -- The order has all tasks, so all have finished.
  have hi : i ∈ p.finished := by
    rw [hfinished]
    exact horder.1.mem_iff.2 (List.mem_range.2 (List.getElem?_eq_some_iff.1 ht).1)
  obtain ⟨⟨i', state⟩, hmem, rfl⟩ := List.mem_map.1 hi
  refine ⟨state, hmem, ?_⟩
  rw [← Schedule.taskName_eq (s := schedule perform g context plan) ht]
  exact hentered'.completed i' state hmem

/-- The engine's own scheduler is one. -/
theorem isScheduler_scheduler (perform : Performer β) : IsScheduler perform (scheduler perform) :=
  fun g context w => .sideBySide (mayEnd_scheduler perform g context w)

/-- Every run that succeeds has carried out all tasks in one pool. -/
theorem exists_carried (hnames : (g.tasks.map (·.name)).Nodup)
    (hperform : Execution.LeavesStates perform) (hfresh : w.states = ∅)
    (h : CarriesOut perform g context w (w', .ok ())) :
    ∃ plan w₁ p, Carried perform g context plan w w₁ w' p := by
  -- Either scheduler succeeds only after the plan, the preparation and all tasks.
  generalize hend : (w', Except.ok ()) = r at h
  cases h with
  | sideBySide h =>
    cases h with
    | unplanned => cases (Prod.mk.inj hend).2
    | unprepared => cases (Prod.mk.inj hend).2
    | @carriedOut plan w₁ log p hplan hprepare hran hover =>
      exact ⟨plan, w₁, Pool.ofProgress log p,
        carried_of_ran hnames hperform hfresh hplan hprepare hran hover hend.symm⟩
  | @oneByOne order horder =>
    rw [oneByOne] at hend
    cases hplan : g.plan with
    | error e => rw [hplan] at hend; cases (Prod.mk.inj hend).2
    | ok plan =>
      rw [hplan] at hend
      simp only at hend
      cases hprepare : prepare context w with
      | mk w₁ r =>
        rw [hprepare] at hend
        cases r with
        | error e => cases (Prod.mk.inj hend).2
        | ok u =>
          simp only at hend
          cases hcarried : (schedule perform g context plan).carryOut order w₁ with
          | mk w₂ r =>
            rw [hcarried] at hend
            cases r with
            | error e => cases (Prod.mk.inj hend).2
            | ok u =>
              obtain ⟨p, hp⟩ := carried_of_carryOut hnames hperform hfresh horder hplan hprepare
                hcarried
              exact ⟨plan, w₁, p, (Prod.mk.inj hend).1 ▸ hp⟩

end Engine

end BlockFlow
