import BlockFlow.Proofs.Engine.Stages

/-!
# What a run records

Two records are kept while tasks are carried out. The log has the steps that were taken,
and `Schedule.Recorded` says that the steps of a task in flight have led from its
execution to what is left of it. The state table is written by the engine and by the
tasks, each under its own name, and `Schedule.Tabled` says what stands in it.

## Key results

- `recorded_of_ran`: a completed task has gone through its whole execution
- `tabled_of_ran`: a completed task has in the table the state that its execution gave
- `leavesStates_perform`: compiled tasks do not touch the table
-/

namespace BlockFlow

/-- A behaviour sees its ports, its files and its failure sink; the state table is not
among them. -/
def Execution.LeavesStates {β : Type} (perform : Performer β) : Prop :=
  ∀ work run, (perform work run).run.Always (fun w w' => w'.states = w.states)

namespace Schedule

variable {β : Type} {s : Schedule β} {g : TaskGraph β}

/-! ## The log -/

/-- The steps in the log have led from the executions of the tasks to where they are. -/
structure Recorded (s : Schedule β) (log : List (Nat × World)) (p : Progress) : Prop where
  inFlight : ∀ f ∈ p.inFlight, ∃ t, s.tasks[f.index]? = some t ∧
    (s.fiberAt f.index t).Leaves (worldsOf log f.index) f.fiber
  completed : ∀ i state, (i, state) ∈ p.completed → ∃ t, s.tasks[i]? = some t ∧
    (s.fiberAt i t).Ends (worldsOf log i) (.ok state)
  waiting : ∀ i, i ∉ p.started → worldsOf log i = []

/-- What the log says of the tasks, stage by stage. -/
private def logStages (s : Schedule β) : Stages where
  common _ := True
  waiting _ _ := True
  inFlight i ws fiber _ := ∃ t, s.tasks[i]? = some t ∧ (s.fiberAt i t).Leaves ws fiber
  completed i ws state _ := ∃ t, s.tasks[i]? = some t ∧ (s.fiberAt i t).Ends ws (.ok state)

private theorem kept_logStages (s : Schedule β) : (logStages s).Kept s where
  start _ t _ ht _ := ⟨t, ht, Fiber.leaves_refl _⟩
  advance _ _ _ _ _ w := fun ⟨t, ht, hleaves⟩ => ⟨t, ht, hleaves.step w⟩
  join _ _ _ _ := fun ⟨t, ht, hleaves⟩ => ⟨t, ht, hleaves.ends⟩
  others _ _ _ _ _ _ _ _ _ := ⟨id, fun _ _ => id, fun _ _ => id⟩
  engine _ _ _ _ _ := ⟨id, fun _ _ => id, fun _ _ => id⟩
  commonStep _ _ _ _ _ _ _ := id
  commonEngine _ _ _ _ := id

/-- The log of a run is a record of it. -/
theorem recorded_of_ran (hs : s.Serves g) {P : Progress → Prop} {w : World} {p : Progress}
    {log : List (Nat × World)} (h : s.Ran P (s.begin w) log p) : s.Recorded log p := by
  have hholds := Stages.holds_of_ran hs (kept_logStages s) trivial (fun _ => trivial) h
  exact ⟨hholds.inFlight, hholds.completed, fun i hi => (hholds.waiting i hi).1⟩

end Schedule

/-! ## The state table -/

namespace World

/-- A step writes nothing to the state table but a state of the task `name`. -/
def Writes (name : String) (w w' : World) : Prop :=
  ∀ k, w'.states.get? k = w.states.get? k ∨ (k = name ∧ (w'.states.get? k).isSome)

theorem writes_of_states_eq {name : String} {w w' : World} (h : w'.states = w.states) :
    Writes name w w' :=
  fun _ => .inl (by rw [h])

theorem get?_setState (w : World) (name : String) (state : TaskState) (k : String) :
    (w.setState name state).states.get? k = if name = k then some state else w.states.get? k :=
  SortedMap.get?_insert _ _ _ _

theorem get?_setStates (w : World) (names : List String) (state : TaskState) (k : String) :
    (w.setStates names state).states.get? k =
      if k ∈ names then some state else w.states.get? k := by
  induction names generalizing w with
  | nil => simp [setStates]
  | cons name names ih =>
    show ((w.setState name state).setStates names state).states.get? k = _
    rw [ih, get?_setState]
    by_cases hmem : k ∈ names
    · simp [hmem]
    · by_cases hk : name = k
      · simp [hk]
      · have hk' : k ≠ name := fun h => hk h.symm
        simp [hmem, hk, hk']

end World

namespace Execution

variable {β : Type}

/-- An execution writes to the state table under the name of its task only. -/
theorem always_execute {perform : Performer β} (hperform : LeavesStates perform)
    (context : RunContext) (task : Task β) (inputs : NameMap (Option Path)) :
    (execute perform context task inputs).Always (World.Writes task.name) := by
  rw [execute_eq]
  refine Fiber.always_bind (Fiber.always_act ?_) (fun _ => ?_)
  · intro w k
    rw [World.get?_setState]
    by_cases hk : task.name = k
    · exact .inr ⟨hk.symm, by rw [if_pos hk]; rfl⟩
    · exact .inl (by rw [if_neg hk])
  -- After the first step nothing is entered in the table.
  have hfiles : ∀ (w : World) files, World.Writes task.name w { w with files } :=
    fun _ _ => World.writes_of_states_eq rfl
  refine Fiber.always_bind (Fiber.always_onFiles hfiles _) (fun made => ?_)
  refine Fiber.always_bind (always_inScratch hfiles (fun run =>
    (hperform task.work run).mono (fun _ _ => World.writes_of_states_eq)) made) (fun _ => ?_)
  exact Fiber.always_bind (Fiber.always_act (fun w => World.writes_of_states_eq rfl))
    (fun _ => Fiber.always_pure _ _)

end Execution

namespace Schedule

variable {β : Type} {s : Schedule β} {g : TaskGraph β}

theorem taskName_eq {i : Nat} {t : Task β} (h : s.tasks[i]? = some t) : s.taskName i = t.name := by
  simp [taskName, h]

/-- A task's name is one of those of the task graph. -/
theorem taskName_mem (hs : s.Serves g) {i : Nat} (hi : i < g.tasks.length) :
    s.taskName i ∈ g.tasks.map (·.name) := by
  rw [← hs.tasks] at hi ⊢
  rw [taskName_eq (List.getElem?_eq_getElem hi)]
  exact List.mem_map_of_mem (List.getElem_mem hi)

/-- Where names are distinct, so are the positions of tasks of different names. -/
theorem taskName_inj (hs : s.Serves g) (hnames : (g.tasks.map (·.name)).Nodup) {i j : Nat}
    (hi : i < g.tasks.length) (hj : j < g.tasks.length) (h : s.taskName i = s.taskName j) :
    i = j := by
  have hname : ∀ k (hk : k < g.tasks.length),
      (g.tasks.map (·.name))[k]? = some (s.taskName k) := by
    intro k hk
    obtain ⟨t, ht⟩ : ∃ t, g.tasks[k]? = some t := ⟨_, List.getElem?_eq_getElem hk⟩
    rw [List.getElem?_map, ht, Option.map_some, taskName_eq (hs.tasks ▸ ht)]
  have hlt : i < (g.tasks.map (·.name)).length := by rwa [List.length_map]
  exact (List.getElem?_inj hlt hnames).1 (by rw [hname i hi, hname j hj, h])

/-- What stands in the state table, which was that of `w` at first. -/
structure Tabled (s : Schedule β) (g : TaskGraph β) (w : World) (p : Progress) : Prop where
  others : ∀ k, k ∉ g.tasks.map (·.name) → p.world.states.get? k = w.states.get? k
  names : ∀ k ∈ g.tasks.map (·.name), (p.world.states.get? k).isSome
  completed : ∀ i state, (i, state) ∈ p.completed →
    p.world.states.get? (s.taskName i) = some state
  inFlight : ∀ f ∈ p.inFlight, f.fiber.Always (World.Writes (s.taskName f.index))

theorem tabled_begin (s : Schedule β) (hs : s.Serves g) (w : World) :
    s.Tabled g w (s.begin w) := by
  -- All tasks are entered as pending first, and then those that wait for nothing as runnable.
  have hget : ∀ k, (s.begin w).world.states.get? k =
      if k ∈ (Plan.readyAt s.plan.remaining).map s.taskName then some .runnable
      else if k ∈ s.tasks.map (·.name) then some .pending else w.states.get? k := by
    intro k
    rw [← World.get?_setStates w, ← World.get?_setStates]
    rfl
  refine ⟨?_, ?_, fun i state hi => absurd hi List.not_mem_nil,
    fun f hf => absurd hf List.not_mem_nil⟩
  · intro k hk
    have hready : k ∉ (Plan.readyAt s.plan.remaining).map s.taskName := by
      intro hmem
      obtain ⟨i, hi, rfl⟩ := List.mem_map.1 hmem
      exact hk (taskName_mem hs (hs.accounts.length ▸ (balanced_begin hs w).lt_of_ready hi))
    rw [hget, if_neg hready, hs.tasks, if_neg hk]
  · intro k hk
    rw [hget, hs.tasks, if_pos hk]
    split <;> rfl

/-! ### What keeps it -/

section

variable {w : World} {p : Progress} {slot i : Nat}

theorem lt_tasks (hs : s.Serves g) (hb : s.Balanced g p) (hi : i ∈ p.started) :
    i < g.tasks.length :=
  hs.accounts.length ▸ hb.lt_of_started hi

/-- A task in flight and one that is finished have different names. -/
private theorem taskName_ne (hs : s.Serves g) (hnames : (g.tasks.map (·.name)).Nodup)
    (hb : s.Balanced g p) {f : Flight} (hf : f ∈ p.inFlight) {k : Nat} (hk : k ∈ p.finished) :
    s.taskName f.index ≠ s.taskName k := by
  intro hsame
  have hfk := taskName_inj hs hnames (lt_tasks hs hb (hb.started_of_inFlight hf))
    (lt_tasks hs hb (hb.started_of_finished hk)) hsame
  exact hb.not_finished hf (hfk ▸ hk)

private theorem Tabled.start (hperform : Execution.LeavesStates s.perform)
    (h : s.Tabled g w p) {t : Task β} (ht : s.tasks[i]? = some t) {ready : List Nat} :
    s.Tabled g w { p with
      ready
      inFlight := p.inFlight ++ [⟨i, s.fiberAt i t⟩]
      started := p.started ++ [i]
      world := { p.world with failures := p.world.failures.openSink } } := by
  refine ⟨h.others, h.names, h.completed, fun f hf => ?_⟩
  rcases List.mem_append.1 hf with hf | hf
  · exact h.inFlight f hf
  · obtain rfl := List.mem_singleton.1 hf
    rw [taskName_eq ht]
    exact Execution.always_execute hperform _ _ _

/-- A task that takes a step writes under its own name. -/
private theorem Tabled.advance (hs : s.Serves g) (hnames : (g.tasks.map (·.name)).Nodup)
    (hb : s.Balanced g p) (h : s.Tabled g w p) {γ : Type} {act : World → World × γ}
    {next : γ → Fiber World (Except ExecutionError TaskState)}
    (hslot : p.inFlight[slot]? = some ⟨i, .step act next⟩) :
    s.Tabled g w { p with
      inFlight := p.inFlight.set slot ⟨i, next (act p.world).2⟩
      world := (act p.world).1 } := by
  have hmem := List.mem_of_getElem? hslot
  obtain ⟨hwrites, hnext⟩ := h.inFlight _ hmem
  -- The step writes at most the entry of its own task.
  refine ⟨fun k hk => ?others, fun k hk => ?named, fun k state hk => ?completed,
    fun f hf => ?inFlight⟩
  case others =>
    rcases hwrites p.world k with heq | ⟨rfl, -⟩
    · exact heq.trans (h.others k hk)
    · exact absurd (taskName_mem hs (lt_tasks hs hb (hb.started_of_inFlight hmem))) hk
  case named =>
    rcases hwrites p.world k with heq | ⟨-, hsome⟩
    · exact (congrArg Option.isSome heq).trans (h.names k hk)
    · exact hsome
  case completed =>
    rcases hwrites p.world (s.taskName k) with heq | ⟨hsame, -⟩
    · exact heq.trans (h.completed k state hk)
    · exact absurd hsame.symm (taskName_ne hs hnames hb hmem (List.mem_map_of_mem hk))
  case inFlight =>
    rcases List.mem_or_eq_of_mem_set hf with hf | rfl
    · exact h.inFlight f hf
    · exact hnext _

/-- What a task releases waits for the queue, and has neither been started nor finished. -/
theorem of_released (hs : s.Serves g) (hb : s.Balanced g p) {f : Flight}
    (hf : f ∈ p.inFlight) {j : Nat}
    (hj : j ∈ (Plan.release p.remaining (s.plan.dependents[f.index]?.getD [])).2) :
    j < g.tasks.length ∧ j ∉ p.started := by
  rw [hb.remaining, hs.accounts.dependents f.index (hb.lt_of_started (hb.started_of_inFlight hf)),
    Plan.mem_release_waiting g.nodup_producersAt (hb.not_finished hf)] at hj
  refine ⟨hs.accounts.length ▸ hj.1, fun hstarted => hj.2.2 ?_⟩
  exact ((hb.frontier.mem_iff j).1 (List.mem_append_left _ hstarted)).2

/-- A task that is joined has the state that it has come to, and what it releases is runnable. -/
private theorem Tabled.join (hs : s.Serves g) (hnames : (g.tasks.map (·.name)).Nodup)
    (hb : s.Balanced g p) (h : s.Tabled g w p) {state : TaskState}
    (hslot : p.inFlight[slot]? = some ⟨i, .done (.ok state)⟩) :
    s.Tabled g w (s.complete { p with inFlight := p.inFlight.eraseIdx slot } i state) := by
  have hmem := List.mem_of_getElem? hslot
  have hstarted : i ∈ p.started := hb.started_of_inFlight hmem
  generalize hreleased : (Plan.release p.remaining (s.plan.dependents[i]?.getD [])).2 = released
  have hget : ∀ k, (s.complete { p with inFlight := p.inFlight.eraseIdx slot }
        i state).world.states.get? k =
      if k ∈ released.map s.taskName then some .runnable
      else if s.taskName i = k then some state else p.world.states.get? k := by
    intro k
    rw [← World.get?_setState, ← World.get?_setStates, ← hreleased]
    rfl
  have hwaits : ∀ j ∈ released, j < g.tasks.length ∧ j ∉ p.started :=
    fun j hj => of_released hs hb hmem (hreleased ▸ hj)
  -- What is released waits, so its entries are none of those of started tasks.
  have hapart : ∀ j ∈ p.started, s.taskName j ∉ released.map s.taskName := by
    intro j hj hmemj
    obtain ⟨k, hk, hsame⟩ := List.mem_map.1 hmemj
    have hkj := taskName_inj hs hnames (hwaits k hk).1 (lt_tasks hs hb hj) hsame
    exact (hwaits k hk).2 (hkj ▸ hj)
  refine ⟨fun k hk => ?others, fun k hk => ?named, fun k state' hk => ?completed,
    fun f hf => h.inFlight f (List.mem_of_mem_eraseIdx hf)⟩
  case others =>
    have hreleasedk : k ∉ released.map s.taskName := by
      intro hmemk
      obtain ⟨j, hj, rfl⟩ := List.mem_map.1 hmemk
      exact hk (taskName_mem hs (hwaits j hj).1)
    have hik : s.taskName i ≠ k :=
      fun hik => hk (hik ▸ taskName_mem hs (lt_tasks hs hb hstarted))
    rw [hget, if_neg hreleasedk, if_neg hik]
    exact h.others k hk
  case named =>
    rw [hget]
    split
    · rfl
    · split
      · rfl
      · exact h.names k hk
  case completed =>
    rcases List.mem_append.1 hk with hk | hk
    · have hfin : k ∈ p.finished := List.mem_map_of_mem hk
      rw [hget, if_neg (hapart k (hb.started_of_finished hfin)),
        if_neg (taskName_ne hs hnames hb hmem hfin)]
      exact h.completed k state' hk
    · obtain ⟨rfl, rfl⟩ := Prod.mk.inj (List.mem_singleton.1 hk)
      rw [hget, if_neg (hapart k hstarted), if_pos rfl]

end

theorem Tabled.move (hs : s.Serves g) (hnames : (g.tasks.map (·.name)).Nodup)
    (hperform : Execution.LeavesStates s.perform) {w : World} {p q : Progress} {m : Move}
    (hb : s.Balanced g p) (h : s.Tabled g w p) (hm : s.Moved p m q) : s.Tabled g w q := by
  cases hm with
  | start _ _ ht => exact h.start hperform ht
  | advance hslot => exact h.advance hs hnames hb hslot
  | join _ hslot => exact h.join hs hnames hb hslot
  | abort => exact ⟨h.others, h.names, h.completed, fun f hf => absurd hf List.not_mem_nil⟩
  | receive => exact ⟨h.others, h.names, h.completed, h.inFlight⟩

/-- The state table of a run is up to date. -/
theorem tabled_of_ran (hs : s.Serves g) (hnames : (g.tasks.map (·.name)).Nodup)
    (hperform : Execution.LeavesStates s.perform) {P : Progress → Prop} {w : World}
    {p : Progress} {log : List (Nat × World)} (h : s.Ran P (s.begin w) log p) :
    s.Tabled g w p := by
  have hboth := h.invariant (I := fun _ p => s.Balanced g p ∧ s.Tabled g w p)
    ⟨balanced_begin hs w, tabled_begin s hs w⟩
    (fun _ _ _ _ _ hp hfault hm _ =>
      ⟨hp.1.move hs hfault hm, hp.2.move hs hnames hperform hp.1 hm⟩)
  exact hboth.2

end Schedule

/-! ## Compiled tasks -/

/-- Compiled tasks do not touch the state table, whatever their commands do to the files. -/
theorem leavesStates_perform (launcher : Launcher) :
    Execution.LeavesStates (Work.perform launcher) :=
  fun work run => work.always_perform (fun _ _ => rfl) (fun _ _ _ _ => rfl) run

end BlockFlow
