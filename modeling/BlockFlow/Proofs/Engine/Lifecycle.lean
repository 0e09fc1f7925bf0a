import BlockFlow.Proofs.Engine.Completion
import BlockFlow.Proofs.Plan.Cycles

/-!
# The life of a task

The state table is written by the engine and by the tasks in flight. `Schedule.Enters` goes through
a run and keeps what is entered in the table, entry by entry, and `Schedule.Lifecycle` says what has
been entered for each task when it has come so far: it is pending, then runnable, then running, and
then in the state that it has come to, each of them once. Beside it stand the counts and the queue,
from which it follows how far each task has come.

## Key results

- `Schedule.chronicled_of_enters`: what has been entered for each task, by how far it has come
- `Work.isFinal_of_ends`: the work of a compiled task comes to a final state
- `tasks_live_in_order`: every reachable state of a run, whatever the order of its moves
-/

namespace BlockFlow

/-- A behaviour comes to a final state, if it comes to a state at all. -/
def Execution.EndsFinal {β : Type} (perform : Performer β) : Prop :=
  ∀ work run ws state, (perform work run).run.Ends ws (.ok state) → state.isFinal = true

namespace Schedule

variable {β : Type} {s : Schedule β} {g : TaskGraph β}

/-! ## Entries -/

/-- The states that have been entered for a name, in order. -/
def statesOf (es : List (String × TaskState)) (name : String) : List TaskState :=
  (es.filter (fun e => e.1 = name)).map (·.2)

/-- What is entered at the beginning of a run. -/
def opening (s : Schedule β) : List (String × TaskState) :=
  s.tasks.map (fun t => (t.name, .pending)) ++
    (Plan.readyAt s.plan.remaining).map (fun i => (s.taskName i, .runnable))

/-- What a move enters in the state table. A step of a task enters what stands in the table after
it if nothing stood there before. -/
def entered (s : Schedule β) (p : Progress) : Move → List (String × TaskState)
  | .advance slot =>
    match p.inFlight[slot]? with
    | some ⟨_, .step act _⟩ => (act { p.world with states := ∅ }).1.states.toList
    | _ => []
  | .join slot =>
    match p.inFlight[slot]? with
    | some ⟨i, .done (.ok state)⟩ =>
      (s.taskName i, state) :: (Plan.release p.remaining (s.plan.dependents[i]?.getD [])).2.map
        (fun j => (s.taskName j, .runnable))
    | _ => []
  | _ => []

/-- Possible moves lead from the beginning of a run to a progress, and this has been entered in the
state table on the way. -/
inductive Enters (s : Schedule β) (w : World) : List (String × TaskState) → Progress → Prop
  | begin : Enters s w s.opening (s.begin w)
  | move {es : List (String × TaskState)} {p q : Progress} (m : Move) (hp : Enters s w es p)
      (hm : s.move? p m = some q) : Enters s w (es ++ s.entered p m) q

/-- Every run enters something. -/
theorem Ran.exists_enters {P : Progress → Prop} {w : World} {log : List (Nat × World)}
    {p : Progress} (h : s.Ran P (s.begin w) log p) : ∃ es, s.Enters w es p := by
  induction h with
  | begin => exact ⟨_, .begin⟩
  | move m _ hm _ ih =>
    obtain ⟨es, hes⟩ := ih
    exact ⟨_, .move m hes hm⟩

theorem Enters.exists_ran {w : World} {es : List (String × TaskState)} {p : Progress}
    (h : s.Enters w es p) : ∃ log, s.Ran (fun _ => True) (s.begin w) log p := by
  induction h with
  | begin => exact ⟨_, .begin trivial⟩
  | move m _ hm ih =>
    obtain ⟨log, hran⟩ := ih
    exact ⟨_, .move m hran hm trivial⟩

@[simp] theorem statesOf_append (es es' : List (String × TaskState)) (name : String) :
    statesOf (es ++ es') name = statesOf es name ++ statesOf es' name := by
  simp [statesOf]

@[simp] theorem statesOf_nil (name : String) : statesOf [] name = [] := rfl

theorem statesOf_cons (e : String × TaskState) (es : List (String × TaskState)) (name : String) :
    statesOf (e :: es) name = (if e.1 = name then [e.2] else []) ++ statesOf es name := by
  by_cases h : e.1 = name <;> simp [statesOf, h]

/-- Where the tasks of a list all get the same state, a task gets it once if it is among them. -/
theorem statesOf_map (hs : s.Serves g) (hnames : (g.tasks.map (·.name)).Nodup) {is : List Nat}
    (his : is.Nodup) (hlt : ∀ i ∈ is, i < g.tasks.length) (state : TaskState) {j : Nat}
    (hj : j < g.tasks.length) :
    statesOf (is.map (fun i => (s.taskName i, state))) (s.taskName j) =
      if j ∈ is then [state] else [] := by
  induction is with
  | nil => rfl
  | cons i is ih =>
    obtain ⟨hi, his⟩ := List.nodup_cons.1 his
    have hrest := ih his (fun k hk => hlt k (List.mem_cons_of_mem _ hk))
    rw [List.map_cons, statesOf_cons, hrest]
    by_cases hij : j = i
    · simp [hij, hi]
    · have hne : s.taskName i ≠ s.taskName j := fun heq =>
        hij (taskName_inj hs hnames (hlt i List.mem_cons_self) hj heq).symm
      simp [hij, hne]

/-! ## The table -/

theorem states_setStates {α : Type} (w : World) (as : List α) (name : α → String)
    (state : TaskState) :
    (w.setStates (as.map name) state).states =
      (as.map (fun a => (name a, state))).foldl (fun m e => m.insert e.1 e.2) w.states := by
  induction as generalizing w with
  | nil => rfl
  | cons a as ih => exact ih (w.setState (name a) state)

/-! ## Steps -/

/-- The fiber leaves the state table alone. -/
abbrev Silent (fiber : Fiber World (Except ExecutionError TaskState)) : Prop :=
  fiber.Always (fun w w' => w'.states = w.states)

/-- The fiber enters first that its task is running, and then leaves the state table alone. -/
def Announces (name : String) : Fiber World (Except ExecutionError TaskState) → Prop
  | .done _ => False
  | .step act next =>
    (∀ w, (act w).1.states = w.states.insert name .running) ∧ ∀ b, Silent (next b)

theorem announces_bind {name : String}
    {f : Unit → Fiber World (Except ExecutionError TaskState)} (hf : Silent (f ())) :
    Announces name (Fiber.change (·.setState name .running) >>= f) :=
  ⟨fun _ => rfl, fun _ => hf⟩

theorem announces_fiberAt (hperform : Execution.LeavesStates s.perform) (i : Nat) (t : Task β) :
    Announces t.name (s.fiberAt i t) := by
  have hfiles : ∀ (w : World) files, ({ w with files } : World).states = w.states := fun _ _ => rfl
  unfold fiberAt
  rw [Execution.execute_eq]
  refine announces_bind (Fiber.always_bind (Fiber.always_onFiles hfiles _) (fun made => ?_))
  refine Fiber.always_bind
    (Execution.always_inScratch hfiles (fun run => hperform t.work run) made) (fun _ => ?_)
  exact Fiber.always_bind (Fiber.always_act (fun _ => rfl)) (fun _ => Fiber.always_pure _ _)

/-- A step enters what it adds to the table. -/
theorem entered_advance {p : Progress} {slot i : Nat} {γ : Type} {act : World → World × γ}
    {next : γ → Fiber World (Except ExecutionError TaskState)}
    (hslot : p.inFlight[slot]? = some ⟨i, .step act next⟩) :
    s.entered p (.advance slot) = (act { p.world with states := ∅ }).1.states.toList := by
  simp only [entered, hslot]

theorem entered_join {p : Progress} {slot i : Nat} {state : TaskState}
    (hslot : p.inFlight[slot]? = some ⟨i, .done (.ok state)⟩) :
    s.entered p (.join slot) = (s.taskName i, state) ::
      (Plan.release p.remaining (s.plan.dependents[i]?.getD [])).2.map
        (fun j => (s.taskName j, .runnable)) := by
  simp only [entered, hslot]

/-! ## What has been entered -/

/-- What has been entered for each task, by how far it has come. -/
structure Chronicled (s : Schedule β) (g : TaskGraph β) (w : World)
    (es : List (String × TaskState)) (p : Progress) : Prop where
  /-- The table is that of the beginning, with the entries. -/
  table : p.world.states = es.foldl (fun m e => m.insert e.1 e.2) w.states
  waiting : ∀ i < g.tasks.length, i ∉ p.started → i ∉ p.ready →
    statesOf es (s.taskName i) = [.pending]
  ready : ∀ i ∈ p.ready, statesOf es (s.taskName i) = [.pending, .runnable]
  inFlight : ∀ f ∈ p.inFlight,
    (statesOf es (s.taskName f.index) = [.pending, .runnable] ∧
      Announces (s.taskName f.index) f.fiber) ∨
    (statesOf es (s.taskName f.index) = [.pending, .runnable, .running] ∧ Silent f.fiber)
  /-- What has been started and is not in flight any more may have been given up. -/
  unfinished : ∀ i ∈ p.started, i ∉ p.finished →
    statesOf es (s.taskName i) = [.pending, .runnable] ∨
      statesOf es (s.taskName i) = [.pending, .runnable, .running]
  completed : ∀ i state, (i, state) ∈ p.completed →
    statesOf es (s.taskName i) = [.pending, .runnable, .running, state]

variable {w : World} {es : List (String × TaskState)} {p q : Progress} {slot i : Nat}

theorem chronicled_begin (hs : s.Serves g) (hnames : (g.tasks.map (·.name)).Nodup) :
    s.Chronicled g w s.opening (s.begin w) := by
  have hb := balanced_begin hs w
  have hready : ∀ i ∈ (s.begin w).ready, i < g.tasks.length :=
    fun i hi => hs.accounts.length ▸ hb.lt_of_ready hi
  have hnodup : (Plan.readyAt s.plan.remaining).Nodup := List.nodup_range.filter _
  -- The tasks in their order are the tasks at their positions.
  have hpending : s.tasks.map (fun t => (t.name, TaskState.pending)) =
      (List.range g.tasks.length).map (fun i => (s.taskName i, TaskState.pending)) := by
    apply List.ext_getElem?
    intro i
    rw [hs.tasks, List.getElem?_map, List.getElem?_map]
    cases ht : g.tasks[i]? with
    | none =>
      have hi : ¬i < g.tasks.length := by simpa using ht
      simp [hi]
    | some t =>
      have hi := (List.getElem?_eq_some_iff.1 ht).1
      have hname : s.taskName i = t.name := taskName_eq (by rw [hs.tasks, ht])
      simp [hi, hname]
  have hstates : ∀ i < g.tasks.length, statesOf s.opening (s.taskName i) =
      [.pending] ++ if i ∈ (s.begin w).ready then [.runnable] else [] := by
    intro i hi
    rw [opening, statesOf_append, hpending,
      statesOf_map hs hnames List.nodup_range (fun i hi => List.mem_range.1 hi) _ hi,
      statesOf_map hs hnames hnodup hready _ hi, if_pos (List.mem_range.2 hi)]
    rfl
  refine {
    table := ?table
    waiting := fun i hi _ hnot => by rw [hstates i hi, if_neg hnot]; rfl
    ready := fun i hi => by rw [hstates i (hready i hi), if_pos hi]; rfl
    inFlight := fun f hf => absurd hf List.not_mem_nil
    unfinished := fun i hi => absurd hi List.not_mem_nil
    completed := fun i state hi => absurd hi List.not_mem_nil }
  show ((w.setStates (s.tasks.map (·.name)) .pending).setStates _ .runnable).states = _
  rw [states_setStates, states_setStates, opening, List.foldl_append]

section

variable (hs : s.Serves g) (hnames : (g.tasks.map (·.name)).Nodup) (hb : s.Balanced g p)
  (h : s.Chronicled g w es p)

include hs hnames in
/-- An entry of one task is none of another one. -/
theorem statesOf_of_ne {j : Nat} (hi : i < g.tasks.length) (hj : j < g.tasks.length) (hij : j ≠ i)
    (state : TaskState) : statesOf [(s.taskName i, state)] (s.taskName j) = [] := by
  have hne : s.taskName i ≠ s.taskName j := fun heq => hij (taskName_inj hs hnames hi hj heq).symm
  simp [statesOf_cons, hne]

include hs hnames in
/-- What a task gets that is joined, or is released by the one that is joined. -/
theorem statesOf_joined {released : List Nat} (hnodup : released.Nodup)
    (hreleased : ∀ j ∈ released, j < g.tasks.length) (hi : i < g.tasks.length) {j : Nat}
    (hj : j < g.tasks.length) {state : TaskState} :
    statesOf ((s.taskName i, state) :: released.map (fun j => (s.taskName j, .runnable)))
      (s.taskName j) = (if j = i then [state] else []) ++
        if j ∈ released then [.runnable] else [] := by
  rw [statesOf_cons, statesOf_map hs hnames hnodup hreleased _ hj]
  by_cases hji : j = i
  · simp [hji]
  · have hne : s.taskName i ≠ s.taskName j :=
      fun heq => hji (taskName_inj hs hnames hi hj heq).symm
    simp [hji, hne]

include h in
theorem Chronicled.start (hperform : Execution.LeavesStates s.perform) {t : Task β}
    {ready : List Nat} (hready : p.ready = i :: ready) (ht : s.tasks[i]? = some t) :
    s.Chronicled g w es { p with
      ready
      inFlight := p.inFlight ++ [⟨i, s.fiberAt i t⟩]
      started := p.started ++ [i]
      world := { p.world with failures := p.world.failures.openSink } } := by
  have hi : i ∈ p.ready := by rw [hready]; exact List.mem_cons_self
  have hstates := h.ready i hi
  -- The task that starts leaves the queue; that it is running is entered only by its first step.
  refine {
    table := h.table
    waiting := fun j hj hstarted hqueued => ?waiting
    ready := fun j hj => h.ready j (by rw [hready]; exact List.mem_cons_of_mem _ hj)
    inFlight := fun f hf => ?inFlight
    unfinished := fun j hj hfinished => ?unfinished
    completed := h.completed }
  case waiting =>
    have hji : j ≠ i := fun heq => hstarted (by simp [heq])
    refine h.waiting j hj (fun hmem => hstarted (List.mem_append_left _ hmem)) (fun hmem => ?_)
    rw [hready] at hmem
    exact (List.mem_cons.1 hmem).elim hji hqueued
  case inFlight =>
    rcases List.mem_append.1 hf with hf | hf
    · exact h.inFlight f hf
    · obtain rfl := List.mem_singleton.1 hf
      rw [taskName_eq ht] at hstates ⊢
      exact .inl ⟨hstates, announces_fiberAt hperform i t⟩
  case unfinished =>
    rcases List.mem_append.1 hj with hj | hj
    · exact h.unfinished j hj hfinished
    · obtain rfl := List.mem_singleton.1 hj
      exact .inl hstates

include hs hb h in
/-- A step after which a task is running enters nothing for other tasks. -/
theorem Chronicled.advance {γ : Type} {act : World → World × γ}
    {next : γ → Fiber World (Except ExecutionError TaskState)}
    (hslot : p.inFlight[slot]? = some ⟨i, .step act next⟩) {new : List (String × TaskState)}
    (hothers : ∀ j < g.tasks.length, j ≠ i → statesOf new (s.taskName j) = [])
    (htable : (act p.world).1.states =
      new.foldl (fun m e => m.insert e.1 e.2) p.world.states)
    (hself : statesOf (es ++ new) (s.taskName i) = [.pending, .runnable, .running])
    (hnext : ∀ b, Silent (next b)) :
    s.Chronicled g w (es ++ new) { p with
      inFlight := p.inFlight.set slot ⟨i, next (act p.world).2⟩
      world := (act p.world).1 } := by
  have hmem := List.mem_of_getElem? hslot
  have hstarted : i ∈ p.started := hb.started_of_inFlight hmem
  have hsame : ∀ j < g.tasks.length, j ≠ i →
      statesOf (es ++ new) (s.taskName j) = statesOf es (s.taskName j) := by
    intro j hj hji
    rw [statesOf_append, hothers j hj hji, List.append_nil]
  refine {
    table := ?table
    waiting := fun j hj hnot hqueued => ?waiting
    ready := fun j hj => ?ready
    inFlight := fun f hf => ?inFlight
    unfinished := fun j hj hfinished => ?unfinished
    completed := fun j state hj => ?completed }
  case table => rw [List.foldl_append, ← h.table]; exact htable
  case waiting =>
    rw [hsame j hj (fun heq => hnot (heq ▸ hstarted))]
    exact h.waiting j hj hnot hqueued
  case ready =>
    have hlt : j < g.tasks.length := hs.accounts.length ▸ hb.lt_of_ready hj
    rw [hsame j hlt (fun heq => hb.not_started hj (heq ▸ hstarted))]
    exact h.ready j hj
  case inFlight =>
    obtain ⟨k, hk⟩ := List.getElem?_of_mem hf
    change (p.inFlight.set slot _)[k]? = some f at hk
    rw [List.getElem?_set] at hk
    split at hk
    · split at hk
      · obtain rfl := Option.some.inj hk
        exact .inr ⟨hself, hnext _⟩
      · cases hk
    · next hne =>
      -- Another slot has another task.
      have hf' := List.mem_of_getElem? hk
      rw [hsame f.index (lt_tasks hs hb (hb.started_of_inFlight hf'))
        (fun heq => hne (hb.slot_eq hslot hk heq.symm))]
      exact h.inFlight f hf'
  case unfinished =>
    by_cases hji : j = i
    · rw [hji]
      exact .inr hself
    · rw [hsame j (lt_tasks hs hb hj) hji]
      exact h.unfinished j hj hfinished
  case completed =>
    have hfinished : j ∈ p.finished := List.mem_map_of_mem hj
    rw [hsame j (lt_tasks hs hb (hb.started_of_finished hfinished))
      (fun heq => hb.not_finished hmem (heq ▸ hfinished))]
    exact h.completed j state hj

include hs hb in
/-- What a task releases has waited so far, and is released once. -/
theorem of_released_queue {state : TaskState}
    (hslot : p.inFlight[slot]? = some ⟨i, .done (.ok state)⟩) :
    (Plan.release p.remaining (s.plan.dependents[i]?.getD [])).2.Nodup ∧
      ∀ j ∈ (Plan.release p.remaining (s.plan.dependents[i]?.getD [])).2,
        j < g.tasks.length ∧ j ∉ p.started ∧ j ∉ p.ready := by
  have hmem := List.mem_of_getElem? hslot
  have hi := hb.lt_of_started (hb.started_of_inFlight hmem)
  constructor
  · rw [hs.accounts.dependents i hi, Plan.release_snd (Plan.nodup_dependentsOf _ _)]
    exact (Plan.nodup_dependentsOf _ _).filter _
  · intro j hj
    obtain ⟨hlt, hstarted⟩ := of_released hs hb hmem hj
    refine ⟨hlt, hstarted, fun hready => ?_⟩
    rw [hb.remaining, hs.accounts.dependents i hi,
      Plan.mem_release_waiting g.nodup_producersAt (hb.not_finished hmem)] at hj
    exact hj.2.2 ((hb.frontier.mem_iff j).1 (List.mem_append_right _ hready)).2

include hs hnames hb h in
/-- A task that is joined gets the state that it has come to, and what it releases is runnable. -/
theorem Chronicled.join {state : TaskState}
    (hslot : p.inFlight[slot]? = some ⟨i, .done (.ok state)⟩) :
    s.Chronicled g w (es ++ s.entered p (.join slot))
      (s.complete { p with inFlight := p.inFlight.eraseIdx slot } i state) := by
  have hmem := List.mem_of_getElem? hslot
  have hstarted : i ∈ p.started := hb.started_of_inFlight hmem
  have hi : i < g.tasks.length := lt_tasks hs hb hstarted
  obtain ⟨hnodup, hreleased⟩ := of_released_queue hs hb hslot
  rw [entered_join hslot]
  generalize hnew : (Plan.release p.remaining (s.plan.dependents[i]?.getD [])).2 = released at *
  have hstates : ∀ j < g.tasks.length,
      statesOf (es ++ (s.taskName i, state) :: released.map (fun j => (s.taskName j, .runnable)))
        (s.taskName j) = statesOf es (s.taskName j) ++ ((if j = i then [state] else []) ++
          if j ∈ released then [.runnable] else []) := by
    intro j hj
    rw [statesOf_append, statesOf_joined hs hnames hnodup (fun k hk => (hreleased k hk).1) hi hj]
  -- Nothing is entered for what has been started, apart from the task itself.
  have hsame : ∀ j ∈ p.started, j ≠ i →
      statesOf (es ++ (s.taskName i, state) :: released.map (fun j => (s.taskName j, .runnable)))
        (s.taskName j) = statesOf es (s.taskName j) := by
    intro j hj hji
    have hnot : j ∉ released := fun hmemj => (hreleased j hmemj).2.1 hj
    rw [hstates j (lt_tasks hs hb hj), if_neg hji, if_neg hnot]
    simp
  have hready : (s.complete { p with inFlight := p.inFlight.eraseIdx slot } i state).ready =
      p.ready ++ released := by
    rw [← hnew]
    rfl
  refine {
    table := ?table
    waiting := fun j hj hnot hqueued => ?waiting
    ready := fun j hj => ?ready
    inFlight := fun f hf => ?inFlight
    unfinished := fun j hj hfinished => ?unfinished
    completed := fun j state' hj => ?completed }
  case table =>
    show ((p.world.setState (s.taskName i) state).setStates
      ((Plan.release p.remaining (s.plan.dependents[i]?.getD [])).2.map s.taskName)
        .runnable).states = _
    rw [hnew, states_setStates, List.foldl_append, ← h.table]
    rfl
  case waiting =>
    rw [hready, List.mem_append, not_or] at hqueued
    have hji : j ≠ i := fun heq => hnot (heq ▸ hstarted)
    rw [hstates j hj, if_neg hji, if_neg hqueued.2, h.waiting j hj hnot hqueued.1]
    rfl
  case ready =>
    rw [hready] at hj
    rcases List.mem_append.1 hj with hj | hj
    · have hlt : j < g.tasks.length := hs.accounts.length ▸ hb.lt_of_ready hj
      have hji : j ≠ i := fun heq => hb.not_started hj (heq ▸ hstarted)
      have hnot : j ∉ released := fun hmemj => (hreleased j hmemj).2.2 hj
      rw [hstates j hlt, if_neg hji, if_neg hnot, h.ready j hj]
      rfl
    · obtain ⟨hlt, hnot, hqueued⟩ := hreleased j hj
      have hji : j ≠ i := fun heq => hnot (heq ▸ hstarted)
      rw [hstates j hlt, if_neg hji, if_pos hj, h.waiting j hlt hnot hqueued]
      rfl
  case inFlight =>
    obtain ⟨k, hk, hget⟩ := List.mem_eraseIdx_iff_getElem?.1 hf
    have hf' := List.mem_of_getElem? hget
    rw [hsame f.index (hb.started_of_inFlight hf') (fun heq => hk (hb.slot_eq hget hslot heq))]
    exact h.inFlight f hf'
  case unfinished =>
    have hnot : j ∉ p.finished ++ [i] := by simpa [Progress.finished, complete] using hfinished
    rw [List.mem_append, not_or] at hnot
    rw [hsame j hj (fun heq => hnot.2 (by simp [heq]))]
    exact h.unfinished j hj hnot.1
  case completed =>
    rcases List.mem_append.1 hj with hj | hj
    · have hfinished : j ∈ p.finished := List.mem_map_of_mem hj
      rw [hsame j (hb.started_of_finished hfinished)
        (fun heq => hb.not_finished hmem (heq ▸ hfinished))]
      exact h.completed j state' hj
    · obtain ⟨rfl, rfl⟩ := Prod.mk.inj (List.mem_singleton.1 hj)
      have hnot : j ∉ released := fun hmemj => (hreleased j hmemj).2.1 hstarted
      -- A task that is done has taken its first step.
      rcases h.inFlight _ hmem with ⟨-, hannounces⟩ | ⟨hrunning, -⟩
      · exact hannounces.elim
      · rw [hstates j hi, if_pos rfl, if_neg hnot]
        simp only at hrunning
        rw [hrunning]
        rfl

end

/-- What a move enters is entered for the task that it concerns. -/
theorem Chronicled.move (hs : s.Serves g) (hnames : (g.tasks.map (·.name)).Nodup)
    (hperform : Execution.LeavesStates s.perform) (hb : s.Balanced g p) (h : s.Chronicled g w es p)
    {m : Move} (hm : s.Moved p m q) : s.Chronicled g w (es ++ s.entered p m) q := by
  cases hm with
  | start hready _ ht =>
    rw [show es ++ s.entered p .start = es from List.append_nil es]
    exact h.start hperform hready ht
  | @advance slot i γ act next hslot =>
    have hmem := List.mem_of_getElem? hslot
    have hi := lt_tasks hs hb (hb.started_of_inFlight hmem)
    rw [entered_advance hslot]
    -- The first step of a task enters that it is running, and its later ones enter nothing.
    rcases h.inFlight _ hmem with ⟨hstates, hfirst, hnext⟩ | ⟨hstates, hsilent, hnext⟩
    · have hnew : (act { p.world with states := ∅ }).1.states.toList =
          [(s.taskName i, .running)] := by
        rw [hfirst]
        rfl
      rw [hnew]
      have hothers : ∀ j < g.tasks.length, j ≠ i →
          statesOf [(s.taskName i, .running)] (s.taskName j) = [] := fun j hj hji =>
        statesOf_of_ne hs hnames hi hj hji _
      refine h.advance hs hb hslot hothers ?_ ?_ hnext
      · rw [hfirst]
        rfl
      · rw [statesOf_append, hstates]
        simp [statesOf_cons]
    · have hnew : (act { p.world with states := ∅ }).1.states.toList = [] := by
        rw [hsilent]
        rfl
      rw [hnew]
      refine h.advance hs hb hslot (fun _ _ _ => rfl) (hsilent _) ?_ hnext
      rw [List.append_nil]
      exact hstates
  | join _ hslot => exact h.join hs hnames hb hslot
  | @abort slot i e hslot =>
    -- An error enters nothing: the task stays as it is.
    have hnew : s.entered p (.join slot) = [] := by simp only [entered, hslot]
    rw [hnew, List.append_nil]
    exact ⟨h.table, h.waiting, h.ready, fun f hf => absurd hf List.not_mem_nil, h.unfinished,
      h.completed⟩
  | receive =>
    rw [show es ++ s.entered p .receive = es from List.append_nil es]
    exact ⟨h.table, h.waiting, h.ready, h.inFlight, h.unfinished, h.completed⟩

/-- What has been entered in a run. -/
theorem chronicled_of_enters (hs : s.Serves g) (hnames : (g.tasks.map (·.name)).Nodup)
    (hperform : Execution.LeavesStates s.perform) (h : s.Enters w es p) : s.Chronicled g w es p := by
  induction h with
  | begin => exact chronicled_begin hs hnames
  | move m hp hm ih =>
    obtain ⟨log, hran⟩ := hp.exists_ran
    exact ih.move hs hnames hperform (balanced_of_ran hs hran) (moved_of_move? hm).2

/-! ## How far tasks have come -/

/-- How far the tasks of a run have come, and what has been entered for them. -/
structure Lifecycle (s : Schedule β) (g : TaskGraph β) (es : List (String × TaskState))
    (p : Progress) : Prop where
  /-- The state table is what has been entered in it. -/
  table : p.world.states = SortedMap.ofList es
  /-- Each task goes through its states in order. -/
  stages : ∀ t ∈ g.tasks, ∃ final : TaskState, final.isFinal = true ∧
    statesOf es t.name <+: [.pending, .runnable, .running, final]
  /-- Each task waits, is ready, is in flight or is done, unless an error has ended the run and it
  has been given up. -/
  parts : ∃ lost, (Plan.stuckAt p.remaining ++ p.ready ++ p.inFlight.map (·.index) ++ p.finished ++
    lost).Perm (List.range g.tasks.length) ∧ (p.fault = none → lost = [])
  waiting : ∀ i ∈ Plan.stuckAt p.remaining, statesOf es (s.taskName i) = [.pending]
  ready : ∀ i ∈ p.ready, statesOf es (s.taskName i) = [.pending, .runnable]
  inFlight : ∀ f ∈ p.inFlight, statesOf es (s.taskName f.index) = [.pending, .runnable] ∨
    statesOf es (s.taskName f.index) = [.pending, .runnable, .running]
  done : ∀ i state, (i, state) ∈ p.completed → state.isFinal = true ∧
    statesOf es (s.taskName i) = [.pending, .runnable, .running, state]
  /-- The counts are those of the producers that are not done. -/
  counts : ∀ i < g.tasks.length, ∃ left : Finset Nat,
    (∀ j, j ∈ left ↔ g.Feeds j i ∧ j ∉ p.finished) ∧ p.remaining[i]? = some left.card
  /-- When a task is joined, what waits for it is counted down once, from more than zero. -/
  released : ∀ (slot i : Nat) (state : TaskState),
    p.inFlight[slot]? = some ⟨i, .done (.ok state)⟩ → (s.plan.dependents[i]?.getD []).Nodup ∧
      ∀ d ∈ s.plan.dependents[i]?.getD [], ∃ n, p.remaining[d]? = some (n + 1)
  /-- When no task can be started, as many are in flight as may be, or none is ready. -/
  full : p.fault = none → (∃ q, s.move? p .start = some q) ∨
    p.inFlight.length = max g.maxConcurrency 1 ∨ p.ready = []
  /-- A task is joined only then. -/
  joined : ∀ slot q, s.move? p (.join slot) = some q →
    p.inFlight.length = max g.maxConcurrency 1 ∨ p.ready = []

section

variable (hs : s.Serves g) (hb : s.Balanced g p)

include hs hb

theorem mem_stuckAt : i ∈ Plan.stuckAt p.remaining ↔
    i < g.tasks.length ∧ i ∉ p.started ∧ i ∉ p.ready := by
  have hfrontier := hb.frontier.mem_iff i
  rw [hb.remaining, Plan.stuckAt_waitingAll, List.mem_filter, List.mem_range, hs.accounts.length,
    decide_eq_true_eq]
  rw [List.mem_append, hs.accounts.length] at hfrontier
  tauto

theorem Balanced.parts : ∃ lost, (Plan.stuckAt p.remaining ++ p.ready ++
    p.inFlight.map (·.index) ++ p.finished ++ lost).Perm (List.range g.tasks.length) ∧
      (p.fault = none → lost = []) := by
  obtain ⟨lost, hperm, hlost⟩ := hb.held
  refine ⟨lost, ?_, hlost⟩
  -- What waits, what is ready and what has been started is everything.
  have hall : (Plan.stuckAt p.remaining ++ (p.started ++ p.ready)).Perm
      (List.range g.tasks.length) := by
    have hstuck : (Plan.stuckAt p.remaining).Nodup := List.nodup_range.filter _
    refine (List.perm_ext_iff_of_nodup ?_ List.nodup_range).2 (fun i => ?_)
    · refine hstuck.append hb.frontier.nodup (fun i hi hmem => ?_)
      have hnot := ((mem_stuckAt hs hb).1 hi).2
      exact (List.mem_append.1 hmem).elim hnot.1 hnot.2
    · rw [List.mem_append, List.mem_append, mem_stuckAt hs hb, List.mem_range]
      have hstarted : i ∈ p.started → i < g.tasks.length := lt_tasks hs hb
      have hready : i ∈ p.ready → i < g.tasks.length :=
        fun hi => hs.accounts.length ▸ hb.lt_of_ready hi
      tauto
  refine List.Perm.trans ?_ hall
  have hswap : (p.ready ++ (p.inFlight.map (·.index) ++ (p.finished ++ lost))).Perm
      (p.started ++ p.ready) := by
    refine List.perm_append_comm.trans (List.Perm.append_right _ (List.Perm.trans ?_ hperm.symm))
    rw [← List.append_assoc]
    exact List.perm_append_comm.append_right _
  simpa only [List.append_assoc] using hswap.append_left (Plan.stuckAt p.remaining)

theorem Balanced.counts (hi : i < g.tasks.length) : ∃ left : Finset Nat,
    (∀ j, j ∈ left ↔ g.Feeds j i ∧ j ∉ p.finished) ∧ p.remaining[i]? = some left.card := by
  have hnodup := (g.nodup_producersAt i).filter (fun j => decide (j ∉ p.finished))
  refine ⟨((Plan.producersAt g.producers i).filter (fun j => j ∉ p.finished)).toFinset,
    fun j => ?_, ?_⟩
  · rw [List.mem_toFinset, List.mem_filter, hs.accounts.mem, decide_eq_true_eq]
  · rw [List.toFinset_card_of_nodup hnodup, hb.remaining,
      Plan.getElem?_waitingAll (by rw [hs.accounts.length]; exact hi)]
    rfl

theorem Balanced.released {state : TaskState}
    (hslot : p.inFlight[slot]? = some ⟨i, .done (.ok state)⟩) :
    (s.plan.dependents[i]?.getD []).Nodup ∧
      ∀ d ∈ s.plan.dependents[i]?.getD [], ∃ n, p.remaining[d]? = some (n + 1) := by
  have hmem := List.mem_of_getElem? hslot
  have hi := hb.lt_of_started (hb.started_of_inFlight hmem)
  rw [hs.accounts.dependents i hi]
  refine ⟨Plan.nodup_dependentsOf _ _, fun d hd => ?_⟩
  obtain ⟨hlt, hproducer⟩ := Plan.mem_dependentsOf.1 hd
  have hwaits : Plan.waiting g.producers p.finished d ≠ 0 :=
    fun hzero => hb.not_finished hmem (Plan.waiting_eq_zero.1 hzero i hproducer)
  obtain ⟨n, hn⟩ := Nat.exists_eq_succ_of_ne_zero hwaits
  exact ⟨n, by rw [hb.remaining, Plan.getElem?_waitingAll hlt, hn]⟩

omit hs in
/-- Without room for one more task, as many are in flight as may be. -/
theorem Balanced.full (hstart : s.canStart p = false) :
    p.inFlight.length = s.limit ∨ p.ready = [] := by
  have hroom := hb.room
  by_cases hready : p.ready = []
  · exact .inr hready
  · left
    have hlong : ¬p.inFlight.length < s.limit := by
      intro hlt
      simp [canStart, hlt, hready] at hstart
    omega

end

/-- However far a task has come, it has gone through its states in order. -/
theorem Chronicled.stages (h : s.Chronicled g w es p)
    (hdone : ∀ i state, (i, state) ∈ p.completed → state.isFinal = true)
    (hi : i < g.tasks.length) : ∃ final : TaskState, final.isFinal = true ∧
      statesOf es (s.taskName i) <+: [.pending, .runnable, .running, final] := by
  by_cases hfinished : i ∈ p.finished
  · obtain ⟨⟨_, state⟩, hmem, rfl⟩ := List.mem_map.1 hfinished
    exact ⟨state, hdone _ _ hmem, by rw [h.completed _ _ hmem]⟩
  · -- What is not done has a state left to come to.
    refine ⟨.succeeded, rfl, ?_⟩
    by_cases hstarted : i ∈ p.started
    · rcases h.unfinished i hstarted hfinished with heq | heq <;> rw [heq] <;> decide
    · by_cases hready : i ∈ p.ready
      · rw [h.ready i hready]
        decide
      · rw [h.waiting i hi hstarted hready]
        decide

/-- In every state that a run can reach, tasks go through their states in order. -/
theorem lifecycle_of_enters (hs : s.Serves g) (hnames : (g.tasks.map (·.name)).Nodup)
    (hlimit : s.limit = max g.maxConcurrency 1) (hperform : Execution.LeavesStates s.perform)
    (hfinal : Execution.EndsFinal s.perform) (hfresh : w.states = ∅)
    (h : s.Enters w es p) : s.Lifecycle g es p := by
  obtain ⟨log, hran⟩ := h.exists_ran
  have hb := balanced_of_ran hs hran
  have hc := chronicled_of_enters hs hnames hperform h
  have hdone : ∀ i state, (i, state) ∈ p.completed → state.isFinal = true := by
    intro i state hi
    obtain ⟨t, -, hends⟩ := (recorded_of_ran hs hran).completed i state hi
    obtain ⟨scratch, _, work, _, _, -, hwork, -⟩ := Execution.ends_execute hends
    exact hfinal _ _ work state hwork
  refine {
    table := by rw [hc.table, hfresh]; rfl
    stages := ?stages
    parts := hb.parts hs
    waiting := fun i hi => ?waiting
    ready := hc.ready
    inFlight := fun f hf => (hc.inFlight f hf).imp (·.1) (·.1)
    done := fun i state hi => ⟨hdone i state hi, hc.completed i state hi⟩
    counts := fun i hi => hb.counts hs hi
    released := fun slot i state hslot => hb.released hs hslot
    full := fun hfault => ?full
    joined := fun slot q hq => ?joined }
  case stages =>
    intro t ht
    obtain ⟨i, hi⟩ := List.getElem?_of_mem ht
    have hname : s.taskName i = t.name := taskName_eq (by rw [hs.tasks, hi])
    rw [← hname]
    exact hc.stages hdone (List.getElem?_eq_some_iff.1 hi).1
  case waiting =>
    obtain ⟨hlt, hstarted, hready⟩ := (mem_stuckAt hs hb).1 hi
    exact hc.waiting i hlt hstarted hready
  case full =>
    rw [← hlimit]
    -- The engine starts what is ready whenever there is room for it.
    cases hstart : s.canStart p with
    | false => exact .inr (hb.full hstart)
    | true =>
      left
      simp only [canStart, Bool.and_eq_true, decide_eq_true_eq] at hstart
      cases hready : p.ready with
      | nil => simp [hready] at hstart
      | cons i ready =>
        have hlt : i < s.tasks.length := by
          rw [hs.tasks, ← hs.accounts.length]
          exact hb.lt_of_ready (by simp [hready])
        exact move?_start hfault hready hstart.1 (List.getElem?_eq_getElem hlt)
  case joined =>
    rw [← hlimit]
    -- The guard of a join is that nothing can be started.
    unfold move? at hq
    split at hq
    · cases hq
    · simp only [join?] at hq
      split at hq
      · cases hq
      · next hstart => exact hb.full (by simpa using hstart)

end Schedule

/-! ## Compiled tasks -/

/-- The work of a compiled task comes to a final state, whatever its command does. -/
theorem Work.isFinal_of_ends (launcher : Launcher) :
    Execution.EndsFinal (Work.perform launcher) := by
  intro work run ws state h
  cases work with
  | emit content =>
    obtain ⟨_, written, _, -, -, h⟩ := Fiber.ends_exceptT_bind h
    cases written with
    | error e => cases h.2
    | ok _ =>
      cases (Fiber.ends_pure.1 h).2
      rfl
  | block node =>
    obtain ⟨_, found, _, -, -, h⟩ := TaskRun.ends_runBlock h
    rcases found with e | _ | ⟨port, ports⟩
    · cases h.2
    · rcases h state rfl with rfl | rfl <;> rfl
    · cases h.2
      rfl

/-! ## Runs of a task graph -/

open Schedule

/-- Whatever the limit is and however its moves follow each other, a run of a task graph with a plan
takes each task through its states in order. At every moment the counts say how many producers of a
task are not done, no count is taken below zero, each task waits, is ready, is in flight or is done,
and a task is joined only if as many are in flight as may be or none is ready. -/
theorem tasks_live_in_order {β : Type} {g : TaskGraph β} {perform : Performer β} {plan : Plan}
    {w : World} (context : RunContext) (hplan : g.plan = .ok plan)
    (hnames : (g.tasks.map (·.name)).Nodup) (hperform : Execution.LeavesStates perform)
    (hfinal : Execution.EndsFinal perform) (hfresh : w.states = ∅) :
    (∀ log p, (Engine.schedule perform g context plan).Ran (fun _ => True)
        ((Engine.schedule perform g context plan).begin w) log p →
      ∃ es, (Engine.schedule perform g context plan).Enters w es p) ∧
    ∀ es p, (Engine.schedule perform g context plan).Enters w es p →
      (Engine.schedule perform g context plan).Lifecycle g es p :=
  ⟨fun _ _ hran => hran.exists_enters, fun _ _ henters =>
    lifecycle_of_enters (serves_schedule perform context hplan) hnames rfl hperform hfinal hfresh
      henters⟩

/-- Two tasks, one after the other, go through all their states. -/
theorem relay_lives_in_order : ∃ es p,
    Relay.schedule.Enters (Engine.prepare Relay.context {}).1 es p ∧
    Relay.schedule.Lifecycle Relay.graph es p ∧
    ∀ t ∈ Relay.graph.tasks, ∃ final : TaskState, final.isFinal = true ∧
      statesOf es t.name = [.pending, .runnable, .running, final] := by
  obtain ⟨p, hmoves, hover⟩ := (Option.any_eq_true _ _).1 Relay.isOver_of_moves
  obtain ⟨log, hran⟩ := ran_of_replay? hmoves
  have hplan : Relay.graph.plan = .ok Relay.plan := rfl
  have hperform : Execution.LeavesStates Relay.perform := fun _ _ => trivial
  have hfinal : Execution.EndsFinal Relay.perform := by
    intro work run ws state h
    cases (Fiber.ends_pure.1 h).2
    rfl
  obtain ⟨hall, hlives⟩ := tasks_live_in_order (w := (Engine.prepare Relay.context {}).1)
    Relay.context hplan (by decide) hperform hfinal rfl
  obtain ⟨es, henters⟩ := hall log p (hran.mono (fun _ _ => trivial))
  have hlife := hlives es p henters
  refine ⟨es, p, henters, hlife, fun t ht => ?_⟩
  -- Nothing is left to do, so every task is done.
  have hs := serves_schedule Relay.perform Relay.context hplan
  rw [isOver, fault_of_sound hran] at hover
  obtain ⟨i, hi⟩ := List.getElem?_of_mem ht
  have hfinished := (balanced_of_ran hs hran).finished_of_isFinished hs hover i
    (List.getElem?_eq_some_iff.1 hi).1
  obtain ⟨⟨_, state⟩, hmem, rfl⟩ := List.mem_map.1 hfinished
  obtain ⟨hstate, hstates⟩ := hlife.done _ state hmem
  have hname : Relay.schedule.taskName _ = t.name := taskName_eq hi
  exact ⟨state, hstate, by rw [← hname]; exact hstates⟩

end BlockFlow
