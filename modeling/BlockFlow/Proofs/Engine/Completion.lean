import BlockFlow.Proofs.Engine.Fairness
import BlockFlow.Proofs.Engine.Records

/-!
# Every task is carried out once, after its producers

The main statement about schedules: whatever the wiring, the limit and the order of
moves, a run in which no execution fails starts every task once and after its
producers, keeps to the limit, ends, and leaves a full state table.

## Key results

- `run_carries_out_all`: the main statement
- `scratchRoot_below_file`: where the scratch root cannot be made, every run ends with
  an error, though no task does
-/

namespace BlockFlow

namespace Schedule

variable {β : Type}

/-- What holds at every point of a run. -/
structure Orderly (s : Schedule β) (g : TaskGraph β) (log : List (Nat × World))
    (p : Progress) : Prop where
  /-- No task has been started twice. -/
  once : p.started.Nodup
  /-- What has been started is finished or in flight. -/
  held : p.started.Perm (p.finished ++ p.inFlight.map (·.index))
  room : p.inFlight.length ≤ max g.maxConcurrency 1
  /-- A move starts no task, or one whose wired ports are all those of completed tasks. -/
  afterProducers : ∀ m q, s.move? p m = some q → q.started = p.started ∨
    ∃ i t, g.tasks[i]? = some t ∧ q.started = p.started ++ [i] ∧
      ∀ port ref, t.inputPorts.get? port = some (some ref) →
        ∃ j u state, g.tasks[j]? = some u ∧ u.name = ref.task ∧ (j, state) ∈ p.completed
  /-- A completed task has gone through its work, which ended with the recorded state,
  and, if that is success, through the publication of its outputs. -/
  performed : ∀ j state, (j, state) ∈ p.completed → ∃ u, g.tasks[j]? = some u ∧
    Execution.Performed s.perform s.context u (s.plan.inputs[j]?.getD ∅) (worldsOf log j) state

/-- What holds at the end of a run. -/
structure Accomplished (s : Schedule β) (g : TaskGraph β) (p : Progress) : Prop where
  all : p.started.Perm (List.range g.tasks.length)
  completions : p.completed.length = g.tasks.length
  succeeds : (Engine.conclude s.context p).2 = .ok ()
  keys : ∀ k, k ∈ (Engine.conclude s.context p).1.states.keys ↔ ∃ t ∈ g.tasks, t.name = k
  states : ∀ (i : Nat) (t : Task β), g.tasks[i]? = some t → ∃ state,
    (i, state) ∈ p.completed ∧ (Engine.conclude s.context p).1.states.get? t.name = some state

variable {s : Schedule β} {g : TaskGraph β}

/-- A move that starts a task starts the first one of the queue. -/
private theorem started_of_moved {p q : Progress} {m : Move} (hm : s.Moved p m q) :
    q.started = p.started ∨
      ∃ i t, s.tasks[i]? = some t ∧ i ∈ p.ready ∧ q.started = p.started ++ [i] := by
  cases hm with
  | start hready _ ht => exact .inr ⟨_, _, ht, by simp [hready], rfl⟩
  | advance => exact .inl rfl
  | join => exact .inl rfl
  | abort => exact .inl rfl
  | receive => exact .inl rfl

/-- The task that a wired port reads from feeds the port's task. -/
private theorem feeds_of_wired (hs : s.Serves g) {i : Nat} {t : Task β} {port : String}
    {ref : PortRef} (ht : g.tasks[i]? = some t)
    (hport : t.inputPorts.get? port = some (some ref)) :
    ∃ j u, g.Feeds j i ∧ g.tasks[j]? = some u ∧ u.name = ref.task := by
  obtain ⟨⟨j, path⟩, href⟩ :=
    Option.isSome_iff_exists.1 (hs.accounts.resolved i t port ref ht hport)
  obtain ⟨u, hu, hname, -⟩ := TaskGraph.of_resolve? href
  exact ⟨j, u, ⟨t, port, ref, path, ht, hport, href⟩, hu, hname⟩

theorem orderly_of_ran (hs : s.Serves g) (hlimit : s.limit = max g.maxConcurrency 1)
    {P : Progress → Prop} {w : World} {log : List (Nat × World)} {p : Progress}
    (h : s.Ran P (s.begin w) log p) (hfault : p.fault = none) : s.Orderly g log p := by
  have hb := balanced_of_ran hs h
  have hr := recorded_of_ran hs h
  obtain ⟨lost, hperm, hlost⟩ := hb.held
  obtain rfl := hlost hfault
  rw [List.append_nil] at hperm
  refine ⟨hb.nodup_started, hperm, hlimit ▸ hb.room, ?_, ?_⟩
  · -- A task was ready when it was started, so its producers are finished.
    intro m q hm
    rcases started_of_moved (moved_of_move? hm).2 with hsame | ⟨i, t, ht, hi, hq⟩
    · exact .inl hsame
    · rw [hs.tasks] at ht
      refine .inr ⟨i, t, ht, hq, fun port ref hport => ?_⟩
      obtain ⟨j, u, hfeeds, hu, hname⟩ := feeds_of_wired hs ht hport
      have hj := hb.feeds_finished hs (List.mem_append_right _ hi) hfeeds
      obtain ⟨⟨j', state⟩, hmem, rfl⟩ := List.mem_map.1 hj
      exact ⟨j', u, state, hu, hname, hmem⟩
  · intro j state hj
    obtain ⟨u, hu, hends⟩ := hr.completed j state hj
    exact ⟨u, hs.tasks ▸ hu, Execution.ends_execute hends⟩

/-- Without an execution that fails, no error ends a run. -/
theorem fault_of_sound {w : World} {log : List (Nat × World)} {p : Progress}
    (h : s.Ran Progress.Sound (s.begin w) log p) : p.fault = none := by
  refine h.invariant (I := fun _ p => p.fault = none) rfl ?_
  intro log p m q hp hfault _ hm _
  cases hm with
  | abort hslot => exact absurd (hp _ (List.mem_of_getElem? hslot)) Bool.false_ne_true.symm
  | start => exact hfault
  | advance => exact hfault
  | join => exact hfault
  | receive => exact hfault

theorem accomplished_of_ran (hs : s.Serves g) (hnames : (g.tasks.map (·.name)).Nodup)
    (hperform : Execution.LeavesStates s.perform) {P : Progress → Prop} {w : World}
    (hfresh : w.states = ∅) {log : List (Nat × World)} {p : Progress}
    (h : s.Ran P (s.begin w) log p) (hfin : isFinished p = true) : s.Accomplished g p := by
  have hb := balanced_of_ran hs h
  have ht := tabled_of_ran hs hnames hperform h
  have hfault : p.fault = none := by
    simp only [isFinished, Bool.and_eq_true, Option.isNone_iff_eq_none] at hfin
    exact hfin.1.1
  have hstates : (Engine.conclude s.context p).1.states = p.world.states := by
    rw [Engine.conclude, hfault]
    rfl
  refine {
    all := ?all
    completions := hb.length_completed hs hfin
    succeeds := by rw [Engine.conclude, hfault]
    keys := ?keys
    states := ?states }
  case all =>
    -- What is started has no duplicates and is what is finished, and everything is finished.
    refine (List.perm_ext_iff_of_nodup hb.nodup_started List.nodup_range).2 (fun i => ?_)
    rw [List.mem_range, ← hs.accounts.length]
    refine ⟨hb.lt_of_started, fun hi => ?_⟩
    rw [hs.accounts.length] at hi
    exact hb.started_of_finished (hb.finished_of_isFinished hs hfin i hi)
  case keys =>
    intro k
    rw [hstates, SortedMap.mem_keys, SortedMap.contains, ← List.mem_map]
    refine ⟨fun hk => ?_, ht.names k⟩
    by_contra hnone
    rw [ht.others k hnone, hfresh] at hk
    cases hk
  case states =>
    intro i t hti
    obtain ⟨hlt, -⟩ := List.getElem?_eq_some_iff.1 hti
    obtain ⟨⟨i', state⟩, hmem, rfl⟩ := List.mem_map.1 (hb.finished_of_isFinished hs hfin i hlt)
    refine ⟨state, hmem, ?_⟩
    rw [hstates, ← taskName_eq (s := s) (hs.tasks ▸ hti)]
    exact ht.completed i' state hmem

end Schedule

open Schedule

/-- However its moves follow each other, a run in which every execution comes to a state
starts every task once and after its producers, never has more tasks in flight than the
limit, or one if that is zero, and is over after finitely many moves; then every task
has been completed and has its state in the table.

A run whose scratch root cannot be made is not among these, nor one with a task that
gets no scratch directory: their executions end with an error. -/
theorem run_carries_out_all {β : Type} {g : TaskGraph β} {perform : Performer β}
    {context : RunContext} {plan : Plan} {w w' : World} (hplan : g.plan = .ok plan)
    (hnames : (g.tasks.map (·.name)).Nodup) (hperform : Execution.LeavesStates perform)
    (hprepare : Engine.prepare context w = (w', .ok ())) (hfresh : w.states = ∅) :
    Acc (fun q p => ∃ m, (Engine.schedule perform g context plan).move? p m = some q)
        ((Engine.schedule perform g context plan).begin w') ∧
      ∀ log p, (Engine.schedule perform g context plan).Ran Progress.Sound
          ((Engine.schedule perform g context plan).begin w') log p →
        (Engine.schedule perform g context plan).Orderly g log p ∧
        (isOver p = false → ∃ m q, m ≠ .receive ∧
          (Engine.schedule perform g context plan).move? p m = some q) ∧
        (isOver p = true → (Engine.schedule perform g context plan).Accomplished g p) := by
  have hs := serves_schedule perform context hplan
  have hfresh' : w'.states = ∅ := by
    unfold Engine.prepare at hprepare
    split at hprepare <;> cases hprepare
    exact hfresh
  refine ⟨acc_move _ _, fun log p hran => ?_⟩
  have hfault := fault_of_sound hran
  refine ⟨orderly_of_ran hs rfl hran hfault, exists_move hs (balanced_of_ran hs hran), ?_⟩
  intro hover
  rw [isOver, hfault] at hover
  exact accomplished_of_ran hs hnames hperform hfresh' hran hover

/-! ## Two tasks, one after the other -/

namespace Relay

/-- A task that publishes a file, and a task that reads it. -/
def graph : TaskGraph Unit where
  name := "relay"
  mode := .validate
  maxConcurrency := 0
  tasks := [
    ⟨"a", "a", .process, "", ∅, SortedMap.ofList [("x", "/out/x")], ()⟩,
    ⟨"b", "b", .process, "", SortedMap.ofList [("y", some ⟨"a", "x"⟩)], ∅, ()⟩]

def plan : Plan where
  dependents := [[1], []]
  remaining := [0, 1]
  inputs := [∅, SortedMap.ofList [("y", some "/out/x")]]
  order := [0, 1]

/-- Both tasks succeed without doing anything. -/
def perform : Performer Unit := fun _ _ => pure .succeeded

def context : RunContext := ⟨"/scratch", "sh"⟩

/-- The run of the two tasks in an empty file system. -/
def schedule : Schedule Unit := Engine.schedule perform graph context plan

def start : Progress := schedule.begin (Engine.prepare context {}).1

/-- Each task is started, takes its steps, and is joined; the first one takes a step more,
with which it looks for its output. -/
def moves : List Move :=
  (.start :: List.replicate 5 (.advance 0) ++ [.join 0]) ++
    (.start :: List.replicate 4 (.advance 0) ++ [.join 0])

theorem isOver_of_moves :
    (schedule.replay? Progress.Sound moves start).any isOver = true := by
  decide +kernel

end Relay

/-- The two tasks are carried out: there is a run, and it ends with both in the table. -/
theorem relay_carried_out : ∃ log p, Relay.schedule.Ran Progress.Sound Relay.start log p ∧
    Relay.schedule.Orderly Relay.graph log p ∧ Relay.schedule.Accomplished Relay.graph p := by
  obtain ⟨p, hmoves, hover⟩ := (Option.any_eq_true _ _).1 Relay.isOver_of_moves
  obtain ⟨log, hran⟩ := ran_of_replay? hmoves
  have hplan : Relay.graph.plan = .ok Relay.plan := rfl
  have hperform : Execution.LeavesStates Relay.perform := fun _ _ => trivial
  have hprepare : Engine.prepare Relay.context {} = (_, .ok ()) := Prod.ext rfl rfl
  have h := (run_carries_out_all hplan (by decide) hperform hprepare rfl).2 log p hran
  exact ⟨log, p, hran, h.1, h.2.2 hover⟩

/-- A file stands where the scratch root would need a directory: no behaviour ever ends
with an error, but every run does, before it has started a task. -/
theorem scratchRoot_below_file :
    Relay.graph.plan = .ok Relay.plan ∧ (Relay.graph.tasks.map (·.name)).Nodup ∧
      Execution.LeavesStates Relay.perform ∧
      (∀ work run ws outcome, (Relay.perform work run).run.Ends ws outcome →
        outcome = .ok .succeeded) ∧
      ∀ w r, Engine.MayEnd Relay.perform Relay.graph ⟨"/f/scratch", "sh"⟩
          { files := (FileTree.put {} ["f"] (.file .empty)) } (w, r) →
        r = .error (.setup "/f/scratch" .notADirectory) := by
  refine ⟨rfl, by decide, fun _ _ => trivial, fun _ _ _ _ h => h.2.symm, fun w r h => ?_⟩
  have hprepare : (Engine.prepare ⟨"/f/scratch", "sh"⟩
      { files := (FileTree.put {} ["f"] (.file .empty)) }).2 =
        .error (.setup "/f/scratch" .notADirectory) := rfl
  generalize hend : (w, r) = wr at h
  cases h with
  | unplanned hplan => cases hplan
  | unprepared _ hfailed =>
    rw [hfailed] at hprepare
    rw [← hprepare, ← (Prod.mk.inj hend).2]
  | carriedOut _ hok => rw [hok] at hprepare; cases hprepare

end BlockFlow
