import Mathlib.Data.List.Nodup
import BlockFlow.Engine.Basic
import BlockFlow.Proofs.Engine.Steps

/-!
# Moves and runs of an engine

`Schedule.Moved` says once what a possible move does, and everything else about moves is
derived from it. A run, `Schedule.Ran`, is a sequence of possible moves in any order;
its log tells which task took a step, and in which world.

## Key results

- `moved_of_move?`: a possible move is one of five
- `Ran.invariant`: what every move keeps holds throughout a run
- `ran_of_replay?`: moves that can be made are a run
- `acc_move`: no run goes on for ever
- `Engine.MayEnd`: how a run of a task graph may end, whatever the order of its moves
-/

namespace BlockFlow

/-- The tasks that have been joined. -/
def Progress.finished (p : Progress) : List Nat := p.completed.map (·.1)

/-- Whether a task in flight has come to its end with an error. -/
def Flight.hasFailed (f : Flight) : Bool :=
  match f.fiber with
  | .done (.error _) => true
  | _ => false

/-- No execution has come to its end with an error. -/
def Progress.Sound (p : Progress) : Prop := ∀ f ∈ p.inFlight, f.hasFailed = false

instance (p : Progress) : Decidable p.Sound := List.decidableBAll _ _

namespace Schedule

variable {β : Type}

/-- The fiber of a task at a position. -/
def fiberAt (s : Schedule β) (i : Nat) (t : Task β) :
    Fiber World (Except ExecutionError TaskState) :=
  Execution.execute s.perform s.context t (s.plan.inputs[i]?.getD ∅)

/-- The move `m` takes `p` to `q`. -/
inductive Moved (s : Schedule β) (p : Progress) : Move → Progress → Prop
  | start {i : Nat} {ready : List Nat} {t : Task β} (hready : p.ready = i :: ready)
      (hroom : p.inFlight.length < s.limit) (ht : s.tasks[i]? = some t) :
      Moved s p .start { p with
        ready
        inFlight := p.inFlight ++ [⟨i, s.fiberAt i t⟩]
        started := p.started ++ [i]
        world := { p.world with failures := p.world.failures.openSink } }
  | advance {slot i : Nat} {γ : Type} {act : World → World × γ}
      {next : γ → Fiber World (Except ExecutionError TaskState)}
      (hslot : p.inFlight[slot]? = some ⟨i, .step act next⟩) :
      Moved s p (.advance slot) { p with
        inFlight := p.inFlight.set slot ⟨i, next (act p.world).2⟩
        world := (act p.world).1 }
  | join {slot i : Nat} {state : TaskState} (hfull : s.canStart p = false)
      (hslot : p.inFlight[slot]? = some ⟨i, .done (.ok state)⟩) :
      Moved s p (.join slot)
        (s.complete { p with inFlight := p.inFlight.eraseIdx slot } i state)
  | abort {slot i : Nat} {e : ExecutionError}
      (hslot : p.inFlight[slot]? = some ⟨i, .done (.error e)⟩) :
      Moved s p (.join slot) (abandon p e)
  | receive : Moved s p .receive
      { p with world := { p.world with failures := p.world.failures.receive } }

/-- A possible move is one of the five, and none is possible after an error. -/
theorem moved_of_move? {s : Schedule β} {p q : Progress} {m : Move} (h : s.move? p m = some q) :
    p.fault = none ∧ s.Moved p m q := by
  unfold move? at h
  split at h
  · cases h
  · next hfault =>
    refine ⟨by simpa using hfault, ?_⟩
    -- One case for each guard of a move: where it fails there is no next progress.
    cases m with
    | start =>
      simp only [start?] at h
      split at h
      · cases h
      · next i ready hready =>
        split at h
        · next hroom =>
          obtain ⟨fiber, hfiber, rfl⟩ := Option.map_eq_some_iff.1 h
          obtain ⟨t, ht, rfl⟩ := Option.map_eq_some_iff.1 hfiber
          exact .start hready hroom ht
        · cases h
    | advance slot =>
      simp only [advance?] at h
      split at h
      · next hslot => cases h; exact .advance hslot
      · cases h
    | join slot =>
      simp only [join?] at h
      split at h
      · cases h
      · next hfull =>
        split at h
        · next hslot => cases h; exact .join (by simpa using hfull) hslot
        · next hslot => cases h; exact .abort hslot
        · cases h
    | receive =>
      simp only [receive?] at h
      split at h
      · cases h
      · cases h; exact .receive

/-- The next ready task can be started if there is room for it. -/
theorem move?_start {s : Schedule β} {p : Progress} {i : Nat} {ready : List Nat} {t : Task β}
    (hfault : p.fault = none) (hready : p.ready = i :: ready)
    (hroom : p.inFlight.length < s.limit) (ht : s.tasks[i]? = some t) :
    ∃ q, s.move? p .start = some q := by
  simp [move?, start?, hfault, hready, hroom, fiberOf?, ht]

/-- A task in flight that is not done can take a step. -/
theorem move?_advance {s : Schedule β} {p : Progress} {slot : Nat} {f : Flight}
    (hfault : p.fault = none) (hslot : p.inFlight[slot]? = some f)
    (hdone : f.fiber.isDone = false) : ∃ q, s.move? p (.advance slot) = some q := by
  obtain ⟨i, fiber⟩ := f
  cases fiber with
  | done a => cases hdone
  | step act next => simp [move?, advance?, hfault, hslot]

/-- A task in flight that is done can be joined once none can be started. -/
theorem move?_join {s : Schedule β} {p : Progress} {slot : Nat} {f : Flight}
    (hfault : p.fault = none) (hfull : s.canStart p = false)
    (hslot : p.inFlight[slot]? = some f) (hdone : f.fiber.isDone = true) :
    ∃ q, s.move? p (.join slot) = some q := by
  obtain ⟨i, fiber⟩ := f
  cases fiber with
  | step act next => cases hdone
  | done outcome => cases outcome <;> simp [move?, join?, hfault, hfull, hslot]

/-! ## Runs -/

/-- The step that a move takes: the task that takes it, and the world in which it does. -/
def logged (p : Progress) : Move → List (Nat × World)
  | .advance slot => (p.inFlight[slot]?.map (fun f => (f.index, p.world))).toList
  | _ => []

/-- The worlds in which the task at a position has taken its steps. -/
def worldsOf (log : List (Nat × World)) (i : Nat) : List World :=
  (log.filter (fun e => e.1 = i)).map (·.2)

theorem worldsOf_append (log log' : List (Nat × World)) (i : Nat) :
    worldsOf (log ++ log') i = worldsOf log i ++ worldsOf log' i := by
  simp [worldsOf]

/-- Possible moves lead from `begin_` to a progress, through such as `P` holds of. The log
has the steps that were taken. -/
inductive Ran (s : Schedule β) (P : Progress → Prop) (begin_ : Progress) :
    List (Nat × World) → Progress → Prop
  | begin (h : P begin_) : Ran s P begin_ [] begin_
  | move {log : List (Nat × World)} {p q : Progress} (m : Move) (hp : Ran s P begin_ log p)
      (hm : s.move? p m = some q) (h : P q) : Ran s P begin_ (log ++ logged p m) q

theorem Ran.here {s : Schedule β} {P : Progress → Prop} {b p : Progress}
    {log : List (Nat × World)} (h : s.Ran P b log p) : P p := by
  cases h with
  | begin h => exact h
  | move _ _ _ h => exact h

theorem Ran.first {s : Schedule β} {P : Progress → Prop} {b p : Progress}
    {log : List (Nat × World)} (h : s.Ran P b log p) : P b := by
  induction h with
  | begin h => exact h
  | move _ _ _ _ ih => exact ih

theorem Ran.mono {s : Schedule β} {P Q : Progress → Prop} (hPQ : ∀ p, P p → Q p)
    {b p : Progress} {log : List (Nat × World)} (h : s.Ran P b log p) : s.Ran Q b log p := by
  induction h with
  | begin h => exact .begin (hPQ _ h)
  | move m _ hm h ih => exact .move m ih hm (hPQ _ h)

/-- What holds at the beginning and is kept by every move holds throughout. -/
theorem Ran.invariant {s : Schedule β} {P : Progress → Prop} {b : Progress}
    {I : List (Nat × World) → Progress → Prop} (hbegin : I [] b)
    (hmove : ∀ log p m q, P p → I log p → p.fault = none → s.Moved p m q → P q →
      I (log ++ logged p m) q)
    {log : List (Nat × World)} {p : Progress} (h : s.Ran P b log p) : I log p := by
  induction h with
  | begin => exact hbegin
  | move m hp hm h ih =>
    obtain ⟨hfault, hmoved⟩ := moved_of_move? hm
    exact hmove _ _ m _ hp.here ih hfault hmoved h

/-- The steps of a run are taken in worlds that it comes through. -/
theorem Ran.exists_of_mem_log {s : Schedule β} {P : Progress → Prop} {b p : Progress}
    {log : List (Nat × World)} (h : s.Ran P b log p) {e : Nat × World} (he : e ∈ log) :
    ∃ q, P q ∧ q.world = e.2 := by
  induction h with
  | begin => exact absurd he List.not_mem_nil
  | @move log p _ m hp _ _ ih =>
    rcases List.mem_append.1 he with he | he
    · exact ih he
    · -- Only a step of a task is written in the log.
      cases m with
      | advance slot =>
        obtain ⟨f, -, rfl⟩ := Option.map_eq_some_iff.1 (Option.mem_toList.1 he)
        exact ⟨p, hp.here, rfl⟩
      | start => exact absurd he List.not_mem_nil
      | join => exact absurd he List.not_mem_nil
      | receive => exact absurd he List.not_mem_nil

theorem Ran.trans {s : Schedule β} {P : Progress → Prop} {b p q : Progress}
    {log log' : List (Nat × World)} (h : s.Ran P b log p) (h' : s.Ran P p log' q) :
    s.Ran P b (log ++ log') q := by
  induction h' with
  | begin => rwa [List.append_nil]
  | move m _ hm hq ih =>
    rw [← List.append_assoc]
    exact .move m ih hm hq

/-- Makes moves one after the other, as long as they are possible and `P` holds. -/
def replay? (s : Schedule β) (P : Progress → Prop) [DecidablePred P] :
    List Move → Progress → Option Progress
  | [], p => if P p then some p else none
  | m :: ms, p => if P p then (s.move? p m).bind (s.replay? P ms) else none

/-- Moves that can be made one after the other are a run. -/
theorem ran_of_replay? {s : Schedule β} {P : Progress → Prop} [DecidablePred P]
    {ms : List Move} {p q : Progress} (h : s.replay? P ms p = some q) :
    ∃ log, s.Ran P p log q := by
  induction ms generalizing p with
  | nil =>
    rw [replay?] at h
    split at h
    · next hp =>
      obtain rfl := Option.some.inj h
      exact ⟨[], .begin hp⟩
    · cases h
  | cons m ms ih =>
    rw [replay?] at h
    split at h
    · next hp =>
      obtain ⟨r, hr, hrest⟩ := Option.bind_eq_some_iff.1 h
      obtain ⟨log, hran⟩ := ih hrest
      exact ⟨_, (Ran.move m (.begin hp) hr (hran.first)).trans hran⟩
    · cases h

/-- No run goes on for ever. -/
theorem acc_move (s : Schedule β) (p : Progress) :
    Acc (fun q p => ∃ m, s.move? p m = some q) p :=
  Subrelation.accessible (fun h => h.elim (fun _ hm => before_of_move hm))
    (Progress.before_wellFounded.apply p)

end Schedule

/-! ## The end of a run -/

namespace Engine

variable {β : Type}

/-- `r` is what a run of a task graph may come to: it has no plan, or no scratch root, or
its tasks have been carried out by moves in some order until it was over. -/
inductive MayEnd (perform : Performer β) (g : TaskGraph β) (context : RunContext) (w : World) :
    World × RunResult → Prop
  | unplanned {e : ExecutionError} (hplan : g.plan = .error e) :
      MayEnd perform g context w (w, .error e)
  | unprepared {plan : Plan} {w' : World} {e : ExecutionError} (hplan : g.plan = .ok plan)
      (hprepare : prepare context w = (w', .error e)) :
      MayEnd perform g context w (w', .error e)
  | carriedOut {plan : Plan} {w' : World} {log : List (Nat × World)} {p : Progress}
      (hplan : g.plan = .ok plan) (hprepare : prepare context w = (w', .ok ()))
      (hran : (schedule perform g context plan).Ran (fun _ => True)
        ((schedule perform g context plan).begin w') log p)
      (hover : Schedule.isOver p = true) :
      MayEnd perform g context w (conclude context p)

end Engine

end BlockFlow
