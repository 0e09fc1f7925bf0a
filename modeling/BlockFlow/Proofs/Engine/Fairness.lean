import BlockFlow.Proofs.Engine.Order

/-!
# The engine's own order of moves

`Engine.scheduler` follows a fixed policy. The policy never chooses an impossible move,
so that following it is one of the runs that `Engine.MayEnd` speaks of; what holds of
all runs holds of it.

## Key results

- `Schedule.run_fairPolicy`: the fair policy leads to the end of a run
- `Engine.mayEnd_scheduler`: the scheduler ends like a run
-/

namespace BlockFlow

namespace Schedule

variable {β : Type} {s : Schedule β} {g : TaskGraph β}

/-- The move that the fair policy chooses is possible, unless the run is over. -/
theorem move?_fairPolicy (hs : s.Serves g) {p : Progress} (h : s.Balanced g p) (clock : Nat)
    (hover : isOver p = false) : ∃ q, s.move? p (fairPolicy s.limit clock p) = some q := by
  have hfault : p.fault = none := by
    cases hf : p.fault with
    | none => rfl
    | some e => simp [isOver, hf] at hover
  unfold fairPolicy
  split
  · next hstart =>
    -- There is room, and a task is ready.
    simp only [Bool.and_eq_true, decide_eq_true_eq] at hstart
    cases hready : p.ready with
    | nil => simp [hready] at hstart
    | cons i ready =>
      have hlt : i < s.tasks.length := by
        rw [hs.tasks, ← hs.accounts.length]
        exact h.lt_of_ready (by simp [hready])
      exact move?_start hfault hready hstart.1 (List.getElem?_eq_getElem hlt)
  · next hstart =>
    -- Nothing can be started, so that a task that is done can be joined.
    have hfull : s.canStart p = false := by simpa [canStart] using hstart
    split
    · next slot hfind =>
      obtain ⟨hlt, hdone, -⟩ := List.findIdx?_eq_some_iff_getElem.1 hfind
      exact move?_join hfault hfull (List.getElem?_eq_getElem hlt) hdone
    · next hfind =>
      rw [List.findIdx?_eq_none_iff] at hfind
      split
      · have hne : p.inFlight ≠ [] := by
          intro hnil
          -- Some move other than receiving is possible, and all of those left need a flight.
          obtain ⟨m, q, hm, hq⟩ := exists_move hs h hover
          cases (moved_of_move? hq).2 with
          | start hready hroom _ => simp [canStart, hready, hroom] at hfull
          | advance hslot => simp [hnil] at hslot
          | join _ hslot => simp [hnil] at hslot
          | abort hslot => simp [hnil] at hslot
          | receive => exact hm rfl
        have hlt := Nat.mod_lt clock (List.length_pos_iff.2 hne)
        exact move?_advance hfault (List.getElem?_eq_getElem hlt)
          (hfind _ (List.getElem_mem hlt))
      · next hqueue => simp [move?, receive?, hfault, hqueue]

/-- The fair policy leads to the end of a run. -/
theorem run_fairPolicy (hs : s.Serves g) (p : Progress) (h : s.Balanced g p) (clock : Nat) :
    (∃ log, s.Ran (fun _ => True) p log (s.run (fairPolicy s.limit) clock p)) ∧
      isOver (s.run (fairPolicy s.limit) clock p) = true := by
  -- Every move brings the run nearer to its end.
  induction p using Progress.before_wellFounded.induction generalizing clock with
  | _ p ih =>
    rw [run]
    split
    · next hover => exact ⟨⟨[], .begin trivial⟩, hover⟩
    · next hover =>
      obtain ⟨q, hq⟩ := move?_fairPolicy hs h clock (by simpa using hover)
      obtain ⟨hfault, hmoved⟩ := moved_of_move? hq
      obtain ⟨⟨log, hran⟩, hend⟩ :=
        ih q (before_of_move hq) (h.move hs hfault hmoved) (clock + 1)
      have hstep : s.Ran (fun _ => True) p ([] ++ logged p (fairPolicy s.limit clock p)) q :=
        .move _ (.begin trivial) hq trivial
      split
      · next q' hq' =>
        obtain rfl := Option.some.inj (hq.symm.trans hq')
        exact ⟨⟨_, hstep.trans hran⟩, hend⟩
      · next hnone => rw [hq] at hnone; cases hnone

/-- Moves by a policy, at most so often. -/
def runFor (s : Schedule β) (policy : Policy) : Nat → Nat → Progress → Progress
  | 0, _, p => p
  | fuel + 1, clock, p =>
    if isOver p then p
    else
      match s.move? p (policy clock p) with
      | some q => runFor s policy fuel (clock + 1) q
      | none => p

/-- A run that is over after so many moves is the whole run. -/
theorem run_eq_runFor {policy : Policy} {fuel clock : Nat} {p : Progress}
    (h : isOver (s.runFor policy fuel clock p) = true) :
    s.run policy clock p = s.runFor policy fuel clock p := by
  -- By induction on the fuel: as long as it lasts, both take the same moves.
  induction fuel generalizing clock p with
  | zero =>
    have hover : isOver p = true := h
    rw [run, if_pos hover, runFor]
  | succ fuel ih =>
    rw [runFor] at h ⊢
    rw [run]
    split
    · rfl
    · next hover =>
      rw [if_neg hover] at h
      cases hmove : s.move? p (policy clock p) with
      | none => simp only
      | some q =>
        rw [hmove] at h
        exact ih h

end Schedule

namespace Engine

variable {β : Type}

/-- The engine's scheduler, by structural recursion for runs with at most so many moves. -/
def schedulerWithin (fuel : Nat) (perform : Performer β) : Scheduler β := fun g context w =>
  match g.plan with
  | .error e => (w, .error e)
  | .ok plan =>
    match prepare context w with
    | (w, .error e) => (w, .error e)
    | (w, .ok ()) =>
      let s := schedule perform g context plan
      let q := s.runFor (Schedule.fairPolicy s.limit) fuel 0 (s.begin w)
      if Schedule.isOver q then conclude context q
      else conclude context (s.run (Schedule.fairPolicy s.limit) 0 (s.begin w))

theorem scheduler_eq_within (fuel : Nat) (perform : Performer β) :
    scheduler perform = schedulerWithin fuel perform := by
  funext g context w
  unfold scheduler schedulerWithin
  cases g.plan with
  | error e => rfl
  | ok plan =>
    cases hprepare : prepare context w with
    | mk w' r =>
      cases r with
      | error e => rfl
      | ok u =>
        simp only
        split
        · next hover => rw [Schedule.run_eq_runFor hover]
        · rfl

/-- The engine's scheduler ends as a run may end. -/
theorem mayEnd_scheduler (perform : Performer β) (g : TaskGraph β) (context : RunContext)
    (w : World) : MayEnd perform g context w (scheduler perform g context w) := by
  unfold scheduler
  cases hplan : g.plan with
  | error e => exact .unplanned hplan
  | ok plan =>
    simp only
    cases hprepare : prepare context w with
    | mk w' r =>
      cases r with
      | error e => exact .unprepared hplan hprepare
      | ok u =>
        have hs := Schedule.serves_schedule perform context hplan
        -- The fair policy has a bound on its moves, so it comes to the end.
        obtain ⟨⟨log, hran⟩, hover⟩ :=
          Schedule.run_fairPolicy hs _ (Schedule.balanced_begin hs w') 0
        exact .carriedOut hplan hprepare hran hover

end Engine

end BlockFlow
