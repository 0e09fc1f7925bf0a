import BlockFlow.Proofs.Engine.Stages

/-!
# When the collector is finished

The collector ends once every sink is closed. A run has a sink of its own, which it gives up
at its end; a task gets one when it is started and closes it with its last step. So when a
run is over, however it ends, the sink of the run is the only one left, and the collector has
taken every failure that was sent.

## Key results

- `Schedule.sinks_of_ran`: which sinks are open at every point of a run
- `Schedule.finish?_of_idle`: the collector finishes, with everything that was sent
-/

namespace BlockFlow

namespace Fiber

variable {α β : Type}

/-- No step but the last one touches the sinks, and the last one closes one of them. -/
def ClosesLast : Fiber World α → Prop
  | done _ => True
  | step act next => (∀ w, (act w).1.failures.sinks =
      w.failures.sinks - if (next (act w).2).isDone then 1 else 0) ∧ ∀ b, (next b).ClosesLast

/-- What leaves the sinks alone may come first. -/
theorem closesLast_bind {p : Fiber World α} {f : α → Fiber World β}
    (hp : p.Always (fun w w' => w'.failures.sinks = w.failures.sinks))
    (hf : ∀ a, (f a).isDone = false ∧ (f a).ClosesLast) :
    (p >>= f).isDone = false ∧ (p >>= f).ClosesLast := by
  show (p.bind f).isDone = false ∧ (p.bind f).ClosesLast
  induction p with
  | done a => exact hf a
  | step act next ih =>
    refine ⟨rfl, fun w => ?_, fun b => (ih b (hp.2 b)).2⟩
    rw [if_neg (by rw [(ih (act w).2 (hp.2 _)).1]; decide)]
    exact hp.1 w

end Fiber

/-- An execution closes its sink with its last step. -/
theorem Execution.closesLast_execute (launcher : Launcher) (context : RunContext)
    (task : Task Work) (inputs : NameMap (Option Path)) :
    (execute (Work.perform launcher) context task inputs).isDone = false ∧
      (execute (Work.perform launcher) context task inputs).ClosesLast := by
  have hfiles : ∀ (w : World) files,
      ({ w with files } : World).failures.sinks = w.failures.sinks := fun _ _ => rfl
  rw [execute_eq]
  refine Fiber.closesLast_bind (Fiber.always_act (fun w => rfl)) (fun _ => ?_)
  refine Fiber.closesLast_bind (Fiber.always_onFiles hfiles _) (fun made => ?_)
  refine Fiber.closesLast_bind (always_inScratch hfiles (fun run =>
    task.work.always_perform hfiles (fun _ _ _ _ => rfl) run) made) (fun outcome => ?_)
  exact ⟨rfl, fun w => rfl, fun _ => trivial⟩

namespace Schedule

/-- Whether a task in flight still has its sink. -/
def holdsSink (f : Flight) : Bool := !f.fiber.isDone

/-- Open are the sink of the run and those of the tasks in flight that are not done. -/
structure Sinks (p : Progress) : Prop where
  sinks : p.world.failures.sinks = 1 + p.inFlight.countP holdsSink
  closes : ∀ f ∈ p.inFlight, f.fiber.ClosesLast

variable {launcher : Launcher} {s : Schedule Work} {p q : Progress} {m : Move}

theorem sinks_setStates (w : World) (names : List String) (state : TaskState) :
    (w.setStates names state).failures.sinks = w.failures.sinks := by
  unfold World.setStates
  induction names generalizing w with
  | nil => rfl
  | cons n ns ih => exact ih (w.setState n state)

private theorem countP_eraseIdx {fs : List Flight} {slot : Nat} {f : Flight}
    (hslot : fs[slot]? = some f) (hdone : f.fiber.isDone = true) :
    (fs.eraseIdx slot).countP holdsSink = fs.countP holdsSink := by
  obtain ⟨hlt, heq⟩ := List.getElem?_eq_some_iff.1 hslot
  rw [← (List.getElem_cons_eraseIdx_perm hlt).countP_eq, heq, List.countP_cons, holdsSink, hdone]
  rfl

theorem Sinks.move (hperform : s.perform = Work.perform launcher) (h : Sinks p)
    (hm : s.Moved p m q) : Sinks q := by
  cases hm with
  | @start i ready t hready hroom ht =>
    obtain ⟨hdone, hcloses⟩ := Execution.closesLast_execute launcher s.context t
      (s.plan.inputs[i]?.getD ∅)
    rw [← hperform] at hdone hcloses
    refine ⟨?_, fun f hf => ?_⟩
    · show p.world.failures.sinks + 1 = 1 + (p.inFlight ++ [_]).countP holdsSink
      have hone : [(⟨i, s.fiberAt i t⟩ : Flight)].countP holdsSink = 1 := by
        rw [List.countP_singleton, holdsSink, fiberAt, hdone]
        rfl
      rw [List.countP_append, h.sinks, hone]
      omega
    · rcases List.mem_append.1 hf with hf | hf
      · exact h.closes f hf
      · rw [List.mem_singleton.1 hf]
        exact hcloses
  | @advance slot i γ act next hslot =>
    obtain ⟨hsinks, hnext⟩ := h.closes _ (List.mem_of_getElem? hslot)
    refine ⟨?_, fun f hf => ?_⟩
    · show (act p.world).1.failures.sinks = 1 + (p.inFlight.set slot _).countP holdsSink
      obtain ⟨hlt, heq⟩ := List.getElem?_eq_some_iff.1 hslot
      -- The slot counts before the step. After it, it counts if the fiber is not done.
      have hpos : 0 < p.inFlight.countP holdsSink :=
        List.countP_pos_iff.2 ⟨_, List.mem_of_getElem? hslot, rfl⟩
      have hbefore : holdsSink ⟨i, .step act next⟩ = true := rfl
      have hafter : holdsSink ⟨i, next (act p.world).2⟩ = !(next (act p.world).2).isDone := rfl
      rw [hsinks, h.sinks, List.countP_set hlt, heq, hbefore, hafter]
      cases (next (act p.world).2).isDone <;> simp <;> omega
    · rcases List.mem_or_eq_of_mem_set hf with hf | rfl
      · exact h.closes f hf
      · exact hnext _
  | @join slot i state hfull hslot =>
    refine ⟨?_, fun f hf => h.closes f (List.mem_of_mem_eraseIdx hf)⟩
    refine (sinks_setStates _ _ _).trans (h.sinks.trans ?_)
    exact congrArg (1 + ·) (countP_eraseIdx hslot rfl).symm
  | @abort slot i e hslot =>
    refine ⟨?_, fun f hf => absurd hf List.not_mem_nil⟩
    -- The sinks of all flights are closed, and that of the run stays open.
    show p.world.failures.sinks - (p.inFlight.filter holdsSink).length = 1 + 0
    rw [h.sinks, List.countP_eq_length_filter]
    omega
  | receive =>
    refine ⟨?_, h.closes⟩
    show p.world.failures.receive.sinks = _
    rw [← show p.world.failures.sinks = _ from h.sinks]
    unfold Mailbox.receive
    split <;> rfl

/-- Throughout a run of compiled tasks, open are the sink of the run and one for each task in
flight that is not done. -/
theorem sinks_of_ran (hperform : s.perform = Work.perform launcher) {P : Progress → Prop}
    {w : World} {log : List (Nat × World)} (hsinks : w.failures.sinks = 1)
    (h : s.Ran P (s.begin w) log p) : Sinks p := by
  refine h.invariant (I := fun _ p => Sinks p) ⟨?_, fun f hf => absurd hf List.not_mem_nil⟩
    (fun _ _ _ _ _ hp _ hm _ => hp.move hperform hm)
  exact (sinks_setStates _ _ _).trans ((sinks_setStates _ _ _).trans hsinks)

/-- When nothing is in flight any more and the run gives up its sink, the collector finishes
with every failure that was sent, taken or not. -/
theorem finish?_of_idle (h : Sinks p) (hidle : p.inFlight = []) :
    p.world.failures.closeSink.finish? = some p.world.failures.drain := by
  have hzero : p.world.failures.closeSink.sinks = 0 := by
    show p.world.failures.sinks - 1 = 0
    rw [h.sinks, hidle]
    rfl
  rw [Mailbox.finish?, if_pos hzero]
  rfl

end Schedule

end BlockFlow
