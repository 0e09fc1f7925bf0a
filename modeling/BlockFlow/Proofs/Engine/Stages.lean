import BlockFlow.Proofs.Engine.Order
import BlockFlow.Proofs.Engine.Stakes

/-!
# The stages of a task

A task waits until it is started, is in flight while it takes its steps, and is completed
once it has been joined. `Stages` is something said of every task in the stage that it has
reached. What the steps of a task, those of the other tasks and the moves of the engine
leave true holds throughout a run.

## Key results

- `Stages.Holds.move`: what one move keeps
- `Stages.holds_of_ran`: what a whole run keeps
-/

namespace BlockFlow

/-- Something said of the world, and of every task in its stage; `ws` are the worlds in which
the task has taken its steps. -/
structure Stages where
  common : World → Prop
  waiting : Nat → World → Prop
  inFlight : Nat → List World → Fiber World (Except ExecutionError TaskState) → World → Prop
  completed : Nat → List World → TaskState → World → Prop

/-! ## What the engine does to the world -/

/-- Taking a failure does not change what the collector ends with. -/
theorem Mailbox.drain_receive (m : Mailbox) : m.receive.drain = m.drain := by
  unfold Mailbox.receive
  split
  · rfl
  · next hq => rw [Mailbox.drain, Mailbox.drain, hq]; rfl

/-- Recording states changes neither files nor failures. -/
theorem World.of_setStates (w : World) (names : List String) (state : TaskState) :
    (w.setStates names state).files = w.files ∧
      ∀ id, (w.setStates names state).cell id = w.cell id := by
  unfold World.setStates
  induction names generalizing w with
  | nil => exact ⟨rfl, fun _ => rfl⟩
  | cons n ns ih => exact ih (w.setState n state)

/-- A move that is no step of a task changes neither files nor failures. -/
theorem Schedule.Moved.files_cell {β : Type} {s : Schedule β} {p q : Progress} {m : Move}
    (hm : s.Moved p m q) (hstep : ∀ slot, m ≠ .advance slot) :
    q.world.files = p.world.files ∧ ∀ id, q.world.cell id = p.world.cell id := by
  cases hm with
  | start => exact ⟨rfl, fun _ => rfl⟩
  | advance => exact absurd rfl (hstep _)
  | join => exact World.of_setStates _ _ _
  | abort => exact ⟨rfl, fun _ => rfl⟩
  | receive =>
    refine ⟨rfl, fun id => ?_⟩
    exact congrArg (fun c : FailureMap => c.get? id) (Mailbox.drain_receive p.world.failures)

/-- Before its first move the engine records the states of the tasks. -/
theorem Schedule.files_cell_begin {β : Type} (s : Schedule β) (w : World) :
    (s.begin w).world.files = w.files ∧ ∀ id, (s.begin w).world.cell id = w.cell id := by
  have hpending := World.of_setStates w (s.tasks.map (·.name)) .pending
  have hrunnable := World.of_setStates (w.setStates (s.tasks.map (·.name)) .pending)
    ((Plan.readyAt s.plan.remaining).map s.taskName) .runnable
  exact ⟨hrunnable.1.trans hpending.1, fun id => (hrunnable.2 id).trans (hpending.2 id)⟩

/-! ## From stage to stage -/

namespace Stages

variable {β : Type}

/-- What is said of the task at `i` outlasts this change of the world. -/
structure Outlasts (S : Stages) (i : Nat) (w w' : World) : Prop where
  waiting : S.waiting i w → S.waiting i w'
  inFlight : ∀ ws fiber, S.inFlight i ws fiber w → S.inFlight i ws fiber w'
  completed : ∀ ws state, S.completed i ws state w → S.completed i ws state w'

/-- What is said is true of the tasks of a schedule from stage to stage, whatever the other
tasks and the engine do. -/
structure Kept (S : Stages) (s : Schedule β) : Prop where
  start : ∀ i t w, s.tasks[i]? = some t → S.waiting i w → S.inFlight i [] (s.fiberAt i t) w
  advance : ∀ i ws (γ : Type) (act : World → World × γ) next w,
    S.inFlight i ws (.step act next) w →
      S.inFlight i (ws ++ [w]) (next (act w).2) (act w).1
  join : ∀ i ws state w, S.inFlight i ws (.done (.ok state)) w → S.completed i ws state w
  /-- A step of one task concerns no other one. -/
  others : ∀ i j ws (γ : Type) (act : World → World × γ) next w, i ≠ j →
    S.inFlight i ws (.step act next) w → S.Outlasts j w (act w).1
  /-- The engine leaves files and failures alone. -/
  engine : ∀ j w w', w'.files = w.files → (∀ id, w'.cell id = w.cell id) → S.Outlasts j w w'
  commonStep : ∀ i ws (γ : Type) (act : World → World × γ) next w,
    S.inFlight i ws (.step act next) w → S.common w → S.common (act w).1
  commonEngine : ∀ w w', w'.files = w.files → (∀ id, w'.cell id = w.cell id) →
    S.common w → S.common w'

open Schedule (worldsOf logged)

/-- What is said of the tasks of a run holds; the log has the steps that they have taken. -/
structure Holds (S : Stages) (log : List (Nat × World)) (p : Progress) : Prop where
  common : S.common p.world
  waiting : ∀ i, i ∉ p.started → worldsOf log i = [] ∧ S.waiting i p.world
  inFlight : ∀ f ∈ p.inFlight, S.inFlight f.index (worldsOf log f.index) f.fiber p.world
  completed : ∀ i state, (i, state) ∈ p.completed → S.completed i (worldsOf log i) state p.world

theorem worldsOf_logged_advance {p : Progress} {slot : Nat} {f : Flight}
    (hslot : p.inFlight[slot]? = some f) (i : Nat) :
    worldsOf (logged p (.advance slot)) i = if f.index = i then [p.world] else [] := by
  simp only [logged, hslot, Option.map_some, Option.toList_some, worldsOf, List.filter_cons,
    List.filter_nil, decide_eq_true_eq]
  split <;> rfl

variable {S : Stages} {s : Schedule β} {g : TaskGraph β} {log : List (Nat × World)}
  {p q : Progress}

/-- What is said holds in a world that the engine has left, if nothing moves. -/
private theorem Holds.of_engine (hS : S.Kept s) (h : S.Holds log p) {w : World}
    (hfiles : w.files = p.world.files) (hcell : ∀ id, w.cell id = p.world.cell id) :
    S.Holds log { p with world := w } where
  common := hS.commonEngine _ _ hfiles hcell h.common
  waiting i hi := ⟨(h.waiting i hi).1, (hS.engine i _ _ hfiles hcell).waiting (h.waiting i hi).2⟩
  inFlight f hf := (hS.engine f.index _ _ hfiles hcell).inFlight _ _ (h.inFlight f hf)
  completed i state hi := (hS.engine i _ _ hfiles hcell).completed _ _ (h.completed i state hi)

/-- A task in flight takes a step, which concerns no other task. -/
private theorem Holds.advance (hS : S.Kept s) (hb : s.Balanced g p) (h : S.Holds log p)
    {slot i : Nat} {γ : Type} {act : World → World × γ}
    {next : γ → Fiber World (Except ExecutionError TaskState)}
    (hslot : p.inFlight[slot]? = some ⟨i, .step act next⟩) :
    S.Holds (log ++ logged p (.advance slot)) { p with
      inFlight := p.inFlight.set slot ⟨i, next (act p.world).2⟩
      world := (act p.world).1 } := by
  have hmem := List.mem_of_getElem? hslot
  have hself := h.inFlight _ hmem
  have hother : ∀ j, i ≠ j → worldsOf (log ++ logged p (.advance slot)) j = worldsOf log j ∧
      S.Outlasts j p.world (act p.world).1 := by
    intro j hij
    refine ⟨?_, hS.others i j _ γ act next p.world hij hself⟩
    rw [Schedule.worldsOf_append, worldsOf_logged_advance hslot, if_neg hij, List.append_nil]
  refine ⟨hS.commonStep i _ γ act next p.world hself h.common, fun j hj => ?_, fun f hf => ?_,
    fun j state hj => ?_⟩
  · obtain ⟨hworlds, houtlasts⟩ := hother j (fun hij => hj (hij ▸ hb.started_of_inFlight hmem))
    exact ⟨hworlds.trans (h.waiting j hj).1, houtlasts.waiting (h.waiting j hj).2⟩
  · obtain ⟨k, hk⟩ := List.getElem?_of_mem hf
    change (p.inFlight.set slot _)[k]? = some f at hk
    rw [List.getElem?_set] at hk
    split at hk
    · split at hk
      · obtain rfl := Option.some.inj hk
        show S.inFlight i (worldsOf (log ++ logged p (.advance slot)) i) _ _
        rw [Schedule.worldsOf_append, worldsOf_logged_advance hslot, if_pos rfl]
        exact hS.advance i _ γ act next p.world hself
      · cases hk
    · next hne =>
      -- Another slot has another task.
      obtain ⟨hworlds, houtlasts⟩ := hother f.index (fun hif => hne (hb.slot_eq hslot hk hif))
      rw [hworlds]
      exact houtlasts.inFlight _ _ (h.inFlight f (List.mem_of_getElem? hk))
  · have hfinished : j ∈ p.finished := List.mem_map_of_mem hj
    obtain ⟨hworlds, houtlasts⟩ := hother j (fun hij => hb.not_finished hmem (hij ▸ hfinished))
    rw [hworlds]
    exact houtlasts.completed _ _ (h.completed j state hj)

/-- Every move leaves true what is said of the tasks. -/
theorem Holds.move (hS : S.Kept s) (hb : s.Balanced g p) (h : S.Holds log p) {m : Move}
    (hm : s.Moved p m q) : S.Holds (log ++ logged p m) q := by
  have hworld := hm.files_cell
  cases hm with
  | advance hslot => exact h.advance hS hb hslot
  | @start i ready t hready hroom ht =>
    obtain ⟨hfiles, hcell⟩ := hworld (by simp)
    have h' := h.of_engine hS hfiles hcell
    rw [show log ++ logged p .start = log from List.append_nil log]
    -- The task has waited so far, and its execution has taken no step.
    have hnew : i ∉ p.started := hb.not_started (by rw [hready]; exact List.mem_cons_self)
    refine ⟨h'.common, fun j hj => h'.waiting j (fun hs => hj (List.mem_append_left _ hs)),
      fun f hf => ?_, h'.completed⟩
    rcases List.mem_append.1 hf with hf | hf
    · exact h'.inFlight f hf
    · obtain rfl := List.mem_singleton.1 hf
      rw [(h'.waiting i hnew).1]
      exact hS.start i t _ ht (h'.waiting i hnew).2
  | @join slot i state hfull hslot =>
    obtain ⟨hfiles, hcell⟩ := hworld (by simp)
    have h' := h.of_engine hS hfiles hcell
    rw [show log ++ logged p (.join slot) = log from List.append_nil log]
    refine ⟨h'.common, h'.waiting, fun f hf => h'.inFlight f (List.mem_of_mem_eraseIdx hf),
      fun j state' hj => ?_⟩
    rcases List.mem_append.1 hj with hj | hj
    · exact h'.completed j state' hj
    · obtain ⟨rfl, rfl⟩ := Prod.mk.inj (List.mem_singleton.1 hj)
      exact hS.join _ _ _ _ (h'.inFlight _ (List.mem_of_getElem? hslot))
  | @abort slot i e hslot =>
    obtain ⟨hfiles, hcell⟩ := hworld (by simp)
    have h' := h.of_engine hS hfiles hcell
    rw [show log ++ logged p (.join slot) = log from List.append_nil log]
    exact ⟨h'.common, h'.waiting, fun f hf => absurd hf List.not_mem_nil, h'.completed⟩
  | receive =>
    obtain ⟨hfiles, hcell⟩ := hworld (by simp)
    rw [show log ++ logged p .receive = log from List.append_nil log]
    exact h.of_engine hS hfiles hcell

/-- What is said of waiting tasks at the beginning is said, stage by stage, throughout a run. -/
theorem holds_of_ran (hs : s.Serves g) (hS : S.Kept s) {P : Progress → Prop} {w : World}
    (hcommon : S.common w) (hwaiting : ∀ i, S.waiting i w) (h : s.Ran P (s.begin w) log p) :
    S.Holds log p := by
  have hworld := s.files_cell_begin w
  have hbegin : S.Holds [] (s.begin w) := ⟨hS.commonEngine _ _ hworld.1 hworld.2 hcommon,
    fun i _ => ⟨rfl, (hS.engine i _ _ hworld.1 hworld.2).waiting (hwaiting i)⟩,
    fun f hf => absurd hf List.not_mem_nil, fun i state hi => absurd hi List.not_mem_nil⟩
  have hboth := h.invariant (I := fun log p => s.Balanced g p ∧ S.Holds log p)
    ⟨Schedule.balanced_begin hs w, hbegin⟩
    (fun _ _ _ _ _ hp hfault hm _ => ⟨hp.1.move hs hfault hm, hp.2.move hS hp.1 hm⟩)
  exact hboth.2

end Stages

end BlockFlow
