import BlockFlow.Engine.Execution

/-!
# The steps of a fiber

A fiber in flight takes its steps in whatever states the others leave behind. Two
predicates describe it without saying which states these are:

- `Fiber.Always R`: every step, from any state at all, is one that `R` allows;
- `Fiber.Ends ss a`: taking its steps in the states `ss`, one after the other, the
  fiber comes to its end with `a`.

## Key results

- `always_bind`, `ends_bind`: both predicates pass through `bind`
- `Work.always_perform`, `Execution.always_inScratch`: what the work of a task, and its
  execution, can do at all
- `TaskRun.ends_runBlock`: what a block program does first, and what follows from that
- `Execution.taken_of_ends`: all the steps of an execution that has come to an end
- `Execution.ends_execute`: an execution that ends with a state has done the work of
  its task, which gave that state, and after it the publication, if it succeeded
-/

namespace BlockFlow

namespace Fiber

variable {σ τ α β : Type}

/-! ## Steps from any state -/

/-- Every step of the fiber, from whatever state it is taken, is allowed by `R`. -/
def Always (R : σ → σ → Prop) : Fiber σ α → Prop
  | done _ => True
  | step act next => (∀ s, R s (act s).1) ∧ ∀ b, (next b).Always R

@[simp] theorem always_pure (R : σ → σ → Prop) (a : α) : (pure a : Fiber σ α).Always R := trivial

theorem always_act {R : σ → σ → Prop} {f : σ → σ × α} (h : ∀ s, R s (f s).1) :
    (act f).Always R :=
  ⟨h, fun _ => trivial⟩

theorem always_bind {R : σ → σ → Prop} {p : Fiber σ α} {f : α → Fiber σ β}
    (hp : p.Always R) (hf : ∀ a, (f a).Always R) : (p >>= f).Always R := by
  show (p.bind f).Always R
  induction p with
  | done a => exact hf a
  | step act next ih => exact ⟨hp.1, fun b => ih b (hp.2 b)⟩

/-- A fiber on a part of the state takes its steps on that part. -/
theorem always_onPart {R : σ → σ → Prop} {S : τ → τ → Prop} {get : τ → σ} {put : τ → σ → τ}
    (hS : ∀ t s, R (get t) s → S t (put t s)) {p : Fiber σ α} (hp : p.Always R) :
    (p.onPart get put).Always S := by
  induction p with
  | done a => trivial
  | step act next ih => exact ⟨fun t => hS t _ (hp.1 (get t)), fun b => ih b (hp.2 b)⟩

theorem Always.mono {R S : σ → σ → Prop} (hRS : ∀ s s', R s s' → S s s') {p : Fiber σ α}
    (hp : p.Always R) : p.Always S := by
  induction p with
  | done a => trivial
  | step act next ih => exact ⟨fun s => hRS _ _ (hp.1 s), fun b => ih b (hp.2 b)⟩

/-- Without any demand on its steps, every fiber qualifies. -/
theorem always_of_forall {R : σ → σ → Prop} (h : ∀ s s', R s s') (p : Fiber σ α) :
    p.Always R := by
  induction p with
  | done a => trivial
  | step act next ih => exact ⟨fun s => h s _, ih⟩

/-- A computation that may fail goes on only after a result. -/
theorem always_exceptT_bind {ε : Type} {R : σ → σ → Prop} {p : ExceptT ε (Fiber σ) α}
    {f : α → ExceptT ε (Fiber σ) β} (hp : p.run.Always R) (hf : ∀ a, (f a).run.Always R) :
    (p >>= f).run.Always R := by
  rw [ExceptT.run_bind]
  refine always_bind hp (fun outcome => ?_)
  cases outcome with
  | ok a => exact hf a
  | error e => exact always_pure _ _

/-- What is done on the files changes nothing else in the world. -/
theorem always_onFiles {R : World → World → Prop}
    (hfiles : ∀ (w : World) files, R w { w with files }) (p : Fiber FileTree α) :
    p.onFiles.Always R :=
  always_onPart (R := fun _ _ => True) (fun w files _ => hfiles w files)
    (always_of_forall (fun _ _ => trivial) p)

/-! ## Steps in given states -/

/-- Taking one step in each of the states `ss`, the fiber ends with `b`. -/
def Ends : Fiber σ α → List σ → α → Prop
  | done a, ss, b => ss = [] ∧ a = b
  | step _ _, [], _ => False
  | step act next, s :: ss, b => (next (act s).2).Ends ss b

@[simp] theorem ends_pure {a b : α} {ss : List σ} :
    (pure a : Fiber σ α).Ends ss b ↔ ss = [] ∧ a = b :=
  Iff.rfl

theorem ends_act {f : σ → σ × α} {ss : List σ} {a : α} :
    (act f).Ends ss a ↔ ∃ s, ss = [s] ∧ (f s).2 = a := by
  cases ss with
  | nil => exact ⟨fun h => h.elim, fun ⟨s, hs, _⟩ => absurd hs (by simp)⟩
  | cons s ss =>
    constructor
    · rintro ⟨rfl, rfl⟩
      exact ⟨s, rfl, rfl⟩
    · rintro ⟨s', hs, rfl⟩
      obtain ⟨rfl, rfl⟩ := List.cons.inj hs
      exact ⟨rfl, rfl⟩

theorem ends_onFiles_attempt {f : FileTree → Except FileError (FileTree × α)} {ws : List World}
    {r : Except FileError α} :
    (attempt f).onFiles.Ends ws r ↔ ∃ w, ws = [w] ∧
      match r with
      | .ok a => ∃ files, f w.files = .ok (files, a)
      | .error e => f w.files = .error e := by
  refine (ends_act (σ := World)).trans (exists_congr fun w => and_congr_right fun _ => ?_)
  cases hf : f w.files <;> cases r <;> simp [hf, Prod.ext_iff]

/-- A fiber on the files ends after the files of its worlds. -/
theorem ends_onFiles {p : Fiber FileTree α} {ws : List World} {a : α} :
    p.onFiles.Ends ws a ↔ p.Ends (ws.map (·.files)) a := by
  induction p generalizing ws with
  | done b => exact and_congr_left fun _ => List.map_eq_nil_iff.symm
  | step act next ih =>
    cases ws with
    | nil => exact Iff.rfl
    | cons w ws => exact ih (act w.files).2

/-- After which of its states a fiber ends, and how, is decided by the states themselves. -/
theorem Ends.unique {p : Fiber σ α} {ss ss' ts ts' : List σ} {a a' : α} (h : p.Ends ss a)
    (h' : p.Ends ss' a') (hss : ss ++ ts = ss' ++ ts') : ss = ss' ∧ a = a' ∧ ts = ts' := by
  -- The state of a step decides how the fiber goes on, so the two runs never part.
  induction p generalizing ss ss' with
  | done b =>
    obtain ⟨rfl, rfl⟩ := h
    obtain ⟨rfl, rfl⟩ := h'
    exact ⟨rfl, rfl, hss⟩
  | step act next ih =>
    cases ss with
    | nil => exact h.elim
    | cons s ss =>
      cases ss' with
      | nil => exact h'.elim
      | cons s' ss' =>
        obtain ⟨rfl, hrest⟩ := List.cons.inj hss
        obtain ⟨rfl, ha, hts⟩ := ih _ h h' hrest
        exact ⟨rfl, ha, hts⟩

/-- A fiber made of two ends after the states of the first and those of the second. -/
theorem ends_bind {p : Fiber σ α} {f : α → Fiber σ β} {ss : List σ} {b : β} :
    (p >>= f).Ends ss b ↔
      ∃ ss₁ a ss₂, ss = ss₁ ++ ss₂ ∧ p.Ends ss₁ a ∧ (f a).Ends ss₂ b := by
  show (p.bind f).Ends ss b ↔ _
  induction p generalizing ss with
  | done a =>
    constructor
    · intro h
      exact ⟨[], a, ss, rfl, ⟨rfl, rfl⟩, h⟩
    · rintro ⟨ss₁, a', ss₂, rfl, ⟨rfl, rfl⟩, h⟩
      exact h
  | step act next ih =>
    cases ss with
    | nil =>
      constructor
      · exact fun h => h.elim
      · rintro ⟨ss₁, a, ss₂, hss, hp, -⟩
        obtain ⟨rfl, -⟩ := List.append_eq_nil_iff.1 hss.symm
        cases hp
    | cons s ss =>
      -- The first state is the first one of the first fiber.
      show ((next (act s).2).bind f).Ends ss b ↔ _
      rw [ih]
      constructor
      · rintro ⟨ss₁, a, ss₂, rfl, hp, hf⟩
        exact ⟨s :: ss₁, a, ss₂, rfl, hp, hf⟩
      · rintro ⟨ss₁, a, ss₂, hss, hp, hf⟩
        cases ss₁ with
        | nil => cases hp
        | cons s₁ ss₁ =>
          obtain ⟨rfl, rfl⟩ := List.cons.inj hss
          exact ⟨ss₁, a, ss₂, rfl, hp, hf⟩

/-- Where the first of two programs ends with an error, the second takes no step. -/
theorem ends_exceptT_bind {ε : Type} {p : ExceptT ε (Fiber σ) α} {f : α → ExceptT ε (Fiber σ) β}
    {ss : List σ} {r : Except ε β} (h : (p >>= f).run.Ends ss r) :
    ∃ ss₁ q ss₂, ss = ss₁ ++ ss₂ ∧ p.run.Ends ss₁ q ∧
      match q with
      | .ok a => (f a).run.Ends ss₂ r
      | .error e => ss₂ = [] ∧ r = .error e := by
  rw [ExceptT.run_bind] at h
  obtain ⟨ss₁, q, ss₂, rfl, hp, hf⟩ := ends_bind.1 h
  cases q with
  | ok a => exact ⟨ss₁, .ok a, ss₂, rfl, hp, hf⟩
  | error e =>
    obtain ⟨rfl, rfl⟩ := ends_pure.1 hf
    exact ⟨ss₁, .error e, [], rfl, hp, rfl, rfl⟩

/-- `g` is what is left of `p` after steps in the states `ss`: however `g` ends, `p` ends so
after these states. -/
def Leaves (p : Fiber σ α) (ss : List σ) (g : Fiber σ α) : Prop :=
  ∀ ts b, g.Ends ts b → p.Ends (ss ++ ts) b

theorem leaves_refl (p : Fiber σ α) : p.Leaves [] p := fun _ _ h => h

/-- One more step is taken, in the state `s`. -/
theorem Leaves.step {γ : Type} {p : Fiber σ α} {ss : List σ} {act : σ → σ × γ}
    {next : γ → Fiber σ α} (h : p.Leaves ss (.step act next)) (s : σ) :
    p.Leaves (ss ++ [s]) (next (act s).2) := by
  intro ts b hts
  have := h (s :: ts) b hts
  rwa [List.append_assoc, List.singleton_append]

theorem Leaves.ends {p : Fiber σ α} {ss : List σ} {a : α} (h : p.Leaves ss (done a)) :
    p.Ends ss a := by
  have := h [] a ⟨rfl, rfl⟩
  rwa [List.append_nil] at this

end Fiber

/-! ## The work of a compiled task -/

/-- The node on behalf of which a command is run. -/
def Work.node? : Work → Option NodeId
  | .emit _ => none
  | .block node => some node

/-- All that the work of a task does is to change files, and to report a failure of its node. -/
theorem Work.always_perform {R : World → World → Prop} {launcher : Launcher} (work : Work)
    (hfiles : ∀ (w : World) files, R w { w with files })
    (hemit : ∀ (w : World) node output, work.node? = some node → R w (w.emit ⟨node, output⟩))
    (run : TaskRun) : (work.perform launcher run).run.Always R := by
  cases work with
  | emit content =>
    exact Fiber.always_exceptT_bind (Fiber.always_onFiles hfiles _)
      (fun _ => Fiber.always_pure _ _)
  | block node =>
    refine Fiber.always_exceptT_bind (Fiber.always_onFiles hfiles _) (fun missing => ?_)
    split
    · exact Fiber.always_pure _ _
    -- Rendering takes no step at all.
    refine Fiber.always_exceptT_bind ?_ (fun command => ?_)
    · cases run.renderCommand <;> exact Fiber.always_pure _ _
    refine Fiber.always_exceptT_bind ?_ (fun result => ?_)
    · exact Fiber.always_bind (Fiber.always_onFiles hfiles _) (fun _ => Fiber.always_pure _ _)
    cases result with
    | error e => exact Fiber.always_pure _ _
    | ok result =>
      simp only
      split
      · exact Fiber.always_pure _ _
      · refine Fiber.always_exceptT_bind ?_ (fun _ => Fiber.always_pure _ _)
        exact Fiber.always_bind (Fiber.always_act (fun w => hemit w node _ rfl))
          (fun _ => Fiber.always_pure _ _)

/-- A block program looks for its files first. It ends there if one cannot be looked at, and is
skipped if some are missing; only otherwise does it go on to its command, and is not skipped. -/
theorem TaskRun.ends_runBlock {launcher : Launcher} {run : TaskRun} {node : NodeId}
    {ws : List World} {outcome : Except ExecutionError TaskState}
    (h : (run.runBlock launcher node).run.Ends ws outcome) :
    ∃ looking found rest, ws = looking ++ rest ∧ run.missingInputs.onWorld.run.Ends looking found ∧
      match found with
      | .error e => rest = [] ∧ outcome = .error e
      | .ok [] => ∀ state, outcome = .ok state → state = .succeeded ∨ state = .failed
      | .ok (_ :: _) => rest = [] ∧ outcome = .ok .skipped := by
  unfold TaskRun.runBlock at h
  obtain ⟨looking, found, rest, rfl, hlooking, h⟩ := Fiber.ends_exceptT_bind h
  refine ⟨looking, found, rest, rfl, hlooking, ?_⟩
  rcases found with e | _ | ⟨port, ports⟩
  · exact h
  · -- Nothing is missing, so the program goes on, and cannot be skipped any more.
    rintro state rfl
    obtain ⟨_, rendered, _, -, -, h⟩ := Fiber.ends_exceptT_bind h
    cases rendered with
    | error e => cases h.2
    | ok command =>
      obtain ⟨_, answered, _, -, -, h⟩ := Fiber.ends_exceptT_bind h
      rcases answered with e | e | result
      · cases h.2
      · cases (Fiber.ends_pure.1 h).2
      · simp only at h
        split at h
        · cases (Fiber.ends_pure.1 h).2
          exact .inl rfl
        · obtain ⟨_, emitted, _, -, -, h⟩ := Fiber.ends_exceptT_bind h
          cases emitted with
          | error e => cases h.2
          | ok _ =>
            cases (Fiber.ends_pure.1 h).2
            exact .inr rfl
  · exact (Fiber.ends_pure.1 h).imp_right Eq.symm

/-! ## The execution of a task -/

namespace Execution

variable {β : Type}

/-- The work of a task was done in the worlds `work`, and ended with `state`; if it
succeeded, the publication of its outputs was then gone through in the worlds
`publishing`. Nothing of the execution took place in other worlds than `ws`. -/
def Performed (perform : Performer β) (context : RunContext) (task : Task β)
    (inputs : NameMap (Option Path)) (ws : List World) (state : TaskState) : Prop :=
  ∃ scratch opening work publishing closing,
    ws = opening ++ (work ++ (publishing ++ closing)) ∧
    (perform task.work (bindRun task inputs scratch context)).run.Ends work (.ok state) ∧
    (state = .succeeded →
      (publishAll scratch task.outputPorts.toList).onFiles.Ends publishing ())

/-- In the worlds `ws` a task has got the directory `scratch` and has done its work there, which
has ended with `state`; `after` is the first world after that. -/
def Worked (perform : Performer β) (context : RunContext) (task : Task β)
    (inputs : NameMap (Option Path)) (ws : List World) (state : TaskState) (scratch : Path)
    (after : World) : Prop :=
  ∃ begun made work rest, ws = begun :: made :: (work ++ after :: rest) ∧
    (∃ files, made.files.mkdirFresh context.scratchRoot (scratchStem task.name) =
      .ok (files, scratch)) ∧
    (perform task.work (bindRun task inputs scratch context)).run.Ends work (.ok state)

/-- A task does its work once. -/
theorem Worked.unique {perform : Performer β} {context : RunContext} {task : Task β}
    {inputs : NameMap (Option Path)} {ws : List World} {state state' : TaskState}
    {scratch scratch' : Path} {after after' : World}
    (h : Worked perform context task inputs ws state scratch after)
    (h' : Worked perform context task inputs ws state' scratch' after') :
    state = state' ∧ scratch = scratch' ∧ after = after' := by
  obtain ⟨begun, made, work, rest, rfl, ⟨files, hmade⟩, hwork⟩ := h
  obtain ⟨begun', made', work', rest', hws, ⟨files', hmade'⟩, hwork'⟩ := h'
  obtain ⟨-, hmades⟩ := List.cons.inj hws
  obtain ⟨rfl, hworks⟩ := List.cons.inj hmades
  obtain ⟨rfl, rfl⟩ := Prod.mk.inj (Except.ok.inj (hmade.symm.trans hmade'))
  obtain ⟨-, hstate, hrest⟩ := hwork.unique hwork' hworks
  exact ⟨Except.ok.inj hstate, rfl, (List.cons.inj hrest).1⟩

/-- What is done once it is known whether there is a scratch directory. -/
def inScratch (perform : Performer β) (context : RunContext) (task : Task β)
    (inputs : NameMap (Option Path)) :
    Except FileError Path → Fiber World (Except ExecutionError TaskState)
  | .error cause => pure (.error (.setup context.scratchRoot cause))
  | .ok scratch => do
    let outcome ← workIn perform context task inputs scratch
    (Fiber.change (fun files : FileTree => files.removeAll scratch)).onFiles
    pure outcome

/-- An execution in its parts: the start, the scratch directory, the work in it, and the
closing of the sink. -/
theorem execute_eq (perform : Performer β) (context : RunContext) (task : Task β)
    (inputs : NameMap (Option Path)) :
    execute perform context task inputs =
      (Fiber.change (·.setState task.name .running) >>= fun _ =>
        (Fiber.attempt (fun files : FileTree =>
          files.mkdirFresh context.scratchRoot (scratchStem task.name))).onFiles >>= fun made =>
        inScratch perform context task inputs made >>= fun outcome =>
        Fiber.change (fun w => { w with failures := w.failures.closeSink }) >>= fun _ =>
        pure outcome) := by
  unfold execute
  congr 1
  funext _
  congr 1
  funext made
  cases made with
  | error cause => rfl
  | ok scratch => simp only [inScratch, bind_assoc, pure_bind]

/-- Between its start and the closing of its sink an execution changes files, and does the work
of its task. -/
theorem always_inScratch {R : World → World → Prop} {perform : Performer β}
    {context : RunContext} {task : Task β} {inputs : NameMap (Option Path)}
    (hfiles : ∀ (w : World) files, R w { w with files })
    (hwork : ∀ run, (perform task.work run).run.Always R) (made : Except FileError Path) :
    (inScratch perform context task inputs made).Always R := by
  cases made with
  | error cause => exact Fiber.always_pure _ _
  | ok scratch =>
    refine Fiber.always_bind (Fiber.always_bind (hwork _) (fun outcome => ?_)) (fun _ => ?_)
    · split
      · exact Fiber.always_bind (Fiber.always_onFiles hfiles _) (fun _ => Fiber.always_pure _ _)
      · exact Fiber.always_pure _ _
    · exact Fiber.always_bind (Fiber.always_onFiles hfiles _) (fun _ => Fiber.always_pure _ _)

/-- All the steps of an execution that has come to an end, by the worlds in which they were taken:
the start, the making of the scratch directory, the work of the task if there is such a directory,
the publication of its outputs if it has succeeded, the removal of the directory, and the closing of
the sink. -/
inductive Taken (perform : Performer β) (context : RunContext) (task : Task β)
    (inputs : NameMap (Option Path)) : List World → Except ExecutionError TaskState → Prop
  | unhoused {begun made closing : World} {cause : FileError}
      (hmade : made.files.mkdirFresh context.scratchRoot (scratchStem task.name) = .error cause) :
      Taken perform context task inputs [begun, made, closing]
        (.error (.setup context.scratchRoot cause))
  | worked {begun made removing closing : World} {work publishing : List World} {files : FileTree}
      {scratch : Path} {outcome : Except ExecutionError TaskState}
      (hmade : made.files.mkdirFresh context.scratchRoot (scratchStem task.name) =
        .ok (files, scratch))
      (hwork : (perform task.work (bindRun task inputs scratch context)).run.Ends work outcome)
      (hsucceeded : outcome = .ok .succeeded →
        (publishAll scratch task.outputPorts.toList).onFiles.Ends publishing ())
      (hothers : outcome ≠ .ok .succeeded → publishing = []) :
      Taken perform context task inputs
        (begun :: made :: (work ++ (publishing ++ [removing, closing]))) outcome

variable {perform : Performer β} {context : RunContext} {task : Task β}
  {inputs : NameMap (Option Path)} {scratch : Path} {ws : List World}
  {outcome : Except ExecutionError TaskState}

private theorem ends_workIn (h : (workIn perform context task inputs scratch).Ends ws outcome) :
    ∃ work publishing, ws = work ++ publishing ∧
      (perform task.work (bindRun task inputs scratch context)).run.Ends work outcome ∧
      (outcome = .ok .succeeded →
        (publishAll scratch task.outputPorts.toList).onFiles.Ends publishing ()) ∧
      (outcome ≠ .ok .succeeded → publishing = []) := by
  unfold workIn at h
  obtain ⟨work, outcome, rest, rfl, hwork, h⟩ := Fiber.ends_bind.1 h
  split at h
  · next hstate =>
    obtain ⟨publishing, ⟨⟩, last, rfl, hpub, hlast⟩ := Fiber.ends_bind.1 h
    obtain ⟨rfl, rfl⟩ := Fiber.ends_pure.1 hlast
    refine ⟨work, publishing ++ [], rfl, hwork, fun _ => by rwa [List.append_nil], fun hne => ?_⟩
    -- Only a task that has succeeded gets so far.
    cases outcome with
    | error e => cases hstate
    | ok state => exact absurd (congrArg Except.ok (Option.some.inj hstate)) hne
  · next hne =>
    obtain ⟨rfl, rfl⟩ := Fiber.ends_pure.1 h
    exact ⟨work, [], rfl, hwork, fun hs => absurd (by rw [hs]; rfl) hne, fun _ => rfl⟩

/-- An execution that has come to an end has taken these steps. -/
theorem taken_of_ends (h : (execute perform context task inputs).Ends ws outcome) :
    Taken perform context task inputs ws outcome := by
  rw [execute_eq] at h
  obtain ⟨_, ⟨⟩, _, rfl, hbegin, h⟩ := Fiber.ends_bind.1 h
  obtain ⟨_, made, _, rfl, hmake, h⟩ := Fiber.ends_bind.1 h
  obtain ⟨_, outcome, _, rfl, hmiddle, h⟩ := Fiber.ends_bind.1 h
  obtain ⟨_, ⟨⟩, _, rfl, hclose, hlast⟩ := Fiber.ends_bind.1 h
  obtain ⟨rfl, rfl⟩ := Fiber.ends_pure.1 hlast
  -- Each of these is one step in one world, but for what is done in the directory.
  obtain ⟨begun, rfl, -⟩ := Fiber.ends_act.1 hbegin
  obtain ⟨w, rfl, hmade⟩ := Fiber.ends_onFiles_attempt.1 hmake
  obtain ⟨closing, rfl, -⟩ := Fiber.ends_act.1 hclose
  cases made with
  | error cause =>
    obtain ⟨rfl, rfl⟩ := Fiber.ends_pure.1 hmiddle
    exact .unhoused hmade
  | ok scratch =>
    obtain ⟨files, hmade⟩ := hmade
    obtain ⟨_, outcome, _, rfl, hinside, hrest⟩ := Fiber.ends_bind.1 hmiddle
    obtain ⟨_, ⟨⟩, _, rfl, hremove, hnothing⟩ := Fiber.ends_bind.1 hrest
    obtain ⟨rfl, rfl⟩ := Fiber.ends_pure.1 hnothing
    obtain ⟨removing, rfl, -⟩ := (Fiber.ends_act (σ := World)).1 hremove
    obtain ⟨work, publishing, rfl, hwork, hsucceeded, hothers⟩ := ends_workIn hinside
    have htaken : Taken perform context task inputs
        (begun :: w :: (work ++ (publishing ++ [removing, closing]))) outcome :=
      .worked hmade hwork hsucceeded hothers
    simpa using htaken

/-- An execution that ends with a state has performed its task with that state. -/
theorem ends_execute {state : TaskState}
    (h : (execute perform context task inputs).Ends ws (.ok state)) :
    Performed perform context task inputs ws state := by
  cases taken_of_ends h with
  | @worked begun made removing closing work publishing files scratch _ hmade hwork hsucceeded =>
    exact ⟨scratch, [begun, made], work, publishing, [removing, closing], rfl, hwork,
      fun hstate => hsucceeded (congrArg Except.ok hstate)⟩

end Execution

end BlockFlow
