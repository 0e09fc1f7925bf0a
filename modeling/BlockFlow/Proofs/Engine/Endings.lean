import BlockFlow.Proofs.Engine.Publication

/-!
# How tasks end

A `Verdict` is what the work of a task comes to: whether it succeeds, what it reports, and
what it stages for its outputs. `Site.Ends` says how a task ends by the verdicts that its
input files allow, whatever the other tasks have done in the meantime.

## Key results

- `Site.Ends.stable`: how a task has ended stands
- `Site.meets_block`, `Site.meets_emit`: an execution ends so
-/

namespace BlockFlow

open FileTree

/-- What the work of a task comes to. -/
structure Verdict where
  succeeded : Bool
  /-- What is reported if it has not succeeded. -/
  output : String
  /-- The file, if any, that is staged under the name of a published file, if that is known. -/
  staged : String → Option (Option ByteArray)

/-- The verdict on a task that has staged a text for all of its outputs. -/
def Verdict.emitted (content : String) : Verdict where
  succeeded := true
  output := ""
  staged _ := some (some content.toUTF8)

namespace Site

variable {σ : Site} {χ : Stake} {k : Option String} {w w' : World} {t t' : FileTree}
  {n f : String} {judged : Verdict → FileTree → Prop} {tidy : Prop}

/-- A published file is what was staged for it, if it could be moved there, and otherwise
what it was when the run began. -/
structure Placed (σ : Site) (n : String) (staged : Option (Option ByteArray)) (t : FileTree)
    (f : String) : Prop where
  kept : staged = some none → t.get? (σ.shelf f) = σ.base.get? (σ.shelf f)
  moved : ∀ c, staged = some (some c) → σ.Publishable n f →
    t.get? (σ.shelf f) = some (.file c)
  stuck : ∀ c, staged = some (some c) → ¬σ.Publishable n f →
    t.get? (σ.shelf f) = σ.base.get? (σ.shelf f)

theorem Placed.of_same {staged : Option (Option ByteArray)} (h : σ.Placed n staged t f)
    (hsame : Same t t' (σ.shelf f)) : σ.Placed n staged t' f := by
  refine ⟨fun hnone => ?_, fun c hc hpub => ?_, fun c hc hpub => ?_⟩
  · exact hsame.1.trans (h.kept hnone)
  · exact hsame.1.trans (h.moved c hc hpub)
  · exact hsame.1.trans (h.stuck c hc hpub)

/-- How a task of this name ends, if `judged` says which verdicts its input files allow. -/
inductive Ends (σ : Site) (χ : Stake) (task : String) (ports : List (String × Option Path))
    (judged : Verdict → FileTree → Prop) : TaskState → World → Prop
  | skipped {w : World} (hfresh : σ.Fresh χ w)
      (hmissing : ∃ e ∈ ports, ¬σ.Supplied w.files e.2) : Ends σ χ task ports judged .skipped w
  | failed {w : World} {v : Verdict} (howned : ∀ f, χ.owns f → Same σ.base w.files (σ.shelf f))
      (hfed : ∀ e ∈ ports, ¬σ.Lacking w.files e.2) (hjudged : judged v w.files)
      (hstatus : v.succeeded = false) (hcell : ∀ id, χ.node = some id → w.cell id = some v.output) :
      Ends σ χ task ports judged .failed w
  | succeeded {w : World} {v : Verdict} {n : String} (hfed : ∀ e ∈ ports, ¬σ.Lacking w.files e.2)
      (hjudged : judged v w.files) (hstatus : v.succeeded = true)
      (hcell : ∀ id, χ.node = some id → w.cell id = none)
      (hname : Execution.IsScratchName task n)
      (hplaced : ∀ f, χ.owns f → σ.Placed n (v.staged f) w.files f) :
      Ends σ χ task ports judged .succeeded w

/-- How a task has ended stands, as long as others leave alone what it has a stake in. -/
theorem Ends.stable {task : String} {ports : List (String × Option Path)} {state : TaskState}
    (hreads : σ.ReadsFrom χ ports)
    (hjudged : ∀ v t t', judged v t → σ.Kept χ t t' → judged v t')
    (h : σ.Ends χ task ports judged state w) (hw : σ.Rely χ none w w') :
    σ.Ends χ task ports judged state w' := by
  have hkept : σ.Kept χ w.files w'.files := ⟨hw.steady, hw.read⟩
  -- What the task has published and reported is its own, and what it has read is kept by the
  -- others.
  cases h with
  | skipped hfresh hmissing =>
    obtain ⟨e, he, hsupplied⟩ := hmissing
    refine .skipped (fresh_of_rely hw hfresh) ⟨e, he, fun h => hsupplied ?_⟩
    exact supplied_of_same (hreads e he) hkept h
  | failed howned hfed hverdict hstatus hcell =>
    refine .failed (fun f hf => (howned f hf).trans (hw.owned f hf)) (fun e he h => ?_)
      (hjudged _ _ _ hverdict hkept) hstatus (fun id hid => (hw.cell id hid).trans (hcell id hid))
    exact hfed e he (lacking_of_same (hreads e he) hkept h)
  | succeeded hfed hverdict hstatus hcell hname hplaced =>
    refine .succeeded (fun e he h => ?_) (hjudged _ _ _ hverdict hkept) hstatus
      (fun id hid => (hw.cell id hid).trans (hcell id hid)) hname
      (fun f hf => (hplaced f hf).of_same (hw.owned f hf))
    exact hfed e he (lacking_of_same (hreads e he) hkept h)

/-! ## What commands promise -/

/-- What a verdict says of these outputs stands in the scratch directory, and can be moved. -/
structure Staged (σ : Site) (fs : List String) (n : String) (v : Verdict) (t : FileTree) :
    Prop where
  absent : ∀ f ∈ fs, v.staged f = some none → t.get? (σ.den n ++ [f]) = none
  present : ∀ f ∈ fs, ∀ c, v.staged f = some (some c) →
    t.get? (σ.den n ++ [f]) = some (.file c)
  movable : ∀ f ∈ fs, σ.Movable n t f

/-- A command has ended, and has staged its outputs, as a verdict that is allowed says; where
commands are to be tidy, it has left nothing that cannot be removed. -/
structure Promised (σ : Site) (judged : Verdict → FileTree → Prop) (tidy : Prop)
    (fs : List String) (n : String) (v : Verdict) (result : CommandResult) (t : FileTree) : Prop
    extends σ.Staged fs n v t where
  judged : judged v t
  succeeded : result.succeeded = v.succeeded
  output : Text.lossy result.output = v.output
  removable : tidy → t.Removable (σ.den n)

theorem Promised.of_undisturbed {fs : List String} {v : Verdict} {result : CommandResult}
    (hjudged : ∀ v t t', judged v t → σ.Kept χ t t' → judged v t')
    (h : σ.Promised judged tidy fs n v result t) (ht : σ.Undisturbed χ n t t') :
    σ.Promised judged tidy fs n v result t' := by
  have hden : ∀ f, t'.get? (σ.den n ++ [f]) = t.get? (σ.den n ++ [f]) :=
    fun f => (ht.den _ (List.prefix_append _ _)).1
  exact {
    judged := hjudged _ _ _ h.judged ht.toKept
    succeeded := h.succeeded
    output := h.output
    removable := fun htidy => (h.removable htidy).of_fewer (fun m hm => .inr (ht.den m hm))
    absent := fun f hf hnone => (hden f).trans (h.absent f hf hnone)
    present := fun f hf c hc => (hden f).trans (h.present f hf c hc)
    movable := fun f hf => ⟨(h.movable f hf).target,
      fun hdir => (h.movable f hf).directory ((hden f).symm.trans hdir)⟩ }

/-- What a task had in its scratch directory `n` when its work was over, in the tree `after`,
and what has become of it. -/
structure Left (σ : Site) (judged : Verdict → FileTree → Prop) (tidy : Prop) (work : Work)
    (fs : List String) (n : String) (state : TaskState) (after t : FileTree) : Prop where
  removable : tidy → after.Removable (σ.den n)
  staged : state = .succeeded → ∃ v, judged v t ∧ σ.Staged fs n v after ∧
    ∀ f ∈ fs, σ.Placed n (v.staged f) t f
  emitted : ∀ content, work = .emit content → ∀ f ∈ fs, σ.Emitted n f content.toUTF8 after

theorem Left.of_kept {work : Work} {fs : List String} {state : TaskState} {after : FileTree}
    (hjudged : ∀ v t t', judged v t → σ.Kept χ t t' → judged v t')
    (h : σ.Left judged tidy work fs n state after t) (hkept : σ.Kept χ t t')
    (howned : ∀ f ∈ fs, Same t t' (σ.shelf f)) : σ.Left judged tidy work fs n state after t' where
  removable := h.removable
  staged hstate := by
    obtain ⟨v, hv, hstaged, hplaced⟩ := h.staged hstate
    exact ⟨v, hjudged _ _ _ hv hkept, hstaged, fun f hf => (hplaced f hf).of_same (howned f hf)⟩
  emitted := h.emitted

/-- The files that a task publishes, by their names. -/
structure Publishes (σ : Site) (χ : Stake) (outputs : List (String × Path)) (fs : List String) :
    Prop where
  paths : outputs.map (·.2) = fs.map σ.published
  nodup : fs.Nodup
  plain : ∀ f ∈ fs, Path.Plain f
  notScratch : ∀ f ∈ fs, f ≠ Job.scratchName
  owns : ∀ f, χ.owns f ↔ f ∈ fs

/-- Where the files that a verdict speaks of end. -/
private theorem placed_of_delivered {fs : List String} {v : Verdict}
    (hstaged : σ.Staged fs n v t) (hf : f ∈ fs)
    (hbase : Same σ.base t (σ.shelf f)) (h : σ.Published n t t' f) :
    σ.Placed n (v.staged f) t' f := by
  obtain ⟨hnone, hfile⟩ := h
  refine ⟨fun habsent => ?_, fun c hc hpub => ?_, fun c hc hpub => ?_⟩
  · exact (hnone (hstaged.absent f hf habsent)).trans hbase.1
  · exact (hfile c (hstaged.present f hf c hc)).1 hpub
  · exact ((hfile c (hstaged.present f hf c hc)).2 hpub).trans hbase.1

/-- The outputs of a task are published as the verdict on it says. -/
theorem meets_published {task : String} {outputs : List (String × Path)} {fs : List String}
    {v : Verdict} (hself : ∀ f, χ.owns f → ¬χ.reads f)
    (hpublishes : σ.Publishes χ outputs fs) (h : σ.AtWork task n (some n) w)
    (hfresh : σ.Fresh χ w) (hstaged : σ.Staged fs n v w.files) :
    (Execution.publishAll (σ.scratch n) outputs).onFiles.Meets (σ.Rely χ) (σ.Legal χ)
      (fun k _ w' => σ.AtWork task n k w' ∧ σ.Kept χ w.files w'.files ∧
        (w.files.Removable (σ.den n) → w'.files.Removable (σ.den n)) ∧
          (∀ id, χ.node = some id → w'.cell id = none) ∧
            ∀ f ∈ fs, σ.Placed n (v.staged f) w'.files f) (some n) w := by
  have howns : ∀ f ∈ fs, χ.owns f := fun f => (hpublishes.owns f).2
  have hready : σ.Ready n w.files := ⟨h.steady, h.name.plain, h.admits, h.apart, h.den, h.plain⟩
  -- Nothing of the task has been published yet, so the places of its outputs are as they were.
  have hall := meets_publishAll hpublishes.paths hpublishes.nodup hready hpublishes.plain howns
    hpublishes.notScratch (fun f hf => hfresh.owned f (howns f hf)) hstaged.movable
  refine (meets_publication hself h hall).mono ?_
  rintro k u w' ⟨rfl, ⟨hat, hkept, hremovable, hcell⟩, hdelivered⟩
  refine ⟨hat, hkept, hremovable, fun id hid => (hcell id hid).trans (hfresh.cell id hid),
    fun f hf => ?_⟩
  exact placed_of_delivered hstaged hf (hfresh.owned f (howns f hf)) (hdelivered.published f hf)

/-! ## Executions -/

section Executions

variable {launcher : Launcher} {context : RunContext} {task : Task Work}
  {inputs : NameMap (Option Path)} {fs : List String} {state : TaskState}

/-- How an execution has ended, if its work was over in the world `after`. -/
structure Closed (σ : Site) (χ : Stake) (judged : Verdict → FileTree → Prop) (tidy : Prop)
    (task : Task Work) (inputs : NameMap (Option Path)) (fs : List String) (n : String)
    (state : TaskState) (after w : World) : Prop
    extends σ.Left judged tidy task.work fs n state after.files w.files where
  ends : σ.Ends χ task.name inputs.toList judged state w

/-- An execution has come to a state: how it has ended, and what its trail tells. -/
def Concluded (σ : Site) (χ : Stake) (judged : Verdict → FileTree → Prop) (tidy : Prop)
    (launcher : Launcher) (context : RunContext) (task : Task Work)
    (inputs : NameMap (Option Path)) (fs : List String) (state : TaskState) (r : Trail)
    (w : World) : Prop :=
  ∃ n after, σ.Passed (Work.perform launcher) context task inputs state n after r ∧
    σ.Closed χ judged tidy task inputs fs n state after w

/-- How an execution has ended stands. -/
theorem Closed.of_rely {after : World} (hreads : σ.ReadsFrom χ inputs.toList)
    (howns : ∀ f ∈ fs, χ.owns f)
    (hjudged : ∀ v t t', judged v t → σ.Kept χ t t' → judged v t')
    (h : σ.Closed χ judged tidy task inputs fs n state after w) (hw : σ.Rely χ none w w') :
    σ.Closed χ judged tidy task inputs fs n state after w' where
  toLeft := h.toLeft.of_kept hjudged ⟨hw.steady, hw.read⟩ (fun f hf => hw.owned f (howns f hf))
  ends := h.ends.stable hreads hjudged hw

theorem Concluded.of_rely {r : Trail} (hreads : σ.ReadsFrom χ inputs.toList)
    (howns : ∀ f ∈ fs, χ.owns f)
    (hjudged : ∀ v t t', judged v t → σ.Kept χ t t' → judged v t')
    (h : σ.Concluded χ judged tidy launcher context task inputs fs state r w)
    (hw : σ.Rely χ none w w') :
    σ.Concluded χ judged tidy launcher context task inputs fs state r w' := by
  obtain ⟨n, after, hpassed, hclosed⟩ := h
  exact ⟨n, after, hpassed, hclosed.of_rely hreads howns hjudged hw⟩

/-- The execution of a block task ends by a verdict on its command, if its command promises
to. -/
theorem meets_block {node : NodeId} (hroot : context.scratchRoot = σ.scratchRoot)
    (hwork : task.work = .block node) (hnode : χ.node = some node)
    (hreads : σ.ReadsFrom χ inputs.toList) (hself : ∀ f, χ.owns f → ¬χ.reads f)
    (hpublishes : σ.Publishes χ task.outputPorts.toList fs)
    (hjudged : ∀ v t t', judged v t → σ.Kept χ t t' → judged v t')
    (hlaunch : ∀ n command w', (Execution.bindRun task inputs (σ.scratch n)
        context).renderCommand = .ok command → σ.Kept χ w.files w'.files →
      σ.Busy χ task.name n (some n) w' → σ.Bare n w'.files →
      (∀ e ∈ inputs.toList, σ.Found w'.files e.2) →
      (launcher ⟨context.shell, command, σ.scratch n⟩).Meets
        (fun (_ : Unit) => σ.Undisturbed χ n) (fun _ _ => σ.Within n)
        (fun _ r t => ∀ result, r = .ok result → ∃ v, σ.Promised judged tidy fs n v result t)
        () w'.files)
    (hfresh : σ.Fresh χ w) :
    (Execution.execute (Work.perform launcher) context task inputs).Meets
      (fun r => σ.Rely χ r.held) (σ.Course χ) (fun r outcome w => r.held = none ∧
        ∀ state, outcome = .ok state →
          σ.Concluded χ judged tidy launcher context task inputs fs state r w) {} w := by
  have hpromise : ∀ n result t t', (∃ v, σ.Promised judged tidy fs n v result t) →
      σ.Undisturbed χ n t t' → ∃ v, σ.Promised judged tidy fs n v result t' := by
    rintro n result t t' ⟨v, hpromised⟩ hundisturbed
    exact ⟨v, hpromised.of_undisturbed hjudged hundisturbed⟩
  have hnoText : ∀ (P : String → Prop) content, task.work = .emit content → P content :=
    fun P content hemit => by cases hwork.symm.trans hemit
  refine meets_execute (fun n state w => σ.Outcome χ n inputs.toList
    (fun result t => ∃ v, σ.Promised judged tidy fs n v result t) state w)
    (σ.Closed χ judged tidy task inputs fs) hroot ?_ ?_ ?_ ?_
    (fun _ _ _ _ _ => Closed.of_rely hreads (fun f => (hpublishes.owns f).2) hjudged) hfresh
  · intro n w' hkept hat hbare hfresh'
    rw [hwork]
    have hports : σ.ReadsFrom χ
        (Execution.bindRun task inputs (σ.scratch n) context).inputs.toList := hreads
    refine meets_runBlock hnode hports (fun command hcommand w'' hkept' => ?_) (hpromise n)
      ⟨hat, hfresh'⟩ hbare
    exact hlaunch n command w'' hcommand (hkept.trans hkept')
  · exact fun n state w w' houtcome hat hw => houtcome.of_rely hreads (hpromise n) hat hw
  · intro n after hat houtcome
    cases houtcome with
    | @succeeded _ result hfresh' hfed hpromise hstatus =>
      obtain ⟨v, hpromised⟩ := hpromise
      -- What the verdict says is staged is what gets published.
      refine (meets_published hself hpublishes hat hfresh' hpromised.toStaged).mono ?_
      rintro k u w'' ⟨hat', hkept, hremovable, hcell, hplaced⟩
      have hverdict := hjudged _ _ _ hpromised.judged hkept
      refine ⟨hat', hremovable, ⟨hpromised.removable, fun _ => ⟨v, hverdict, hpromised.toStaged,
        hplaced⟩, hnoText _⟩, .succeeded (fun e he h => ?_) hverdict
        (hpromised.succeeded.symm.trans hstatus) hcell hat'.name
        (fun f hf => hplaced f ((hpublishes.owns f).1 hf))⟩
      exact hfed e he (lacking_of_same (hreads e he) hkept h)
  · intro n state after hat houtcome hne
    cases houtcome with
    | skipped hfresh' hbare hmissing =>
      exact ⟨⟨fun _ => hbare.removable hat.plain, fun hs => absurd hs hne, hnoText _⟩,
        .skipped hfresh' hmissing⟩
    | @failed _ result howned hfed hpromise hstatus hcell =>
      obtain ⟨v, hpromised⟩ := hpromise
      exact ⟨⟨hpromised.removable, fun hs => absurd hs hne, hnoText _⟩,
        .failed howned hfed hpromised.judged (hpromised.succeeded.symm.trans hstatus)
          (fun id hid => hpromised.output ▸ hcell id hid)⟩
    | succeeded => exact absurd rfl hne

/-- The execution of a task that emits a text ends with the text at its published path, if it
can be moved there. -/
theorem meets_emit {content : String} (hroot : context.scratchRoot = σ.scratchRoot)
    (hwork : task.work = .emit content) (hinputs : inputs = ∅)
    (hpublishes : σ.Publishes χ task.outputPorts.toList [f])
    (hreads : ∀ f, ¬χ.reads f)
    (hjudged : ∀ t, judged (.emitted content) t)
    (hstable : ∀ v t t', judged v t → σ.Kept χ t t' → judged v t')
    (htarget : σ.fixed (σ.shelf f) → σ.base.get? (σ.shelf f) = some .directory)
    (hfresh : σ.Fresh χ w) :
    (Execution.execute (Work.perform launcher) context task inputs).Meets
      (fun r => σ.Rely χ r.held) (σ.Course χ) (fun r outcome w => r.held = none ∧
        ∀ state, outcome = .ok state →
          σ.Concluded χ judged tidy launcher context task inputs [f] state r w) {} w := by
  have hports : σ.ReadsFrom χ inputs.toList := by
    rw [hinputs]
    exact fun e he => absurd he List.not_mem_nil
  have hf : Path.Plain f := hpublishes.plain f (List.mem_singleton_self f)
  refine meets_execute (fun n state w => state = .succeeded ∧ σ.Fresh χ w ∧
    σ.Emitted n f content.toUTF8 w.files)
    (σ.Closed χ judged tidy task inputs [f]) hroot ?_ ?_ ?_ ?_
    (fun _ _ _ _ _ => Closed.of_rely hports (fun f' => (hpublishes.owns f').2) hstable) hfresh
  · intro n w' hkept hat hbare hfresh'
    rw [hwork]
    refine meets_emitText hf ?_ ⟨hat, hfresh'⟩ hbare
    -- The only output is staged under the name at which it is published.
    have hpath : task.outputPorts.toList.map (·.2) = [σ.published f] := hpublishes.paths
    obtain ⟨e, he, hep⟩ := List.map_eq_singleton_iff.1 hpath
    show (task.outputPorts.toList.map _).map _ = _
    rw [he, List.map_singleton, List.map_singleton]
    show [Execution.stagingPath (σ.scratch n) e.1 e.2] = _
    rw [hep, stagingPath_published hf]
  · rintro n state w w' ⟨rfl, hfresh', hemitted⟩ hat hw
    exact ⟨rfl, fresh_of_rely hw hfresh', hemitted.of_undisturbed (.of_rely hat hw)⟩
  · rintro n after hat ⟨-, hfresh', hemitted⟩
    -- The text is a file, so it can be moved wherever a file can.
    have hall : σ.Staged [f] n (.emitted content) after.files := by
      refine ⟨fun f' _ hnone => ?_, fun f' hf' c hc => ?_, fun f' hf' => ?_⟩
      · cases hnone
      · rw [List.mem_singleton.1 hf', hemitted.staged, ← Option.some.inj (Option.some.inj hc)]
      · obtain rfl := List.mem_singleton.1 hf'
        refine ⟨htarget, fun hdir => ?_⟩
        rw [hemitted.staged] at hdir
        cases hdir
    refine (meets_published (fun f' _ => hreads f') hpublishes hat hfresh' hall).mono ?_
    rintro k u w'' ⟨hat', hkept, hremovable, hcell, hplaced⟩
    refine ⟨hat', hremovable, ⟨fun _ => hemitted.removable, fun _ => ⟨_, hjudged _, hall,
      hplaced⟩, fun content' hcontent f' hf' => ?_⟩, .succeeded (fun e he => ?_) (hjudged _) rfl
        hcell hat'.name (fun f' hf' => hplaced f' ((hpublishes.owns f').1 hf'))⟩
    · obtain rfl := Work.emit.inj (hwork.symm.trans hcontent)
      exact List.mem_singleton.1 hf' ▸ hemitted
    · rw [hinputs] at he
      exact absurd he List.not_mem_nil
  · rintro n state after - ⟨rfl, -⟩ hne
    exact absurd rfl hne

end Executions

end Site

end BlockFlow
