import BlockFlow.Proofs.Engine.Conduct

/-!
# How a block program is run among others

A block task looks at its input files and runs its command only if all of them are there.
What it finds there stands as long as its stake is left alone.

## Key results

- `Site.meets_missingFrom`: what a task finds out about its input files
-/

namespace BlockFlow

open FileTree

namespace Site

variable {σ : Site} {χ : Stake} {k : Option String} {w w' : World} {t t' : FileTree}

/-! ## Input files -/

/-- A regular file stands at what feeds a port. -/
def Supplied (σ : Site) (t : FileTree) (v : Option Path) : Prop :=
  ∃ f c, Path.Plain f ∧ v = some (σ.published f) ∧ t.get? (σ.shelf f) = some (.file c)

/-- Nothing feeds a port, or neither a file nor a link stands there. -/
def Lacking (σ : Site) (t : FileTree) (v : Option Path) : Prop :=
  v = none ∨ ∃ f, Path.Plain f ∧ v = some (σ.published f) ∧
    (t.get? (σ.shelf f) = none ∨ t.get? (σ.shelf f) = some .directory)

/-- A regular file is found at what feeds a port, or a link stands there. -/
def Found (σ : Site) (t : FileTree) (v : Option Path) : Prop :=
  ∃ f, Path.Plain f ∧ v = some (σ.published f) ∧
    ((∃ target, t.get? (σ.shelf f) = some (.link target)) ∨
      ∃ c, t.stat (σ.published f) = .ok (.file c))

/-- Others leave the files that a task reads and its scratch directory alone. -/
structure Undisturbed (σ : Site) (χ : Stake) (n : String) (t t' : FileTree) : Prop
    extends σ.Kept χ t t' where
  den : ∀ l, σ.den n <+: l → Same t t' l

theorem Undisturbed.trans {n : String} {t'' : FileTree} (h : σ.Undisturbed χ n t t')
    (h' : σ.Undisturbed χ n t' t'') : σ.Undisturbed χ n t t'' :=
  ⟨h.toKept.trans h'.toKept, fun l hl => (h.den l hl).trans (h'.den l hl)⟩

/-- A command changes nothing but what is in its scratch directory. -/
def Within (σ : Site) (n : String) (t t' : FileTree) : Prop :=
  t.Changes t' (fun l => σ.den n <+: l ∧ l ≠ σ.den n)

/-- Every fed port reads a file that the task has a stake in. -/
def ReadsFrom (σ : Site) (χ : Stake) (es : List (String × Option Path)) : Prop :=
  ∀ e ∈ es, ∀ path, e.2 = some path → ∃ f, Path.Plain f ∧ path = σ.published f ∧ χ.reads f

theorem published_inj {f f' : String} (hf : Path.Plain f) (hf' : Path.Plain f')
    (h : σ.published f = σ.published f') : f = f' := by
  exact Path.join_inj hf hf' σ.out h

theorem supplied_of_same {v : Option Path} (hread : ∀ path, v = some path →
    ∃ f, Path.Plain f ∧ path = σ.published f ∧ χ.reads f) (hkept : σ.Kept χ t t')
    (h : σ.Supplied t' v) : σ.Supplied t v := by
  obtain ⟨f, c, hf, rfl, hget⟩ := h
  obtain ⟨f', hf', hpath, hreads⟩ := hread _ rfl
  obtain rfl := published_inj hf hf' hpath
  exact ⟨f, c, hf, rfl, (hkept.read f hreads).1 ▸ hget⟩

theorem lacking_of_same {v : Option Path} (hread : ∀ path, v = some path →
    ∃ f, Path.Plain f ∧ path = σ.published f ∧ χ.reads f) (hkept : σ.Kept χ t t')
    (h : σ.Lacking t' v) : σ.Lacking t v := by
  rcases h with rfl | ⟨f, hf, rfl, hget⟩
  · exact .inl rfl
  · obtain ⟨f', hf', hpath, hreads⟩ := hread _ rfl
    obtain rfl := published_inj hf hf' hpath
    exact .inr ⟨f, hf, rfl, (hkept.read f hreads).1 ▸ hget⟩

theorem not_lacking_of_stat (ht : σ.Steady t) {f : String} {c : ByteArray} (hf : Path.Plain f)
    (h : t.stat (σ.published f) = .ok (.file c)) : ¬σ.Lacking t (some (σ.published f)) := by
  rintro (hnone | ⟨f', hf', hpath, hget⟩)
  · cases hnone
  · obtain rfl := published_inj hf hf' (Option.some.inj hpath)
    rcases stat_published ht hf with ⟨e, -, hstat⟩ | hstat | ⟨target, hlink⟩
    · rw [h] at hstat
      cases hstat
    · rw [h] at hstat
      rcases hget with hget | hget <;> rw [hget] at hstat <;> cases hstat
    · rcases hget with hget | hget <;> rw [hget] at hlink <;> cases hlink

theorem Found.not_lacking {v : Option Path} (ht : σ.Steady t) (h : σ.Found t v) :
    ¬σ.Lacking t v := by
  obtain ⟨f, hf, rfl, ⟨target, hlink⟩ | ⟨c, hstat⟩⟩ := h
  · rintro (hnone | ⟨f', hf', hpath, hget⟩)
    · cases hnone
    · obtain rfl := published_inj hf hf' (Option.some.inj hpath)
      rcases hget with hget | hget <;> rw [hget] at hlink <;> cases hlink
  · exact not_lacking_of_stat ht hf hstat

/-- What is found at a port stays there as long as the files that are read do. -/
theorem Found.of_kept {v : Option Path} (hread : ∀ path, v = some path →
    ∃ f, Path.Plain f ∧ path = σ.published f ∧ χ.reads f) (ht : σ.Steady t)
    (hkept : σ.Kept χ t t') (h : σ.Found t v) : σ.Found t' v := by
  obtain ⟨f, hf, rfl, hfound⟩ := h
  obtain ⟨f', hf', hpath, hreads⟩ := hread _ rfl
  obtain rfl := published_inj hf hf' hpath
  have hget := (hkept.read f hreads).1
  refine ⟨f, hf, rfl, ?_⟩
  by_cases hlink : ∃ target, t.get? (σ.shelf f) = some (.link target)
  · exact .inl (by rwa [hget])
  · obtain ⟨c, hstat⟩ := hfound.resolve_left hlink
    refine .inr ⟨c, ?_⟩
    rw [stat_published_congr ht hkept.steady hf hget (fun target h => hlink ⟨target, h⟩)]
    exact hstat

theorem not_supplied_of_stat (ht : σ.Steady t) {f : String} (hf : Path.Plain f)
    (hfile : ∀ c, t.stat (σ.published f) ≠ .ok (.file c))
    (herror : ∀ e, t.stat (σ.published f) = .error e → e = .notFound) :
    ¬σ.Supplied t (some (σ.published f)) := by
  rintro ⟨f', c, hf', hpath, hget⟩
  obtain rfl := published_inj hf hf' (Option.some.inj hpath)
  rcases stat_published ht hf with ⟨e, he, hstat⟩ | hstat | ⟨target, hlink⟩
  · exact he (herror e hstat)
  · rw [hget] at hstat
    exact hfile c hstat
  · rw [hget] at hlink
    cases hlink

/-- What a task that looks at its input ports from `t` on finds out: either a file is found at every
port, or not all ports are supplied. -/
def Surveyed (σ : Site) (χ : Stake) (n : String) (es : List (String × Option Path)) (t : FileTree)
    (r : Except ExecutionError (List String)) (t' : FileTree) : Prop :=
  σ.Undisturbed χ n t t' ∧ ∀ ports, r = .ok ports →
    (ports = [] → ∀ e ∈ es, σ.Found t' e.2) ∧ (ports ≠ [] → ∃ e ∈ es, ¬σ.Supplied t' e.2)

namespace Surveyed

variable {n : String} {es : List (String × Option Path)}
  {r : Except ExecutionError (List String)} {t'' : FileTree}

theorem of_undisturbed (ht : σ.Undisturbed χ n t t') (h : σ.Surveyed χ n es t' r t'') :
    σ.Surveyed χ n es t r t'' :=
  ⟨ht.trans h.1, h.2⟩

/-- A port at which a file is found changes nothing. -/
theorem cons {e : String × Option Path} (he : σ.Found t' e.2) (h : σ.Surveyed χ n es t r t') :
    σ.Surveyed χ n (e :: es) t r t' := by
  refine ⟨h.1, fun ports hports => ?_⟩
  obtain ⟨hnil, hcons⟩ := h.2 ports hports
  refine ⟨fun hempty => List.forall_mem_cons.2 ⟨he, hnil hempty⟩, fun hne => ?_⟩
  obtain ⟨e', he', hsupplied⟩ := hcons hne
  exact ⟨e', List.mem_cons_of_mem _ he', hsupplied⟩

end Surveyed

/-- A port that is not supplied, whatever others do, is missing. -/
private theorem meets_missing {task n port : String} {es : List (String × Option Path)}
    {v : Option Path}
    (hrest : (TaskRun.missingFrom task es).run.Meets (fun (_ : Unit) => σ.Undisturbed χ n)
      (fun _ _ => σ.Within n) (fun _ r t' => σ.Surveyed χ n es t r t') () t)
    (hv : ∀ t', σ.Undisturbed χ n t t' → ¬σ.Supplied t' v) :
    (do return port :: (← TaskRun.missingFrom task es) : FileFiber (List String)).run.Meets
      (fun (_ : Unit) => σ.Undisturbed χ n) (fun _ _ => σ.Within n)
      (fun _ r t' => σ.Surveyed χ n ((port, v) :: es) t r t') () t := by
  refine Fiber.meets_exceptT_bind hrest (fun _ ports t' hmid => ?_)
    (fun _ e t' hmid => ⟨hmid.1, fun ports hports => by cases hports⟩)
  refine ⟨hmid.1, fun ports' hports' => ⟨fun hnil => ?_, fun _ => ?_⟩⟩
  · obtain rfl := Except.ok.inj hports'
    cases hnil
  · exact ⟨(port, v), List.mem_cons_self, hv t' hmid.1⟩

theorem meets_missingFrom (task : String) {n : String} {es : List (String × Option Path)}
    (hreads : σ.ReadsFrom χ es) (ht : σ.Steady t) :
    (TaskRun.missingFrom task es).run.Meets (fun (_ : Unit) => σ.Undisturbed χ n)
      (fun _ _ => σ.Within n) (fun _ r t' => σ.Surveyed χ n es t r t') () t := by
  induction es generalizing t with
  | nil =>
    refine ⟨⟨⟨ht, fun _ _ => Same.refl _ _⟩, fun _ _ => Same.refl _ _⟩, fun ports hports => ?_⟩
    obtain rfl := Except.ok.inj hports
    exact ⟨fun _ e he => absurd he List.not_mem_nil, fun h => absurd rfl h⟩
  | cons e es ih =>
    have hrest : σ.ReadsFrom χ es := fun e' he' => hreads e' (List.mem_cons_of_mem _ he')
    have hfirst := hreads _ List.mem_cons_self
    obtain ⟨port, v⟩ := e
    cases v with
    | none =>
      refine meets_missing (ih hrest ht) (fun t' _ => ?_)
      rintro ⟨f, c, -, hnone, -⟩
      cases hnone
    | some path =>
      obtain ⟨f, hf, rfl, hread⟩ := hfirst path rfl
      refine Fiber.meets_exceptT_lift_bind (Q := fun _ found t' => σ.Undisturbed χ n t t' ∧
        found = t'.stat (σ.published f)) (Fiber.meets_look
          fun t' ht' => ⟨(), .refl ht'.steady.wellFormed, ht', rfl⟩) ?_
      rintro ⟨⟩ found t' ⟨hkept, rfl⟩
      -- Whether the file is there is settled at this step, since nobody changes it later.
      have hmissing : (∀ c, t'.stat (σ.published f) ≠ .ok (.file c)) →
          (∀ e, t'.stat (σ.published f) = .error e → e = .notFound) →
          (do return port :: (← TaskRun.missingFrom task es) : FileFiber (List String)).run.Meets
            (fun (_ : Unit) => σ.Undisturbed χ n) (fun _ _ => σ.Within n)
            (fun _ r t'' => σ.Surveyed χ n ((port, some (σ.published f)) :: es) t r t'') () t' := by
        intro hnofile hnone
        refine (meets_missing (ih hrest hkept.steady) fun t'' ht'' hsupplied => ?_).mono
          (fun _ _ _ => .of_undisturbed hkept)
        exact not_supplied_of_stat hkept.steady hf hnofile hnone
          (supplied_of_same hfirst ht''.toKept hsupplied)
      split
      · next c hstat =>
        refine (ih hrest hkept.steady).mono (fun _ r t'' hmid => .of_undisturbed hkept ?_)
        exact hmid.cons (.of_kept hfirst hkept.steady hmid.1.toKept ⟨f, hf, rfl, .inr ⟨c, hstat⟩⟩)
      · next e hother hstat =>
        exact hmissing (fun c hc => hother c (Except.ok.inj (hstat.symm.trans hc)))
          (fun e' he' => by rw [hstat] at he'; cases he')
      · next hstat =>
        exact hmissing (fun c hc => by rw [hstat] at hc; cases hc)
          (fun e' he' => by rw [hstat] at he'; exact (Except.error.inj he').symm)
      · exact ⟨hkept, fun ports hports => by cases hports⟩

/-! ## The command -/

/-- A task that works in a scratch directory, of which nothing has come out yet. -/
structure Busy (σ : Site) (χ : Stake) (task n : String) (k : Option String) (w : World) : Prop
    extends σ.AtWork task n k w where
  fresh : σ.Fresh χ w

variable {task n : String}

theorem Busy.of_rely (h : σ.Busy χ task n k w) (hw : σ.Rely χ k w w') :
    σ.Busy χ task n k w' :=
  ⟨h.toAtWork.of_rely hw, fresh_of_rely hw h.fresh⟩

/-- What changes in the scratch directory is legal. -/
theorem Busy.within (h : σ.Busy χ task n k w) (hwithin : σ.Within n w.files t) :
    σ.Legal χ k k w { w with files := t } ∧ σ.Busy χ task n k { w with files := t } := by
  have hsteady : σ.Steady t :=
    h.steady.of_changes hwithin (fun l hl hden => h.apart l hl hden.1)
  have hden : Same w.files t (σ.den n) := hwithin.same _ (fun hne => hne.2 rfl)
  have hdirectory := hden.1.trans h.den
  -- All that changes lies in the directory that the task holds.
  refine ⟨⟨⟨hsteady, fun l _ hl => hwithin.same l (fun hden => hl n (.inl h.holds) hden.1),
    fun _ _ => rfl, fun m hm => ?_⟩, .inl rfl⟩,
    ⟨⟨hsteady, h.holds, h.name, h.admits, hdirectory, hden.2.trans h.plain, h.apart⟩,
      fun f hf => ?_, h.fresh.cell⟩⟩
  · obtain rfl := Option.some.inj (h.holds.symm.trans hm)
    exact hdirectory
  · exact (h.fresh.owned f hf).trans
      (hwithin.same _ (fun hpre => not_den_prefix_shelf hpre.1))

theorem Undisturbed.of_rely (h : σ.AtWork task n k w) (hw : σ.Rely χ k w w') :
    σ.Undisturbed χ n w.files w'.files :=
  ⟨⟨hw.steady, hw.read⟩, hw.den n h.holds⟩

theorem Busy.kept_within (h : σ.Busy χ task n k w) (hwithin : σ.Within n w.files t) :
    σ.Kept χ w.files t :=
  ⟨(h.within hwithin).2.steady, fun _ _ =>
    hwithin.same _ (fun hpre => not_den_prefix_shelf hpre.1)⟩

/-- What a task does to its scratch directory while it reports nothing. -/
theorem meets_within {α : Type} {ends : Unit → α → FileTree → Prop} {p : Fiber FileTree α}
    (h : σ.Busy χ task n k w)
    (hp : p.Meets (fun _ => σ.Undisturbed χ n) (fun _ _ => σ.Within n) ends () w.files) :
    p.onFiles.Meets (σ.Rely χ) (σ.Legal χ) (fun k' a w' => k' = k ∧
      (σ.Busy χ task n k w' ∧ σ.Kept χ w.files w'.files) ∧ ends () a w'.files) k w :=
  Fiber.meets_onPart (R := fun _ => σ.Undisturbed χ n) (L := fun _ _ => σ.Within n)
    (J := fun w' => σ.Busy χ task n k w' ∧ σ.Kept χ w.files w'.files) (fun _ _ => rfl)
    (fun _ _ hb hw => ⟨.of_rely hb.1.toAtWork hw, hb.1.of_rely hw,
      hb.2.trans ⟨hw.steady, hw.read⟩⟩)
    (fun _ _ hb hwithin => ⟨(hb.1.within hwithin).1, (hb.1.within hwithin).2,
      hb.2.trans (hb.1.kept_within hwithin)⟩)
    ⟨h, h.steady, fun _ _ => Same.refl _ _⟩ hp

/-- How the work of a block task may end: as `promise` says of its command, or not at all, if
not all files are there. -/
inductive Outcome (σ : Site) (χ : Stake) (n : String) (ports : List (String × Option Path))
    (promise : CommandResult → FileTree → Prop) : TaskState → World → Prop
  | skipped {w : World} (hfresh : σ.Fresh χ w) (hbare : σ.Bare n w.files)
      (hmissing : ∃ e ∈ ports, ¬σ.Supplied w.files e.2) : Outcome σ χ n ports promise .skipped w
  | failed {w : World} {result : CommandResult}
      (howned : ∀ f, χ.owns f → Same σ.base w.files (σ.shelf f))
      (hfed : ∀ e ∈ ports, ¬σ.Lacking w.files e.2) (hpromise : promise result w.files)
      (hstatus : result.succeeded = false)
      (hcell : ∀ id, χ.node = some id → w.cell id = some (Text.lossy result.output)) :
      Outcome σ χ n ports promise .failed w
  | succeeded {w : World} {result : CommandResult} (hfresh : σ.Fresh χ w)
      (hfed : ∀ e ∈ ports, ¬σ.Lacking w.files e.2) (hpromise : promise result w.files)
      (hstatus : result.succeeded = true) : Outcome σ χ n ports promise .succeeded w

/-- How the work has ended stands, as long as others leave alone what the task has a stake in. -/
theorem Outcome.of_rely {ports : List (String × Option Path)}
    {promise : CommandResult → FileTree → Prop} {state : TaskState}
    (hreads : σ.ReadsFrom χ ports)
    (hpromise : ∀ result t t', promise result t → σ.Undisturbed χ n t t' → promise result t')
    (hat : σ.AtWork task n (some n) w) (h : σ.Outcome χ n ports promise state w)
    (hw : σ.Rely χ (some n) w w') : σ.Outcome χ n ports promise state w' := by
  have hundisturbed := Undisturbed.of_rely hat hw
  have hfed' : (∀ e ∈ ports, ¬σ.Lacking w.files e.2) → ∀ e ∈ ports, ¬σ.Lacking w'.files e.2 :=
    fun hfed e he h => hfed e he (lacking_of_same (hreads e he) hundisturbed.toKept h)
  -- The others leave alone what the task owns, what it reads, and its scratch directory.
  cases h with
  | skipped hfresh hbare hmissing =>
    obtain ⟨e, he, hsupplied⟩ := hmissing
    refine .skipped (fresh_of_rely hw hfresh) (fun l hl hne => ?_)
      ⟨e, he, fun h => hsupplied (supplied_of_same (hreads e he) hundisturbed.toKept h)⟩
    exact (hundisturbed.den l hl).1.trans (hbare l hl hne)
  | failed howned hfed hpromised hstatus hcell =>
    exact .failed (fun f hf => (howned f hf).trans (hw.owned f hf)) (hfed' hfed)
      (hpromise _ _ _ hpromised hundisturbed) hstatus
      (fun id hid => (hw.cell id hid).trans (hcell id hid))
  | succeeded hfresh hfed hpromised hstatus =>
    exact .succeeded (fresh_of_rely hw hfresh) (hfed' hfed)
      (hpromise _ _ _ hpromised hundisturbed) hstatus

/-- The report of a command that has failed ends the work. -/
private theorem meets_report {node : NodeId} {ports : List (String × Option Path)}
    {promise : CommandResult → FileTree → Prop} {result : CommandResult}
    (hnode : χ.node = some node) (hreads : σ.ReadsFrom χ ports)
    (hpromise : ∀ result t t', promise result t → σ.Undisturbed χ n t t' → promise result t')
    (hbusy : σ.Busy χ task n (some n) w) (hfed : ∀ e ∈ ports, ¬σ.Lacking w.files e.2)
    (hpromised : promise result w.files) (hstatus : result.succeeded = false) :
    (Fiber.change (fun w : World => w.emit ⟨node, Text.lossy result.output⟩)).Meets (σ.Rely χ)
      (σ.Legal χ) (fun k _ w => σ.AtWork task n k w ∧ σ.Outcome χ n ports promise .failed w)
      (some n) w := by
  refine Fiber.meets_change fun w' hw' => ?_
  have hat := hbusy.toAtWork.of_rely hw'
  have hundisturbed := Undisturbed.of_rely hbusy.toAtWork hw'
  -- The report touches no file, and the cell of no other node.
  refine ⟨some n, ⟨⟨hat.steady, fun _ _ _ => Same.refl _ _, fun id hid => ?_, hat.keeps⟩,
      .inl rfl⟩,
    ⟨hat.steady, rfl, hat.name, hat.admits, hat.den, hat.plain, hat.apart⟩,
    .failed (fresh_of_rely hw' hbusy.fresh).owned (fun e he hlacking => hfed e he ?_)
      (hpromise _ _ _ hpromised hundisturbed) hstatus (fun id hid => ?_)⟩
  · exact World.cell_emit_of_ne (fun h => hid (hnode.trans (congrArg some h)))
  · exact lacking_of_same (hreads e he) hundisturbed.toKept hlacking
  · obtain rfl := Option.some.inj (hnode.symm.trans hid)
    exact World.cell_emit _ _ _

/-- A block task runs its command only if nothing lacks, and ends as the command does. -/
theorem meets_runBlock {launcher : Launcher} {run : TaskRun} {node : NodeId}
    {promise : CommandResult → FileTree → Prop} (hnode : χ.node = some node)
    (hreads : σ.ReadsFrom χ run.inputs.toList)
    (hlaunch : ∀ command, run.renderCommand = .ok command → ∀ w', σ.Kept χ w.files w'.files →
      σ.Busy χ task n (some n) w' → σ.Bare n w'.files →
      (∀ e ∈ run.inputs.toList, σ.Found w'.files e.2) →
      (launcher ⟨run.shell, command, run.scratch⟩).Meets (fun (_ : Unit) => σ.Undisturbed χ n)
        (fun _ _ => σ.Within n) (fun _ r t => ∀ result, r = .ok result → promise result t)
        () w'.files)
    (hpromise : ∀ result t t', promise result t → σ.Undisturbed χ n t t' → promise result t')
    (hbusy : σ.Busy χ task n (some n) w) (hbare : σ.Bare n w.files) :
    (run.runBlock launcher node).run.Meets (σ.Rely χ) (σ.Legal χ)
      (fun k r w => σ.AtWork task n k w ∧ ∀ state, r = .ok state →
        σ.Outcome χ n run.inputs.toList promise state w) (some n) w := by
  have hmissing := meets_within hbusy (meets_missingFrom run.name hreads hbusy.steady)
  refine TaskRun.meets_runBlock (Q := fun k answer w' => k = some n ∧
    σ.Busy χ task n (some n) w' ∧ (∀ e ∈ run.inputs.toList, ¬σ.Lacking w'.files e.2) ∧
      ∀ result, answer = .ok result → promise result w'.files) hmissing ?skipped ?ran ?succeeded
    ?failed ?unseen ?unfilled ?unstarted
  case skipped =>
    rintro _ ports w' ⟨rfl, ⟨hbusy', -⟩, hundisturbed, hports⟩ hne
    refine ⟨hbusy'.toAtWork, fun state hs => ?_⟩
    obtain rfl := Except.ok.inj hs
    exact .skipped hbusy'.fresh (fun l hl hne => (hundisturbed.den l hl).1.trans (hbare l hl hne))
      ((hports ports rfl).2 hne)
  case ran =>
    rintro _ w' command ⟨rfl, ⟨hbusy', -⟩, hundisturbed, hports⟩ hcommand
    have hfound := (hports [] rfl).1 rfl
    have hbare' : σ.Bare n w'.files := fun l hl hne =>
      (hundisturbed.den l hl).1.trans (hbare l hl hne)
    have hlaunch := meets_within hbusy'
      (hlaunch command hcommand w' hundisturbed.toKept hbusy' hbare' hfound)
    refine hlaunch.mono ?_
    -- What has been found is left alone by the command, and by others while it runs.
    rintro _ answer w'' ⟨rfl, ⟨hbusy'', hkept⟩, hpromised⟩
    refine ⟨rfl, hbusy'', fun e he hlacking => (hfound e he).not_lacking hbusy'.steady ?_,
      hpromised⟩
    exact lacking_of_same (hreads e he) hkept hlacking
  case succeeded =>
    rintro _ result w' ⟨rfl, hbusy', hfed, hpromised⟩ hstatus
    refine ⟨hbusy'.toAtWork, fun state hs => ?_⟩
    obtain rfl := Except.ok.inj hs
    exact .succeeded hbusy'.fresh hfed (hpromised result rfl) hstatus
  case failed =>
    rintro _ result w' ⟨rfl, hbusy', hfed, hpromised⟩ hstatus
    refine (meets_report hnode hreads hpromise hbusy' hfed (hpromised result rfl) hstatus).mono ?_
    rintro k _ w'' ⟨hat, houtcome⟩
    exact ⟨hat, fun state hs => Except.ok.inj hs ▸ houtcome⟩
  case unseen =>
    rintro _ e w' ⟨rfl, ⟨hbusy', -⟩, -⟩
    exact ⟨hbusy'.toAtWork, fun state hs => by cases hs⟩
  case unfilled =>
    rintro _ e w' ⟨rfl, ⟨hbusy', -⟩, -⟩
    exact ⟨hbusy'.toAtWork, fun state hs => by cases hs⟩
  case unstarted =>
    rintro _ e w' ⟨rfl, hbusy', -⟩
    exact ⟨hbusy'.toAtWork, fun state hs => by cases hs⟩

end Site

end BlockFlow
