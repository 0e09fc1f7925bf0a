import BlockFlow.Proofs.Engine.Meets
import BlockFlow.Proofs.Engine.Stakes
import BlockFlow.Proofs.Engine.Steps

/-!
# How an execution keeps to its stake

An execution gets a scratch directory, works there, publishes what it has made, and removes
the directory. If its work and its publication keep to the stake of the task, so does the
whole execution, and it ends as these two do. Its trail tells in which worlds all this was.

## Key results

- `Fiber.Meets.noted`, `Site.meets_course`: a trail that tells how a fiber has ended
- `Site.meets_execute`: an execution, from its work and its publication
-/

namespace BlockFlow

open FileTree

namespace Fiber

variable {σ α κ : Type} {rely : κ → σ → σ → Prop} {legal : κ → κ → σ → σ → Prop} {k : κ}
  {s : σ} {seen : κ → List σ}

/-- If every step is written down, so is how the fiber comes to its end. -/
theorem Meets.noted {post : κ → α → σ → Prop}
    (hseen : ∀ k k' s s', legal k k' s s' → seen k' = seen k ++ [s]) {p : Fiber σ α}
    (h : p.Meets rely legal post k s) :
    p.Meets rely legal (fun k' a s' => (∃ ss, seen k' = seen k ++ ss ∧ p.Ends ss a) ∧
      post k' a s') k s := by
  induction p generalizing k s with
  | done a => exact ⟨⟨[], (List.append_nil _).symm, rfl, rfl⟩, h⟩
  | step act next ih =>
    intro s' hs'
    obtain ⟨k', hlegal, hnext⟩ := h s' hs'
    refine ⟨k', hlegal, (ih _ hnext).mono ?_⟩
    rintro k'' a s'' ⟨⟨ss, hss, hends⟩, hpost⟩
    refine ⟨⟨s' :: ss, ?_, hends⟩, hpost⟩
    rw [hss, hseen _ _ _ _ hlegal, List.append_assoc, List.singleton_append]

/-- What a fiber achieves may depend on the state in which it takes its first step. -/
theorem Meets.of_first {post : σ → κ → α → σ → Prop}
    (hseen : ∀ k k' s s', legal k k' s s' → seen k' = seen k ++ [s])
    (hrefl : ∀ s', rely k s s' → rely k s' s') {p : Fiber σ α} (hp : ∀ a, p ≠ .done a)
    (h : ∀ s', rely k s s' → p.Meets rely legal (post s') k s') :
    p.Meets rely legal (fun k' a s' => ∃ first ss, seen k' = seen k ++ first :: ss ∧
      post first k' a s') k s := by
  cases p with
  | done a => exact absurd rfl (hp a)
  | step act next =>
    intro s' hs'
    obtain ⟨k', hlegal, hnext⟩ := h s' hs' s' (hrefl s' hs')
    refine ⟨k', hlegal, (hnext.noted hseen).mono ?_⟩
    rintro k'' a s'' ⟨⟨ss, hss, -⟩, hpost⟩
    refine ⟨s', ss, ?_, hpost⟩
    rw [hss, hseen _ _ _ _ hlegal, List.append_assoc, List.singleton_append]

theorem bind_ne_done {β : Type} (p : Fiber σ α) {f : α → Fiber σ β} (hf : ∀ a b, f a ≠ .done b)
    (b : β) : (p >>= f) ≠ .done b := by
  cases p with
  | done a => exact hf a b
  | step act next => exact fun h => by cases h

end Fiber

theorem meets_onFiles_act {κ α : Type} {rely : κ → World → World → Prop}
    {legal : κ → κ → World → World → Prop} {post : κ → α → World → Prop} {k : κ} {w : World}
    {f : FileTree → FileTree × α}
    (h : ∀ w', rely k w w' → ∃ k', legal k k' w' { w' with files := (f w'.files).1 } ∧
      post k' (f w'.files).2 { w' with files := (f w'.files).1 }) :
    (Fiber.act f).onFiles.Meets rely legal post k w := h

theorem meets_onFiles_attempt {κ α ε : Type} {rely : κ → World → World → Prop}
    {legal : κ → κ → World → World → Prop} {post : κ → Except ε α → World → Prop} {k : κ}
    {w : World} {f : FileTree → Except ε (FileTree × α)}
    (hok : ∀ w', rely k w w' → ∀ t a, f w'.files = .ok (t, a) →
      ∃ k', legal k k' w' { w' with files := t } ∧ post k' (.ok a) { w' with files := t })
    (herror : ∀ w', rely k w w' → ∀ e, f w'.files = .error e →
      ∃ k', legal k k' w' w' ∧ post k' (.error e) w') :
    (Fiber.attempt f).onFiles.Meets rely legal post k w := by
  refine meets_onFiles_act (fun w' hw' => ?_)
  cases hf : f w'.files with
  | ok r => exact hok w' hw' r.1 r.2 hf
  | error e => exact herror w' hw' e hf

namespace Site

variable {σ : Site} {χ : Stake} {k : Option String} {r : Trail} {n : String} {w w' : World}
  {t : FileTree}

/-- What a fiber does within the law goes into the trail. -/
theorem meets_course {α : Type} {post : Option String → α → World → Prop} {p : Fiber World α}
    (h : p.Meets (σ.Rely χ) (σ.Legal χ) post r.held w) :
    p.Meets (fun r => σ.Rely χ r.held) (σ.Course χ)
      (fun r' a w' => (∃ ws, r'.seen = r.seen ++ ws ∧ p.Ends ws a) ∧ r'.left = r.left ∧
        post r'.held a w') r w := by
  suffices hcourse : p.Meets (fun r => σ.Rely χ r.held) (σ.Course χ)
      (fun r' a w' => r'.left = r.left ∧ post r'.held a w') r w from
    hcourse.noted (fun _ _ _ _ hstep => hstep.seen)
  induction p generalizing r w with
  | done a => exact ⟨rfl, h⟩
  | step act next ih =>
    intro w' hw'
    obtain ⟨k', hlegal, hnext⟩ := h w' hw'
    have hrest := ih (act w').2 (r := ⟨k', r.seen ++ [w'], r.left⟩) hnext
    exact ⟨_, hlegal.course, hrest⟩

theorem Steady.of_changes (ht : σ.Steady t) {t' : FileTree} {P : Location → Prop}
    (h : t.Changes t' P) (hfixed : ∀ l, σ.fixed l → ¬P l) : σ.Steady t' :=
  ⟨h.wellFormed, fun l hl => (ht.same l hl).trans (h.same l (hfixed l hl))⟩

/-- The files that a task reads stay as they are. -/
structure Kept (σ : Site) (χ : Stake) (t t' : FileTree) : Prop where
  steady : σ.Steady t'
  read : ∀ f, χ.reads f → Same t t' (σ.shelf f)

theorem Kept.trans {t' t'' : FileTree} (h : σ.Kept χ t t') (h' : σ.Kept χ t' t'') :
    σ.Kept χ t t'' :=
  ⟨h'.steady, fun f hf => (h.read f hf).trans (h'.read f hf)⟩

/-- A task holds a scratch directory, and works there. -/
structure AtWork (σ : Site) (task n : String) (k : Option String) (w : World) : Prop where
  steady : σ.Steady w.files
  holds : k = some n
  name : Execution.IsScratchName task n
  admits : σ.Admits n
  den : w.files.get? (σ.den n) = some .directory
  plain : w.files.detail (σ.den n) = {}
  apart : ∀ l, σ.fixed l → ¬σ.den n <+: l

theorem AtWork.of_rely {task : String} (h : σ.AtWork task n k w) (hw : σ.Rely χ k w w') :
    σ.AtWork task n k w' where
  steady := hw.steady
  holds := h.holds
  name := h.name
  admits := h.admits
  den := (hw.den n h.holds _ (List.prefix_refl _)).1.trans h.den
  plain := (hw.den n h.holds _ (List.prefix_refl _)).2.trans h.plain
  apart := h.apart

theorem AtWork.keeps {task : String} (h : σ.AtWork task n k w) :
    ∀ m, k = some m → w.files.get? (σ.den m) = some .directory := by
  intro m hm
  obtain rfl := Option.some.inj (h.holds.symm.trans hm)
  exact h.den

/-- Nothing is in the scratch directory yet. -/
def Bare (σ : Site) (n : String) (t : FileTree) : Prop :=
  ∀ l, σ.den n <+: l → σ.den n ≠ l → t.get? l = none

/-- What changes nothing but a scratch directory leaves the task with its stake. -/
theorem rely_of_changes {t' : FileTree} (hw : σ.Steady w.files)
    (h : w.files.Changes t' (σ.den n <+: ·)) (hfixed : ∀ l, σ.fixed l → ¬σ.den n <+: l) :
    σ.Rely χ none w { w with files := t' } where
  steady := hw.of_changes h hfixed
  owned _ _ := h.same _ not_den_prefix_shelf
  read _ _ := h.same _ not_den_prefix_shelf
  den _ hm := absurd hm (by simp)
  cell _ _ := rfl

variable {β : Type} {perform : Performer β} {context : RunContext} {task : Task β}
  {inputs : NameMap (Option Path)}

/-- An execution that has come to a state, as its trail shows: it has given up the scratch
directory `n`, in which it had done its work before the world `after`. -/
structure Passed (σ : Site) (perform : Performer β) (context : RunContext) (task : Task β)
    (inputs : NameMap (Option Path)) (state : TaskState) (n : String) (after : World)
    (r : Trail) : Prop where
  worked : Execution.Worked perform context task inputs r.seen state (σ.scratch n) after
  atWork : σ.AtWork task.name n (some n) after
  left : ∃ t, r.left = some (n, t) ∧
    (after.files.Removable (σ.den n) → ∀ l, σ.den n <+: l → t.get? l = none)

/-- A fresh scratch directory is made, or cannot be made. -/
private theorem meets_mkdirFresh {begun : World} (hfresh : σ.Fresh χ w) :
    (Fiber.attempt (fun files : FileTree =>
        files.mkdirFresh σ.scratchRoot (Execution.scratchStem task.name))).onFiles.Meets
      (fun r => σ.Rely χ r.held) (σ.Course χ)
      (fun r made w' => (r.held = none ∧ σ.Steady w'.files ∧ ∃ e, made = .error e) ∨
        ∃ n making t, made = .ok (σ.scratch n) ∧ r = ⟨some n, [begun, making], none⟩ ∧
          making.files.mkdirFresh σ.scratchRoot (Execution.scratchStem task.name) =
            .ok (t, σ.scratch n) ∧ σ.AtWork task.name n (some n) w' ∧ σ.Bare n w'.files ∧
          σ.Fresh χ w' ∧ σ.Kept χ w.files w'.files) ⟨none, [begun], none⟩ w := by
  refine meets_onFiles_attempt (fun w' hw' t' p hmake => ?_) (fun w' hw' e _ => ?_)
  · have hfresh' := fresh_of_rely hw' hfresh
    obtain ⟨n, hname, rfl, hadmits, hfree, rfl⟩ := of_mkdirFresh hw'.steady hmake
    have hput : w'.files.Changes (w'.files.put (σ.den n) .directory) (· = σ.den n) :=
      changes_put hw'.steady.wellFormed hw'.steady.directory_inner hfree
    -- The place was free, so it is nobody's, and nothing that stays fixed lies below it.
    have hapart : ∀ l, σ.fixed l → ¬σ.den n <+: l := fun l hl =>
      hw'.steady.not_prefix_of_free hfree hl
    have hne : σ.den n ≠ [] := by simp [den]
    have hsteady : σ.Steady (w'.files.put (σ.den n) .directory) :=
      hw'.steady.of_changes hput (fun l hl hdl => hapart l hl (hdl ▸ List.prefix_refl _))
    have hden : (w'.files.put (σ.den n) .directory).get? (σ.den n) = some .directory := by
      rw [get?_put _ _ _ _ hne, if_pos rfl]
    have hshelf : ∀ f, σ.shelf f ≠ σ.den n := by
      intro f hf
      have hpre : σ.den n <+: σ.shelf f := ⟨[], by rw [List.append_nil, hf]⟩
      exact not_den_prefix_shelf hpre
    have hlegal : σ.Legal χ none (some n) w'
        { w' with files := w'.files.put (σ.den n) .directory } := by
      refine ⟨⟨hsteady, fun l _ hl => ?_, fun _ _ => rfl, ?_⟩, .inr ⟨n, rfl, rfl, hfree⟩⟩
      · exact hput.same l (fun hdl => hl n (.inr rfl) (hdl ▸ List.prefix_refl _))
      · intro m hm
        obtain rfl := Option.some.inj hm
        exact hden
    refine ⟨_, hlegal.course (r := ⟨none, [begun], none⟩), .inr ⟨n, w', _, rfl, rfl, hmake,
      ⟨hsteady, rfl, hname, hadmits, hden, ?_, hapart⟩, ?_, ?_, hsteady, ?_⟩⟩
    · show (w'.files.put (σ.den n) .directory).detail (σ.den n) = {}
      rw [detail_put]
      exact hw'.steady.wellFormed.known _ hfree
    · intro l hl hne'
      show (w'.files.put (σ.den n) .directory).get? l = none
      rw [get?_put _ _ _ _ hne, if_neg hne']
      exact hw'.steady.wellFormed.free_of_free hfree hl
    · exact ⟨fun f hf => (hfresh'.owned f hf).trans (hput.same _ (hshelf f)), hfresh'.cell⟩
    · exact fun f hf => (hw'.read f hf).trans (hput.same _ (hshelf f))
  · have hlegal : σ.Legal χ none none w' w' :=
      .of_eq hw'.steady rfl (fun _ => rfl) (fun _ hn => absurd hn (by simp))
    exact ⟨_, hlegal.course (r := ⟨none, [begun], none⟩), .inl ⟨rfl, hw'.steady, e, rfl⟩⟩

/-- The scratch directory is removed, and the sink is closed. -/
private theorem meets_closing {P : World → Prop} {R : Prop}
    {outcome : Except ExecutionError TaskState}
    (hstable : ∀ w w', P w → σ.Rely χ none w w' → P w') (hr : r = ⟨some n, r.seen, none⟩)
    (h : σ.AtWork task.name n (some n) w) (hdone : P w)
    (hremovable : R → w.files.Removable (σ.den n)) :
    ((Fiber.change (fun files : FileTree => files.removeAll (σ.scratch n))).onFiles >>= fun _ =>
      Fiber.change (fun w : World => { w with failures := w.failures.closeSink }) >>= fun _ =>
        pure outcome).Meets (fun r => σ.Rely χ r.held) (σ.Course χ)
      (fun r o w => r.held = none ∧ o = outcome ∧ P w ∧
        ∃ t, r.left = some (n, t) ∧ (R → ∀ l, σ.den n <+: l → t.get? l = none)) r w := by
  rw [hr]
  refine Fiber.meets_bind (Q := fun r _ w => r.held = none ∧ σ.Steady w.files ∧ P w ∧
    ∃ t, r.left = some (n, t) ∧ (R → ∀ l, σ.den n <+: l → t.get? l = none))
    (meets_onFiles_act (fun w' hw' => ?_)) ?_
  · -- The others may have changed their own files by now, so the directory is removed from a later
    -- world.
    have h' := h.of_rely hw'
    have hremove := changes_removeAll h'.steady h.name.plain
    have hsteady := h'.steady.of_changes hremove h.apart
    have hrely : σ.Rely χ none w w' :=
      ⟨hw'.steady, hw'.owned, hw'.read, fun _ hm => absurd hm (by simp), hw'.cell⟩
    refine ⟨⟨none, r.seen ++ [w'], some (n, w'.files.removeAll (σ.scratch n))⟩,
      ⟨⟨hsteady, fun l _ hl => hremove.same l (hl n (.inl rfl)), fun _ _ => rfl,
        fun _ hm => absurd hm (by simp)⟩, rfl, .inr (.inr ⟨n, rfl, rfl, rfl, rfl⟩)⟩,
      rfl, hsteady, ?_, _, rfl, fun hR l hl => ?_⟩
    · exact hstable _ _ (hstable _ _ hdone hrely) (rely_of_changes h'.steady hremove h.apart)
    · refine gone_of_removeAll h'.steady h.name.plain h.admits h'.den ?_ hl
      exact (hremovable hR).of_fewer (fun m hm => .inr (hw'.den n rfl m hm))
  · -- Nobody has a stake in the sinks.
    rintro ⟨held, seen, left⟩ - w' ⟨rfl, hw', hdone, hleft⟩
    refine Fiber.meets_bind (Q := fun r _ w => r.held = none ∧ P w ∧
      ∃ t, r.left = some (n, t) ∧ (R → ∀ l, σ.den n <+: l → t.get? l = none))
      (Fiber.meets_change fun w'' hw'' => ?_) (fun r _ w hend => ⟨hend.1, rfl, hend.2⟩)
    have hlegal : σ.Legal χ none none w'' { w'' with failures := w''.failures.closeSink } :=
      .of_eq hw''.steady rfl (fun _ => rfl) (fun _ hn => absurd hn (by simp))
    refine ⟨_, hlegal.course (r := ⟨none, seen, left⟩), rfl, ?_, hleft⟩
    exact hstable _ _ (hstable _ _ hdone hw'') (.of_eq hw''.steady rfl (fun _ => rfl))

/-- After the work of a task, its outputs are published if it has succeeded, and its scratch
directory is removed. -/
private theorem meets_afterwards {worked : String → TaskState → World → Prop}
    {done : String → TaskState → World → World → Prop}
    {outcome : Except ExecutionError TaskState} {seen : List World} {after : World}
    (hat : σ.AtWork task.name n (some n) after)
    (hworked : ∀ state, outcome = .ok state → worked n state after)
    (hpublish : worked n .succeeded after →
      (Execution.publishAll (σ.scratch n) task.outputPorts.toList).onFiles.Meets
        (σ.Rely χ) (σ.Legal χ) (fun k _ w => σ.AtWork task.name n k w ∧
          (after.files.Removable (σ.den n) → w.files.Removable (σ.den n)) ∧
            done n .succeeded after w) (some n) after)
    (hrest : ∀ state, worked n state after → state ≠ .succeeded → done n state after after)
    (hstable : ∀ n state after w w', done n state after w → σ.Rely χ none w w' →
      done n state after w') :
    ((if outcome.toOption = some .succeeded then
        (Execution.publishAll (σ.scratch n) task.outputPorts.toList).onFiles >>= fun _ =>
          pure outcome
      else pure outcome) >>= fun o =>
      (Fiber.change (fun files : FileTree => files.removeAll (σ.scratch n))).onFiles >>= fun _ =>
        pure o >>= fun o =>
          Fiber.change (fun w : World => { w with failures := w.failures.closeSink }) >>= fun _ =>
            pure o).Meets (fun r => σ.Rely χ r.held) (σ.Course χ)
      (fun r o w => r.held = none ∧ o = outcome ∧ (σ.AtWork task.name n (some n) after ∧
        ∀ state, outcome = .ok state → done n state after w) ∧
        ∃ t, r.left = some (n, t) ∧
          (after.files.Removable (σ.den n) → ∀ l, σ.den n <+: l → t.get? l = none))
      ⟨some n, seen, none⟩ after := by
  -- What the task has done outlasts its scratch directory.
  have houtlasts : ∀ w w', (σ.AtWork task.name n (some n) after ∧
      ∀ state, outcome = .ok state → done n state after w) → σ.Rely χ none w w' →
        σ.AtWork task.name n (some n) after ∧
          ∀ state, outcome = .ok state → done n state after w' :=
    fun w w' hd hw' => ⟨hd.1, fun state hs => hstable n state after w w' (hd.2 state hs) hw'⟩
  split
  · next hsucceeded =>
    have hok : outcome = .ok .succeeded := by
      cases outcome with
      | error e => cases hsucceeded
      | ok state => rw [Option.some.inj hsucceeded]
    rw [bind_assoc]
    refine Fiber.meets_bind (meets_course (r := ⟨some n, seen, none⟩)
      (hpublish (hworked _ hok))) ?_
    rintro ⟨held, seen', left⟩ - w ⟨-, hleft, hat', hremovable, hdone⟩
    obtain rfl : left = none := hleft
    obtain rfl : held = some n := hat'.holds
    refine meets_closing houtlasts rfl hat' ⟨hat, fun state hs => ?_⟩ hremovable
    rw [hok] at hs
    exact Except.ok.inj hs ▸ hdone
  · -- Only a task that has succeeded publishes. Any other state is final.
    next hother =>
    refine meets_closing houtlasts rfl hat ⟨hat, fun state hs => ?_⟩ id
    refine hrest state (hworked state hs) ?_
    rintro rfl
    exact hother (by rw [hs]; rfl)

/-- If the work of a task, and its publication, keep to its stake, so does the execution, and
it ends as these do; what they come to may depend on the world when the work was over. -/
theorem meets_execute (worked : String → TaskState → World → Prop)
    (done : String → TaskState → World → World → Prop)
    (hroot : context.scratchRoot = σ.scratchRoot)
    (hwork : ∀ n w', σ.Kept χ w.files w'.files → σ.AtWork task.name n (some n) w' →
      σ.Bare n w'.files → σ.Fresh χ w' →
      (perform task.work (Execution.bindRun task inputs (σ.scratch n) context)).run.Meets
        (σ.Rely χ) (σ.Legal χ) (fun k r w => σ.AtWork task.name n k w ∧
          ∀ state, r = .ok state → worked n state w) (some n) w')
    (hstays : ∀ n state w w', worked n state w → σ.AtWork task.name n (some n) w →
      σ.Rely χ (some n) w w' → worked n state w')
    (hpublish : ∀ n after, σ.AtWork task.name n (some n) after → worked n .succeeded after →
      (Execution.publishAll (σ.scratch n) task.outputPorts.toList).onFiles.Meets
        (σ.Rely χ) (σ.Legal χ) (fun k _ w => σ.AtWork task.name n k w ∧
          (after.files.Removable (σ.den n) → w.files.Removable (σ.den n)) ∧
            done n .succeeded after w) (some n) after)
    (hrest : ∀ n state after, σ.AtWork task.name n (some n) after → worked n state after →
      state ≠ .succeeded → done n state after after)
    (hstable : ∀ n state after w w', done n state after w → σ.Rely χ none w w' →
      done n state after w')
    (hfresh : σ.Fresh χ w) :
    (Execution.execute perform context task inputs).Meets (fun r => σ.Rely χ r.held)
      (σ.Course χ) (fun r outcome w => r.held = none ∧ ∀ state, outcome = .ok state →
        ∃ n after, σ.Passed perform context task inputs state n after r ∧
          done n state after w) {} w := by
  rw [Execution.execute_eq]
  -- The state of the task concerns nobody's stake.
  refine Fiber.meets_bind (Q := fun r _ w' => ∃ begun, r = ⟨none, [begun], none⟩ ∧
    σ.Kept χ w.files w'.files ∧ σ.Fresh χ w') (Fiber.meets_change fun w' hw' => ?_) ?_
  · have hlegal : σ.Legal χ none none w' (w'.setState task.name .running) :=
      .of_eq hw'.steady rfl (fun _ => rfl) (fun _ hn => absurd hn (by simp))
    exact ⟨_, hlegal.course (r := {}), w', rfl, ⟨hw'.steady, hw'.read⟩,
      (fresh_of_rely hw' hfresh).owned, (fresh_of_rely hw' hfresh).cell⟩
  rintro r - w' ⟨begun, rfl, hkept, hfresh⟩
  rw [hroot]
  refine Fiber.meets_bind (meets_mkdirFresh hfresh) (fun r made w hmade => ?_)
  rcases hmade with ⟨hr, hw, e, rfl⟩ | ⟨n, making, t, rfl, rfl, hmake, hat, hbare, hfresh, hkept'⟩
  · -- Without a scratch directory the task comes to no state.
    rw [Execution.inScratch, pure_bind]
    refine Fiber.meets_bind (Q := fun r _ w => r.held = none) (Fiber.meets_change
      fun w' hw' => ?_) (fun r _ w hend => ⟨hend, fun state hs => by cases hs⟩)
    obtain ⟨held, seen, left⟩ := r
    obtain rfl : held = none := hr
    have hlegal : σ.Legal χ none none w' { w' with failures := w'.failures.closeSink } :=
      .of_eq hw'.steady rfl (fun _ => rfl) (fun _ hn => absurd hn (by simp))
    exact ⟨_, hlegal.course (r := ⟨none, seen, left⟩), rfl⟩
  · simp only [Execution.inScratch, Execution.workIn, bind_assoc]
    refine Fiber.meets_bind (meets_course (hwork n w (hkept.trans hkept') hat hbare hfresh)) ?_
    rintro r outcome w ⟨⟨working, hseen, hends⟩, hleft, hat, hworked⟩
    obtain rfl : r = ⟨some n, begun :: making :: working, none⟩ := by
      cases r
      obtain rfl := hat.holds
      obtain rfl := hseen
      obtain rfl := hleft
      rfl
    -- The world in which the next step is taken is the first one after the work.
    refine (Fiber.Meets.of_first (fun _ _ _ _ hstep => hstep.seen)
      (fun w' hw' => .refl hw'.steady) (Fiber.bind_ne_done _ (fun o b h => by cases h))
      (fun after hafter => meets_afterwards (hat.of_rely hafter)
        (fun state hs => hstays n state w after (hworked state hs) hat hafter)
        (hpublish n after (hat.of_rely hafter))
        (fun state => hrest n state after (hat.of_rely hafter)) hstable)).mono ?_
    rintro r o w ⟨after, ws, hseen, hr, rfl, ⟨hafter, hdone⟩, hleft⟩
    refine ⟨hr, fun state hstate => ⟨n, after, ⟨⟨begun, making, working, ws, hseen, ?_, ?_⟩,
      hafter, hleft⟩, hdone state hstate⟩⟩
    · rw [hroot]
      exact ⟨t, hmake⟩
    · exact hstate ▸ hends

end Site

end BlockFlow
