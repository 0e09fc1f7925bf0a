import BlockFlow.Engine.World
import BlockFlow.Engine.Fiber
import BlockFlow.Task.Run

/-!
# What a fiber achieves among others

`Fiber.Meets rely legal post p k s` says what `p` does from the state `s` while others change
the state between its steps: as long as these changes are such as `rely` allows, its own
steps are such as `legal` allows, and it ends as `post` says. The value `k` tells what the
fiber holds: the others heed it, and a step may change it.

## Key results

- `meets_bind`, `meets_look`, `meets_change`: the operations of fibers
- `meets_onPart`: a fiber on a part of the state
- `Meets.of_rely`: others may go on changing the state
- `TaskRun.meets_runBlock`: a block program, from its search for files and its command
-/

namespace BlockFlow

namespace Fiber

variable {σ τ α β κ : Type} {rely : κ → σ → σ → Prop} {legal : κ → κ → σ → σ → Prop}
  {post post' : κ → α → σ → Prop} {k : κ} {s s' : σ}

/-- From `s`, holding `k`: if the others change the state as `rely` allows, every step is one
that `legal` allows, and the fiber ends as `post` says. -/
def Meets (rely : κ → σ → σ → Prop) (legal : κ → κ → σ → σ → Prop) (post : κ → α → σ → Prop) :
    Fiber σ α → κ → σ → Prop
  | done a, k, s => post k a s
  | step act next, k, s => ∀ s', rely k s s' →
      ∃ k', legal k k' s' (act s').1 ∧ (next (act s').2).Meets rely legal post k' (act s').1

theorem meets_look {f : σ → α}
    (h : ∀ s', rely k s s' → ∃ k', legal k k' s' s' ∧ post k' (f s') s') :
    (look f).Meets rely legal post k s := h

theorem meets_change {f : σ → σ} {post : κ → Unit → σ → Prop}
    (h : ∀ s', rely k s s' → ∃ k', legal k k' s' (f s') ∧ post k' () (f s')) :
    (change f).Meets rely legal post k s := h

theorem Meets.mono (hpost : ∀ k a s, post k a s → post' k a s) {p : Fiber σ α}
    (h : p.Meets rely legal post k s) : p.Meets rely legal post' k s := by
  induction p generalizing k s with
  | done a => exact hpost k a s h
  | step act next ih =>
    intro s' hs'
    obtain ⟨k', hlegal, hnext⟩ := h s' hs'
    exact ⟨k', hlegal, ih _ hnext⟩

/-- While `J` holds, others may do less than is allowed, and more may be legal; if every change
keeps `J`, it holds in the end. -/
theorem Meets.weaken {rely' : κ → σ → σ → Prop} {legal' : κ → κ → σ → σ → Prop} {J : σ → Prop}
    (hrely : ∀ k s s', J s → rely' k s s' → rely k s s' ∧ J s')
    (hlegal : ∀ k k' s s', J s → legal k k' s s' → legal' k k' s s' ∧ J s') (hs : J s)
    {p : Fiber σ α} (h : p.Meets rely legal post k s) :
    p.Meets rely' legal' (fun k a s => J s ∧ post k a s) k s := by
  induction p generalizing k s with
  | done a => exact ⟨hs, h⟩
  | step act next ih =>
    intro s' hs'
    obtain ⟨hallowed, hJ⟩ := hrely k s s' hs hs'
    obtain ⟨k', hstep, hnext⟩ := h s' hallowed
    obtain ⟨hstep', hJ'⟩ := hlegal k k' _ _ hJ hstep
    exact ⟨k', hstep', ih _ hJ' hnext⟩

/-- A fiber that holds nothing achieves all that it achieves at once. -/
theorem Meets.and {rely : Unit → σ → σ → Prop} {legal : Unit → Unit → σ → σ → Prop}
    {post post' : Unit → α → σ → Prop} {p : Fiber σ α} (h : p.Meets rely legal post () s)
    (h' : p.Meets rely legal post' () s) :
    p.Meets rely legal (fun k a s => post k a s ∧ post' k a s) () s := by
  induction p generalizing s with
  | done a => exact ⟨h, h'⟩
  | step act next ih =>
    intro s' hs'
    obtain ⟨⟨⟩, hlegal, hnext⟩ := h s' hs'
    obtain ⟨⟨⟩, -, hnext'⟩ := h' s' hs'
    exact ⟨(), hlegal, ih _ hnext hnext'⟩

/-- A fiber in two parts achieves what its second part does after the first. -/
theorem meets_bind_iff {post : κ → β → σ → Prop} {p : Fiber σ α} {f : α → Fiber σ β} :
    (p >>= f).Meets rely legal post k s ↔
      p.Meets rely legal (fun k a s => (f a).Meets rely legal post k s) k s := by
  change (p.bind f).Meets rely legal post k s ↔ _
  induction p generalizing k s with
  | done a => exact Iff.rfl
  | step act next ih =>
    exact forall₂_congr fun s' _ => exists_congr fun k' => and_congr_right fun _ => ih _

/-- What follows starts as what comes first has ended. -/
theorem meets_bind {Q : κ → α → σ → Prop} {post : κ → β → σ → Prop} {p : Fiber σ α}
    {f : α → Fiber σ β} (hp : p.Meets rely legal Q k s)
    (hf : ∀ k a s, Q k a s → (f a).Meets rely legal post k s) :
    (p >>= f).Meets rely legal post k s :=
  meets_bind_iff.2 (hp.mono hf)

/-- A computation that may fail goes on only after a result. -/
theorem meets_exceptT_bind {ε : Type} {Q : κ → Except ε α → σ → Prop}
    {post : κ → Except ε β → σ → Prop} {p : ExceptT ε (Fiber σ) α}
    {f : α → ExceptT ε (Fiber σ) β} {k : κ} {s : σ}
    (hp : p.run.Meets rely legal Q k s)
    (hok : ∀ k a s, Q k (.ok a) s → (f a).run.Meets rely legal post k s)
    (herror : ∀ k e s, Q k (.error e) s → post k (.error e) s) :
    (p >>= f).run.Meets rely legal post k s := by
  rw [ExceptT.run_bind]
  refine meets_bind hp (fun k outcome s hmid => ?_)
  cases outcome with
  | ok a => exact hok k a s hmid
  | error e => exact herror k e s hmid

/-- After what cannot fail, a computation goes on in any case. -/
theorem meets_exceptT_lift_bind {ε : Type} {Q : κ → α → σ → Prop}
    {post : κ → Except ε β → σ → Prop} {p : Fiber σ α} {f : α → ExceptT ε (Fiber σ) β}
    (hp : p.Meets rely legal Q k s)
    (hf : ∀ k a s, Q k a s → (f a).run.Meets rely legal post k s) :
    (ExceptT.lift p >>= f).run.Meets rely legal post k s := by
  refine meets_exceptT_bind (Q := fun k r s => ∃ a, r = .ok a ∧ Q k a s) ?_ ?_ ?_
  · show (p >>= fun a => pure (Except.ok a)).Meets rely legal _ k s
    exact meets_bind hp fun k a s h => ⟨a, rfl, h⟩
  · rintro k a s ⟨_, ⟨⟩, h⟩
    exact hf k a s h
  · rintro k e s ⟨a, ⟨⟩, -⟩

/-- Others may change the state once more. -/
theorem Meets.of_rely (htrans : ∀ k s s' s'', rely k s s' → rely k s' s'' → rely k s s'')
    (hpost : ∀ k a s s', post k a s → rely k s s' → post k a s') {p : Fiber σ α}
    (h : p.Meets rely legal post k s) (hs : rely k s s') : p.Meets rely legal post k s' := by
  cases p with
  | done a => exact hpost k a s s' h hs
  | step act next => exact fun s'' hs'' => h s'' (htrans k s s' s'' hs hs'')

/-- A fiber on a part of the state, while the rest is as `J` says. -/
theorem meets_onPart {get : τ → σ} {put : τ → σ → τ} {R : Unit → σ → σ → Prop}
    {L : Unit → Unit → σ → σ → Prop} {ends : Unit → α → σ → Prop} {rely : κ → τ → τ → Prop}
    {legal : κ → κ → τ → τ → Prop} {J : τ → Prop} {t : τ} (hget : ∀ t s, get (put t s) = s)
    (hrely : ∀ t t', J t → rely k t t' → R () (get t) (get t') ∧ J t')
    (hlegal : ∀ t s, J t → L () () (get t) s → legal k k t (put t s) ∧ J (put t s))
    (ht : J t) {p : Fiber σ α} (hp : p.Meets R L ends () (get t)) :
    (p.onPart get put).Meets rely legal
      (fun k' a t' => k' = k ∧ J t' ∧ ends () a (get t')) k t := by
  -- A step on the part is a step on the whole, and keeps `J`.
  induction p generalizing t with
  | done a => exact ⟨rfl, ht, hp⟩
  | step act next ih =>
    intro t' ht'
    obtain ⟨hpart, hJ⟩ := hrely t t' ht ht'
    obtain ⟨u, hinside, hnext⟩ := hp (get t') hpart
    obtain ⟨hstep, hJ'⟩ := hlegal t' (act (get t')).1 hJ hinside
    refine ⟨k, hstep, ih _ hJ' ?_⟩
    rw [hget]
    exact hnext

end Fiber

/-! ## Block programs -/

/-- What a block program achieves, from what it finds (`found`) and what it gets from its command
(`Q`), which starts where all files have been found. -/
theorem TaskRun.meets_runBlock {κ : Type} {rely : κ → World → World → Prop}
    {legal : κ → κ → World → World → Prop}
    {found : κ → Except ExecutionError (List String) → World → Prop}
    {Q : κ → Except FileError CommandResult → World → Prop}
    {post : κ → Except ExecutionError TaskState → World → Prop} {k : κ} {w : World}
    {launcher : Launcher} {run : TaskRun} {node : NodeId}
    (hfound : run.missingInputs.onWorld.run.Meets rely legal found k w)
    (hskipped : ∀ k ports w, found k (.ok ports) w → ports ≠ [] → post k (.ok .skipped) w)
    (hran : ∀ k w command, found k (.ok []) w → run.renderCommand = .ok command →
      (launcher ⟨run.shell, command, run.scratch⟩).onFiles.Meets rely legal Q k w)
    (hsucceeded : ∀ k result w, Q k (.ok result) w → result.succeeded = true →
      post k (.ok .succeeded) w)
    (hfailed : ∀ k result w, Q k (.ok result) w → result.succeeded = false →
      (Fiber.change fun w : World => w.emit ⟨node, Text.lossy result.output⟩).Meets rely legal
        (fun k _ w => post k (.ok .failed) w) k w)
    (hunseen : ∀ k e w, found k (.error e) w → post k (.error e) w)
    (hunfilled : ∀ k e w, found k (.ok []) w → post k (.error e) w)
    (hunstarted : ∀ k e w, Q k (.error e) w → post k (.error (.spawn run.name e)) w) :
    (run.runBlock launcher node).run.Meets rely legal post k w := by
  unfold TaskRun.runBlock
  refine Fiber.meets_exceptT_bind hfound (fun k ports w hmid => ?_) hunseen
  split
  · next hne =>
    refine hskipped k ports w hmid ?_
    rintro rfl
    exact absurd hne (by decide)
  next hempty =>
  obtain rfl : ports = [] := by simpa using hempty
  -- Rendering takes no step, so the command starts in the world in which the files were found.
  refine Fiber.meets_exceptT_bind (Q := fun k' r w' => k' = k ∧ w' = w ∧ r = run.renderCommand)
    ?_ ?_ ?_
  · cases run.renderCommand <;> exact ⟨rfl, rfl, rfl⟩
  · rintro _ command _ ⟨rfl, rfl, hcommand⟩
    refine Fiber.meets_exceptT_lift_bind (hran _ _ command hmid hcommand.symm) ?_
    intro k answer w hmid
    cases answer with
    | error e => exact hunstarted k e w hmid
    | ok result =>
      simp only
      split
      · next hstatus => exact hsucceeded k result w hmid hstatus
      · next hstatus =>
        refine Fiber.meets_exceptT_lift_bind (hfailed k result w hmid ?_) (fun _ _ _ h => h)
        simpa using hstatus
  · rintro _ e _ ⟨rfl, rfl, -⟩
    exact hunfilled _ e _ hmid

end BlockFlow
