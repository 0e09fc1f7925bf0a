import Mathlib.Logic.Relation
import BlockFlow.Proofs.Engine.Meets
import BlockFlow.Proofs.Engine.Stages

/-!
# Tasks that are carried out side by side

A pool has tasks in flight, whoever chooses which of them moves: a task starts once all its
producers have finished, takes its steps, and finishes. Every run of the engine is a run of
a pool, and so is carrying the tasks out one at a time. If every task keeps to its stake
while the others keep to theirs, then every finished task has ended as it does on its own. What
is new is what a task has published, or something in a scratch directory.

## Key results

- `Pool.Sheltered.step`, `Pool.sheltered_of_runs`: what a step, and a whole run, keeps
- `Pool.runs_of_ran`: the engine's runs are runs of a pool
-/

namespace BlockFlow

open FileTree

/-- The tasks of a run, and the world that they share; the log has the steps that the tasks have
taken. -/
structure Pool where
  started : List Nat := []
  inFlight : List Flight := []
  completed : List (Nat × TaskState) := []
  world : World
  log : List (Nat × World) := []

namespace Pool

open Schedule (worldsOf logged)

variable {β : Type}

/-- The tasks that have finished. -/
def finished (p : Pool) : List Nat := p.completed.map (·.1)

/-- What can happen in a pool. -/
inductive Step (s : Schedule β) (g : TaskGraph β) (p : Pool) : Pool → Prop
  | start {i : Nat} {t : Task β} (ht : g.tasks[i]? = some t) (hnew : i ∉ p.started)
      (hfed : ∀ j, g.Feeds j i → j ∈ p.finished) :
      Step s g p { p with
        started := p.started ++ [i]
        inFlight := p.inFlight ++ [⟨i, s.fiberAt i t⟩] }
  | advance {fs gs : List Flight} {i : Nat} {γ : Type} {act : World → World × γ}
      {next : γ → Fiber World (Except ExecutionError TaskState)}
      (hflight : p.inFlight = fs ++ ⟨i, .step act next⟩ :: gs) :
      Step s g p { p with
        inFlight := fs ++ ⟨i, next (act p.world).2⟩ :: gs
        world := (act p.world).1
        log := p.log ++ [(i, p.world)] }
  | finish {fs gs : List Flight} {i : Nat} {state : TaskState}
      (hflight : p.inFlight = fs ++ ⟨i, .done (.ok state)⟩ :: gs) :
      Step s g p { p with
        inFlight := fs ++ gs
        completed := p.completed ++ [(i, state)] }
  /-- Something else happens, to neither files nor failures. -/
  | tend {w : World} (hfiles : w.files = p.world.files)
      (hcell : ∀ id, w.cell id = p.world.cell id) : Step s g p { p with world := w }

/-- What can happen in a pool after some steps. -/
abbrev Runs (s : Schedule β) (g : TaskGraph β) : Pool → Pool → Prop :=
  Relation.ReflTransGen (Step s g)

/-! ## What the tasks keep to -/

/-- The tasks have stakes of their own, keep to them as long as the others do, and then end
as `ends` says, if their producers have. -/
structure Conduct (σ : Site) (s : Schedule β) (g : TaskGraph β) (stake : Nat → Stake)
    (ends : Nat → TaskState → Site.Trail → World → Prop) : Prop where
  owned : ∀ i j f, i ≠ j → (stake i).owns f → ¬(stake j).owns f
  node : ∀ i j id, i ≠ j → (stake i).node = some id → (stake j).node ≠ some id
  read : ∀ i j f, (stake i).owns f → (stake j).reads f → g.Feeds i j
  notScratch : ∀ i f, (stake i).owns f → f ≠ Job.scratchName
  meets : ∀ i t, g.tasks[i]? = some t → ∀ w, σ.Steady w.files → σ.Fresh (stake i) w →
    (∀ j, g.Feeds j i → ∃ state r, ends j state r w) →
    (s.fiberAt i t).Meets (fun r => σ.Rely (stake i) r.held) (σ.Course (stake i))
      (fun r outcome w => r.held = none ∧ ∀ state, outcome = .ok state → ends i state r w) {} w
  stable : ∀ i state r w w', ends i state r w → σ.Rely (stake i) none w w' → ends i state r w'

/-- Why something may stand where nothing stood when the run began: it has been published, or it
is in a scratch directory that a task holds or could not remove. -/
def Accounted (σ : Site) (stake : Nat → Stake) (trail : Nat → Site.Trail) (p : Pool)
    (l : Location) : Prop :=
  (∃ i f, (stake i).owns f ∧ ¬σ.fixed (σ.shelf f) ∧ σ.shelf f <+: l) ∨
    ∃ n, σ.den n <+: l ∧ ((∃ f ∈ p.inFlight, (trail f.index).held = some n) ∨
      ∃ i t, (trail i).left = some (n, t) ∧ t.get? l ≠ none)

/-- What holds throughout a run of a pool; `trail` is what the tasks have done so far. -/
structure Sheltered (σ : Site) (g : TaskGraph β) (stake : Nat → Stake)
    (ends : Nat → TaskState → Site.Trail → World → Prop) (trail : Nat → Site.Trail) (p : Pool) :
    Prop where
  steady : σ.Steady p.world.files
  nodup : (p.finished ++ p.inFlight.map (·.index)).Nodup
  started : ∀ i, i ∈ p.started ↔ i ∈ p.finished ++ p.inFlight.map (·.index)
  known : ∀ i ∈ p.started, i < g.tasks.length
  fed : ∀ i ∈ p.started, ∀ j, g.Feeds j i → j ∈ p.finished
  waiting : ∀ i, i ∉ p.started → σ.Fresh (stake i) p.world
  idle : ∀ i, i ∉ p.started → trail i = {}
  seen : ∀ i, (trail i).seen = worldsOf p.log i
  flying : ∀ f ∈ p.inFlight, f.fiber.Meets (fun r => σ.Rely (stake f.index) r.held)
    (σ.Course (stake f.index)) (fun r outcome w => r.held = none ∧
      ∀ state, outcome = .ok state → ends f.index state r w) (trail f.index) p.world
  keeps : ∀ f ∈ p.inFlight, ∀ n, (trail f.index).held = some n →
    p.world.files.get? (σ.den n) = some .directory
  apart : ∀ f ∈ p.inFlight, ∀ f' ∈ p.inFlight, f.index ≠ f'.index → ∀ n,
    (trail f.index).held = some n → (trail f'.index).held ≠ some n
  ended : ∀ e ∈ p.completed, ends e.1 e.2 (trail e.1) p.world
  foreign : ∀ id, (∀ i, (stake i).node ≠ some id) → p.world.cell id = none
  novel : ∀ l, σ.base.get? l = none → p.world.files.get? l ≠ none →
    Accounted σ stake trail p l

namespace Sheltered

variable {σ : Site} {s : Schedule β} {g : TaskGraph β} {stake : Nat → Stake}
  {ends : Nat → TaskState → Site.Trail → World → Prop} {trail : Nat → Site.Trail} {p p' : Pool}

private theorem mem_started (h : Sheltered σ g stake ends trail p) {f : Flight}
    (hf : f ∈ p.inFlight) : f.index ∈ p.started :=
  (h.started _).2 (List.mem_append_right _ (List.mem_map.2 ⟨f, hf, rfl⟩))

/-- A task in flight owns nothing that matters to another one that has been started. -/
private theorem spares (hc : Conduct σ s g stake ends) (h : Sheltered σ g stake ends trail p)
    {i j : Nat} (hi : i ∈ p.inFlight.map (·.index)) (hj : j ∈ p.started) (hij : i ≠ j) :
    (stake i).Spares (stake j) where
  owned f := hc.owned i j f hij
  read f hf hread := by
    -- A task that reads from `i` starts after `i` has finished.
    have hfinished := h.fed j hj i (hc.read i j f hf hread)
    exact (List.nodup_append.1 h.nodup).2.2 i hfinished i hi rfl
  node id := hc.node i j id hij
  notScratch := hc.notScratch i

/-- A task in flight allows others to do what it relies on. -/
private theorem meets_of_rely (hc : Conduct σ s g stake ends) {i : Nat}
    {fiber : Fiber World (Except ExecutionError TaskState)} {r : Site.Trail} {w w' : World}
    (h : fiber.Meets (fun r => σ.Rely (stake i) r.held) (σ.Course (stake i))
      (fun r outcome w => r.held = none ∧ ∀ state, outcome = .ok state → ends i state r w) r w)
    (hw : σ.Rely (stake i) r.held w w') :
    fiber.Meets (fun r => σ.Rely (stake i) r.held) (σ.Course (stake i))
      (fun r outcome w => r.held = none ∧ ∀ state, outcome = .ok state → ends i state r w)
      r w' := by
  refine h.of_rely (fun _ _ _ _ => .trans) ?_ hw
  rintro r outcome w w' ⟨hr, hends⟩ hw
  exact ⟨hr, fun state hs => hc.stable i state r w w' (hends state hs) (hr ▸ hw)⟩

/-! ## A step of a task -/

section Advance

variable {fs gs : List Flight} {i : Nat}
  {fiber fiber' : Fiber World (Except ExecutionError TaskState)} {r : Site.Trail} {w : World}

/-- The other tasks in flight have indices of their own. -/
private theorem other (h : Sheltered σ g stake ends trail p)
    (hflight : p.inFlight = fs ++ ⟨i, fiber⟩ :: gs) {f : Flight} (hf : f ∈ fs ++ gs) :
    f ∈ p.inFlight ∧ f.index ≠ i := by
  have hnodup := (List.nodup_append.1 h.nodup).2.1
  rw [hflight, List.map_append, List.map_cons, List.nodup_middle, List.nodup_cons,
    ← List.map_append] at hnodup
  refine ⟨?_, fun hfi => hnodup.1 (hfi ▸ List.mem_map.2 ⟨f, hf, rfl⟩)⟩
  rw [hflight]
  exact List.perm_middle.mem_iff.2 (List.mem_cons_of_mem _ hf)

/-- The world changes as the other tasks in flight allow. -/
private theorem rely_advance (hc : Conduct σ s g stake ends)
    (h : Sheltered σ g stake ends trail p) (hflight : p.inFlight = fs ++ ⟨i, fiber⟩ :: gs)
    (hcourse : σ.Course (stake i) (trail i) r p.world w) {f : Flight} (hf : f ∈ fs ++ gs) :
    σ.Rely (stake f.index) (trail f.index).held p.world w := by
  have hmem : ⟨i, fiber⟩ ∈ p.inFlight := by rw [hflight]; simp
  obtain ⟨hf, hne⟩ := h.other hflight hf
  exact Site.rely_of_course
    (spares hc h (List.mem_map.2 ⟨_, hmem, rfl⟩) (h.mem_started hf) (Ne.symm hne)) (h.keeps f hf)
    (fun n hn => h.apart f hf _ hmem hne n hn) hcourse

/-- What a task has newly got was free, so no other task holds it. -/
private theorem apart_advance (h : Sheltered σ g stake ends trail p)
    (hflight : p.inFlight = fs ++ ⟨i, fiber⟩ :: gs)
    (hcourse : σ.Course (stake i) (trail i) r p.world w) {f : Flight} (hf : f ∈ fs ++ gs)
    {n : String} (hn : (trail f.index).held = some n) : r.held ≠ some n := by
  intro hr
  have hmem : ⟨i, fiber⟩ ∈ p.inFlight := by rw [hflight]; simp
  obtain ⟨hf, hne⟩ := h.other hflight hf
  rcases hcourse.change with ⟨hsame, -⟩ | ⟨m, -, hm, hfree, -⟩ | ⟨m, -, hnone, -⟩
  · exact h.apart f hf _ hmem hne n hn (hsame ▸ hr)
  · obtain rfl := Option.some.inj (hm.symm.trans hr)
    rw [h.keeps f hf m hn] at hfree
    cases hfree
  · cases hnone.symm.trans hr

/-- What has ended stays as it has ended. -/
private theorem ended_advance (hc : Conduct σ s g stake ends)
    (h : Sheltered σ g stake ends trail p) (hflight : p.inFlight = fs ++ ⟨i, fiber⟩ :: gs)
    (hcourse : σ.Course (stake i) (trail i) r p.world w) {e : Nat × TaskState}
    (he : e ∈ p.completed) : ends e.1 e.2 (Function.update trail i r e.1) w := by
  have hindex : i ∈ p.inFlight.map (·.index) := by rw [hflight]; simp
  have hfinished : e.1 ∈ p.finished := List.mem_map.2 ⟨e, he, rfl⟩
  have hne : i ≠ e.1 := fun hie =>
    (List.nodup_append.1 h.nodup).2.2 _ hfinished _ hindex hie.symm
  have hs : e.1 ∈ p.started := (h.started _).2 (List.mem_append_left _ hfinished)
  rw [Function.update_of_ne (Ne.symm hne)]
  exact hc.stable _ _ _ _ _ (h.ended e he) (Site.rely_of_course (spares hc h hindex hs hne)
    (fun n hn => absurd hn (by simp)) (fun n hn => absurd hn (by simp)) hcourse)

/-- The log has what the task has seen. -/
private theorem seen_advance (h : Sheltered σ g stake ends trail p)
    (hcourse : σ.Course (stake i) (trail i) r p.world w) (j : Nat) :
    (Function.update trail i r j).seen = worldsOf (p.log ++ [(i, p.world)]) j := by
  rw [Schedule.worldsOf_append, ← h.seen j]
  by_cases hji : j = i
  · obtain rfl := hji
    rw [Function.update_self, hcourse.seen]
    simp [worldsOf]
  · rw [Function.update_of_ne hji]
    simp [worldsOf, Ne.symm hji]

/-- A step of a task adds no more than what the task has published, or what is in its scratch
directory. -/
private theorem accounted_advance (h : Sheltered σ g stake ends trail p)
    (hflight : p.inFlight = fs ++ ⟨i, fiber⟩ :: gs)
    (hcourse : σ.Course (stake i) (trail i) r p.world w) {l : Location}
    (hbase : σ.base.get? l = none) (hl : w.files.get? l ≠ none) :
    Accounted σ stake (Function.update trail i r) { p with
      inFlight := fs ++ ⟨i, fiber'⟩ :: gs
      world := w
      log := p.log ++ [(i, p.world)] } l := by
  have hden : ∀ n, σ.den n <+: l → (trail i).held = some n ∨ r.held = some n →
      Accounted σ stake (Function.update trail i r) { p with
        inFlight := fs ++ ⟨i, fiber'⟩ :: gs
        world := w
        log := p.log ++ [(i, p.world)] } l := by
    intro n hpre hn
    -- What the task held it still holds, or it has left it behind as it is now.
    have hheld : r.held = some n ∨ r.left = some (n, w.files) := by
      rcases hn with hn | hn
      · rcases hcourse.change with ⟨hsame, -⟩ | ⟨m, hnone, -⟩ | ⟨m, hm, -, -, hleft⟩
        · exact .inl (hsame.trans hn)
        · cases hnone.symm.trans hn
        · obtain rfl := Option.some.inj (hm.symm.trans hn)
          exact .inr hleft
      · exact .inl hn
    refine .inr ⟨n, hpre, ?_⟩
    rcases hheld with hn | hn
    · exact .inl ⟨⟨i, fiber'⟩, by simp, by rwa [Function.update_self]⟩
    · exact .inr ⟨i, w.files, by rwa [Function.update_self], hl⟩
  by_cases hsame : Same p.world.files w.files l
  · -- It was there before the step.
    rw [hsame.1] at hl
    rcases h.novel l hbase hl with hshelf | ⟨n, hpre, ⟨f, hf, hn⟩ | ⟨j, t, hleft, ht⟩⟩
    · exact .inl hshelf
    · by_cases hfi : f.index = i
      · exact hden n hpre (.inl (hfi ▸ hn))
      · refine .inr ⟨n, hpre, .inl ⟨f, ?_, by rwa [Function.update_of_ne hfi]⟩⟩
        rcases List.mem_cons.1 (List.perm_middle.mem_iff.1 (hflight ▸ hf)) with rfl | hf
        · exact absurd rfl hfi
        · exact List.perm_middle.mem_iff.2 (List.mem_cons_of_mem _ hf)
    · refine .inr ⟨n, hpre, .inr ⟨j, t, ?_, ht⟩⟩
      by_cases hji : j = i
      · obtain rfl := hji
        rw [Function.update_self]
        rcases hcourse.change with ⟨-, hsame⟩ | ⟨m, -, -, -, hsame⟩ | ⟨m, -, -, hnone, -⟩
        · exact hsame.trans hleft
        · exact hsame.trans hleft
        · rw [hnone] at hleft
          cases hleft
      · rwa [Function.update_of_ne hji]
  · -- The step has made it.
    by_contra hnot
    refine hsame (hcourse.elsewhere l (fun f howns hfixed hpre => ?_) (fun n hn hpre => ?_))
    · exact hnot (.inl ⟨i, f, howns, hfixed, hpre⟩)
    · exact hnot (hden n hpre hn)

theorem advance (hc : Conduct σ s g stake ends) (h : Sheltered σ g stake ends trail p)
    {γ : Type} {act : World → World × γ}
    {next : γ → Fiber World (Except ExecutionError TaskState)}
    (hflight : p.inFlight = fs ++ ⟨i, .step act next⟩ :: gs) :
    ∃ trail', Sheltered σ g stake ends trail' { p with
      inFlight := fs ++ ⟨i, next (act p.world).2⟩ :: gs
      world := (act p.world).1
      log := p.log ++ [(i, p.world)] } := by
  have hmem : (⟨i, .step act next⟩ : Flight) ∈ p.inFlight := by rw [hflight]; simp
  obtain ⟨r, hcourse, hnext⟩ := h.flying _ hmem p.world (.refl h.steady)
  have hne : ∀ j ∉ p.started, j ≠ i := by
    rintro j hj rfl
    exact hj (h.mem_started hmem)
  have htrail : ∀ f ∈ fs ++ gs, Function.update trail i r f.index = trail f.index :=
    fun f hf => Function.update_of_ne (h.other hflight hf).2 _ _
  -- The flights have the indices that they had, and all but one are what they were.
  have hindices : (fs ++ (⟨i, next (act p.world).2⟩ : Flight) :: gs).map (·.index) =
      p.inFlight.map (·.index) := by rw [hflight]; simp
  have hmembers : ∀ f ∈ fs ++ ⟨i, next (act p.world).2⟩ :: gs,
      f = ⟨i, next (act p.world).2⟩ ∨ f ∈ fs ++ gs :=
    fun f hf => List.mem_cons.1 (List.perm_middle.mem_iff.1 hf)
  refine ⟨Function.update trail i r, ?_⟩
  refine {
    steady := hcourse.steady
    nodup := ?nodup
    started := ?started
    known := h.known
    fed := h.fed
    waiting := ?waiting
    idle := fun j hj => (Function.update_of_ne (hne j hj) _ _).trans (h.idle j hj)
    seen := h.seen_advance hcourse
    flying := ?flying
    keeps := ?keeps
    apart := ?apart
    ended := fun e he => h.ended_advance hc hflight hcourse he
    foreign := fun id hid => (hcourse.cell id (hid i)).trans (h.foreign id hid)
    novel := fun l hbase hl => h.accounted_advance hflight hcourse hbase hl }
  case nodup =>
    show (p.finished ++ _).Nodup
    rw [hindices]
    exact h.nodup
  case started =>
    intro j
    show j ∈ p.started ↔ j ∈ p.finished ++ _
    rw [hindices]
    exact h.started j
  case waiting =>
    intro j hj
    have hij : i ≠ j := Ne.symm (hne j hj)
    exact Site.fresh_of_course (fun f => hc.owned i j f hij) (fun id => hc.node i j id hij)
      hcourse (h.waiting j hj)
  case flying =>
    intro f hf
    rcases hmembers f hf with rfl | hf
    · rw [Function.update_self]
      exact hnext
    · rw [htrail f hf]
      exact meets_of_rely hc (h.flying f (h.other hflight hf).1)
        (h.rely_advance hc hflight hcourse hf)
  case keeps =>
    intro f hf n hn
    rcases hmembers f hf with rfl | hf
    · rw [Function.update_self] at hn
      exact hcourse.held n hn
    · rw [htrail f hf] at hn
      rw [((h.rely_advance hc hflight hcourse hf).den n hn _ (List.prefix_refl _)).1]
      exact h.keeps f (h.other hflight hf).1 n hn
  case apart =>
    intro f hf f' hf' hne n hn hn'
    rcases hmembers f hf with rfl | hf
    · rw [Function.update_self] at hn
      rcases hmembers f' hf' with rfl | hf'
      · exact hne rfl
      · rw [htrail f' hf'] at hn'
        exact h.apart_advance hflight hcourse hf' hn' hn
    · rw [htrail f hf] at hn
      rcases hmembers f' hf' with rfl | hf'
      · rw [Function.update_self] at hn'
        exact h.apart_advance hflight hcourse hf hn hn'
      · rw [htrail f' hf'] at hn'
        exact h.apart f (h.other hflight hf).1 f' (h.other hflight hf').1 hne n hn hn'

end Advance

/-! ## The other moves of a pool -/

theorem start (hc : Conduct σ s g stake ends) (h : Sheltered σ g stake ends trail p) {i : Nat}
    {t : Task β} (ht : g.tasks[i]? = some t) (hnew : i ∉ p.started)
    (hfed : ∀ j, g.Feeds j i → j ∈ p.finished) :
    Sheltered σ g stake ends trail { p with
      started := p.started ++ [i]
      inFlight := p.inFlight ++ [⟨i, s.fiberAt i t⟩] } := by
  -- The new task has left no trail yet.
  have hidle : (trail i).held = none := by rw [h.idle i hnew]
  refine {
    steady := h.steady
    ended := h.ended
    foreign := h.foreign
    seen := h.seen
    nodup := ?nodup
    started := ?started
    known := ?known
    fed := ?fed
    waiting := ?waiting
    idle := ?idle
    flying := ?flying
    keeps := ?keeps
    apart := ?apart
    novel := ?novel }
  case nodup =>
    rw [List.map_append, ← List.append_assoc, List.nodup_append]
    refine ⟨h.nodup, List.nodup_singleton _, fun a ha b hb hab => ?_⟩
    obtain rfl := List.mem_singleton.1 hb
    exact hnew ((h.started _).2 (hab ▸ ha))
  case started =>
    intro j
    rw [List.map_append, ← List.append_assoc]
    exact List.mem_append.trans ((or_congr_left (h.started j)).trans List.mem_append.symm)
  case known =>
    intro j hj
    rcases List.mem_append.1 hj with hj | hj
    · exact h.known j hj
    · obtain rfl := List.mem_singleton.1 hj
      exact (List.getElem?_eq_some_iff.1 ht).1
  case fed =>
    intro j hj
    rcases List.mem_append.1 hj with hj | hj
    · exact h.fed j hj
    · obtain rfl := List.mem_singleton.1 hj
      exact hfed
  case waiting => exact fun j hj => h.waiting j (fun hs => hj (List.mem_append_left _ hs))
  case idle => exact fun j hj => h.idle j (fun hs => hj (List.mem_append_left _ hs))
  case flying =>
    intro f hf
    rcases List.mem_append.1 hf with hf | hf
    · exact h.flying f hf
    · obtain rfl := List.mem_singleton.1 hf
      show (s.fiberAt i t).Meets _ _ _ (trail i) _
      rw [h.idle i hnew]
      -- The new task finds its files fresh, and its producers have ended.
      refine hc.meets i t ht p.world h.steady (h.waiting i hnew) (fun j hj => ?_)
      obtain ⟨e, he, rfl⟩ := List.mem_map.1 (hfed j hj)
      exact ⟨e.2, _, h.ended e he⟩
  case keeps =>
    intro f hf n hn
    rcases List.mem_append.1 hf with hf | hf
    · exact h.keeps f hf n hn
    · obtain rfl := List.mem_singleton.1 hf
      cases hidle.symm.trans hn
  case apart =>
    intro f hf f' hf' hne n hn hn'
    rcases List.mem_append.1 hf with hf | hf
    · rcases List.mem_append.1 hf' with hf' | hf'
      · exact h.apart f hf f' hf' hne n hn hn'
      · obtain rfl := List.mem_singleton.1 hf'
        cases hidle.symm.trans hn'
    · obtain rfl := List.mem_singleton.1 hf
      cases hidle.symm.trans hn
  case novel =>
    intro l hbase hl
    refine (h.novel l hbase hl).imp_right (Exists.imp fun n => And.imp_right (Or.imp_left ?_))
    exact fun ⟨f, hf, hn⟩ => ⟨f, List.mem_append_left _ hf, hn⟩

theorem finish (h : Sheltered σ g stake ends trail p) {fs gs : List Flight} {i : Nat}
    {state : TaskState} (hflight : p.inFlight = fs ++ ⟨i, .done (.ok state)⟩ :: gs) :
    Sheltered σ g stake ends trail { p with
      inFlight := fs ++ gs
      completed := p.completed ++ [(i, state)] } := by
  have hmem : (⟨i, .done (.ok state)⟩ : Flight) ∈ p.inFlight := by rw [hflight]; simp
  have hsub : ∀ f ∈ fs ++ gs, f ∈ p.inFlight := fun f hf => (h.other hflight hf).1
  -- The task goes from the flights to the finished ones.
  have hperm : (p.finished ++ p.inFlight.map (·.index)).Perm
      (p.finished ++ [i] ++ (fs ++ gs).map (·.index)) := by
    rw [hflight, List.append_assoc, List.map_append, List.map_cons, List.map_append]
    exact List.Perm.append_left _ List.perm_middle
  have hfinished : (Pool.finished { p with
      inFlight := fs ++ gs, completed := p.completed ++ [(i, state)] }) = p.finished ++ [i] := by
    simp [Pool.finished]
  refine {
    steady := h.steady
    known := h.known
    waiting := h.waiting
    idle := h.idle
    seen := h.seen
    foreign := h.foreign
    nodup := ?nodup
    started := ?started
    fed := ?fed
    flying := ?flying
    keeps := ?keeps
    apart := ?apart
    ended := ?ended
    novel := ?novel }
  case nodup =>
    rw [hfinished]
    exact hperm.nodup_iff.1 h.nodup
  case started =>
    intro j
    rw [hfinished]
    exact (h.started j).trans hperm.mem_iff
  case fed =>
    intro j hj k hk
    rw [hfinished]
    exact List.mem_append_left _ (h.fed j hj k hk)
  case flying => exact fun f hf => h.flying f (hsub f hf)
  case keeps => exact fun f hf => h.keeps f (hsub f hf)
  case apart => exact fun f hf f' hf' => h.apart f (hsub f hf) f' (hsub f' hf')
  case ended =>
    intro e he
    rcases List.mem_append.1 he with he | he
    · exact h.ended e he
    · obtain rfl := List.mem_singleton.1 he
      exact (h.flying _ hmem).2 state rfl
  case novel =>
    intro l hbase hl
    refine (h.novel l hbase hl).imp_right (Exists.imp fun n => And.imp_right (Or.imp_left ?_))
    rintro ⟨f, hf, hn⟩
    rcases List.mem_cons.1 (List.perm_middle.mem_iff.1 (hflight ▸ hf)) with rfl | hf
    · -- The task that has finished holds nothing.
      cases (h.flying _ hmem).1.symm.trans hn
    · exact ⟨f, hf, hn⟩

theorem tend (hc : Conduct σ s g stake ends) (h : Sheltered σ g stake ends trail p) {w : World}
    (hfiles : w.files = p.world.files) (hcell : ∀ id, w.cell id = p.world.cell id) :
    Sheltered σ g stake ends trail { p with world := w } := by
  -- Nobody has a stake in what changes here.
  have hrely : ∀ χ k, σ.Rely χ k p.world w := fun χ k => .of_eq h.steady hfiles hcell
  refine {
    steady := hfiles ▸ h.steady
    nodup := h.nodup
    started := h.started
    known := h.known
    fed := h.fed
    apart := h.apart
    idle := h.idle
    seen := h.seen
    waiting := ?waiting
    flying := ?flying
    keeps := ?keeps
    ended := ?ended
    foreign := ?foreign
    novel := fun l hbase hl => h.novel l hbase (hfiles ▸ hl) }
  case waiting => exact fun j hj => Site.fresh_of_rely (hrely _ none) (h.waiting j hj)
  case flying =>
    exact fun f hf => meets_of_rely hc (h.flying f hf) (hrely _ _)
  case keeps =>
    intro f hf n hn
    rw [← h.keeps f hf n hn]
    exact congrArg (fun t => FileTree.get? t (σ.den n)) hfiles
  case ended => exact fun e he => hc.stable _ _ _ _ _ (h.ended e he) (hrely _ none)
  case foreign => exact fun id hid => (hcell id).trans (h.foreign id hid)

theorem step (hc : Conduct σ s g stake ends) (h : Sheltered σ g stake ends trail p)
    (hstep : Step s g p p') : ∃ trail', Sheltered σ g stake ends trail' p' := by
  cases hstep with
  | start ht hnew hfed => exact ⟨_, h.start hc ht hnew hfed⟩
  | advance hflight => exact h.advance hc hflight
  | finish hflight => exact ⟨_, h.finish hflight⟩
  | tend hfiles hcell => exact ⟨_, h.tend hc hfiles hcell⟩

/-- When all tasks have finished, what is new has been published, or is in a scratch directory
that a task could not remove. -/
theorem novel_of_finished (h : Sheltered σ g stake ends trail p)
    (hall : ∀ i < g.tasks.length, ∃ state, (i, state) ∈ p.completed) {l : Location}
    (hbase : σ.base.get? l = none) (hl : p.world.files.get? l ≠ none) :
    (∃ i f, (stake i).owns f ∧ ¬σ.fixed (σ.shelf f) ∧ σ.shelf f <+: l) ∨
      ∃ i state n t, (i, state) ∈ p.completed ∧ (trail i).left = some (n, t) ∧ σ.den n <+: l ∧
        t.get? l ≠ none := by
  have hcompleted : ∀ i ∈ p.started, ∃ state, (i, state) ∈ p.completed :=
    fun i hi => hall i (h.known i hi)
  rcases h.novel l hbase hl with hshelf | ⟨n, hpre, ⟨f, hf, -⟩ | ⟨i, t, hleft, ht⟩⟩
  · exact .inl hshelf
  · -- What is in flight has not finished.
    have hindex : f.index ∈ p.inFlight.map (·.index) := List.mem_map.2 ⟨f, hf, rfl⟩
    obtain ⟨state, hstate⟩ :=
      hcompleted f.index ((h.started _).2 (List.mem_append_right _ hindex))
    have hfinished : f.index ∈ p.finished := List.mem_map.2 ⟨_, hstate, rfl⟩
    exact absurd rfl ((List.nodup_append.1 h.nodup).2.2 _ hfinished _ hindex)
  · have hi : i ∈ p.started := by
      by_contra hi
      rw [h.idle i hi] at hleft
      cases hleft
    obtain ⟨state, hstate⟩ := hcompleted i hi
    exact .inr ⟨i, state, n, t, hstate, hleft, hpre, ht⟩

end Sheltered

/-- In the beginning nothing has been touched. -/
theorem sheltered_begin {σ : Site} {g : TaskGraph β} {stake : Nat → Stake}
    {ends : Nat → TaskState → Site.Trail → World → Prop} {w : World} (hfiles : w.files = σ.base)
    (hcell : ∀ id, w.cell id = none) :
    Sheltered σ g stake ends (fun _ => {}) { world := w } where
  steady := hfiles ▸ Site.steady_base
  nodup := List.nodup_nil
  started _ := Iff.rfl
  known _ hi := absurd hi List.not_mem_nil
  fed _ hi := absurd hi List.not_mem_nil
  waiting _ _ := ⟨fun _ _ => hfiles ▸ Same.refl _ _, fun id _ => hcell id⟩
  idle _ _ := rfl
  seen _ := rfl
  flying _ hf := absurd hf List.not_mem_nil
  keeps _ hf := absurd hf List.not_mem_nil
  apart _ hf := absurd hf List.not_mem_nil
  ended _ he := absurd he List.not_mem_nil
  foreign id _ := hcell id
  novel _ hbase hl := absurd (hfiles ▸ hbase) hl

/-- Throughout a run of a pool, every finished task has ended as it does on its own. -/
theorem sheltered_of_runs {σ : Site} {s : Schedule β} {g : TaskGraph β} {stake : Nat → Stake}
    {ends : Nat → TaskState → Site.Trail → World → Prop} (hc : Conduct σ s g stake ends)
    {p p' : Pool} (h : ∃ trail, Sheltered σ g stake ends trail p) (hruns : Runs s g p p') :
    ∃ trail, Sheltered σ g stake ends trail p' := by
  induction hruns with
  | refl => exact h
  | tail _ hstep ih =>
    obtain ⟨trail, ih⟩ := ih
    exact ih.step hc hstep

/-! ## The engine -/

/-- What the engine has in hand after the steps in the log. -/
def ofProgress (log : List (Nat × World)) (p : Progress) : Pool where
  started := p.started
  inFlight := p.inFlight
  completed := p.completed
  world := p.world
  log := log

private theorem split_of_slot {fs : List Flight} {slot : Nat} {f : Flight}
    (h : fs[slot]? = some f) :
    fs = fs.take slot ++ f :: fs.drop (slot + 1) ∧
      (∀ f', fs.set slot f' = fs.take slot ++ f' :: fs.drop (slot + 1)) ∧
        fs.eraseIdx slot = fs.take slot ++ fs.drop (slot + 1) := by
  obtain ⟨hlt, hget⟩ := List.getElem?_eq_some_iff.1 h
  refine ⟨?_, fun f' => ?_, List.eraseIdx_eq_take_drop_succ fs slot⟩
  · rw [← hget, ← List.drop_eq_getElem_cons hlt, List.take_append_drop]
  · rw [List.set_eq_take_append_cons_drop, if_pos hlt]

/-- A move of the engine is something that happens in its pool. -/
theorem runs_of_moved {s : Schedule β} {g : TaskGraph β} (hs : s.Serves g) {p q : Progress}
    {m : Move} (log : List (Nat × World)) (hb : s.Balanced g p) (hm : s.Moved p m q)
    (hfault : q.fault = none) :
    Runs s g (ofProgress log p) (ofProgress (log ++ logged p m) q) := by
  -- A start or a join is followed by what the engine does to its own records.
  have hworld := hm.files_cell
  cases hm with
  | @start i ready t hready hroom ht =>
    have hi : i ∈ p.ready := by rw [hready]; exact List.mem_cons_self
    have hfed : ∀ j, g.Feeds j i → j ∈ p.finished := fun j =>
      hb.feeds_finished hs (List.mem_append_right _ hi)
    rw [show log ++ logged p .start = log from List.append_nil log]
    refine .tail (.single (.start (hs.tasks ▸ ht) (hb.not_started hi) hfed)) ?_
    exact .tend rfl (fun id => rfl)
  | @advance slot i γ act next hslot =>
    obtain ⟨hsplit, hset, -⟩ := split_of_slot hslot
    refine .single ?_
    rw [ofProgress, hset, show logged p (.advance slot) = [(i, p.world)] by simp [logged, hslot]]
    exact .advance hsplit
  | @join slot i state hfull hslot =>
    obtain ⟨hsplit, -, herase⟩ := split_of_slot hslot
    obtain ⟨hfiles, hcell⟩ := hworld (by simp)
    rw [show log ++ logged p (.join slot) = log from List.append_nil log]
    refine .tail (.single (.finish hsplit)) ?_
    rw [ofProgress, Schedule.complete]
    simp only [herase]
    exact .tend hfiles hcell
  | abort => cases hfault
  | receive =>
    obtain ⟨hfiles, hcell⟩ := hworld (by simp)
    rw [show log ++ logged p .receive = log from List.append_nil log]
    exact .single (.tend hfiles hcell)

/-- What the engine does is something that happens in a pool, as long as no error ends it. -/
theorem runs_of_ran {s : Schedule β} {g : TaskGraph β} (hs : s.Serves g) {P : Progress → Prop}
    {w : World} {log : List (Nat × World)} {p : Progress} (h : s.Ran P (s.begin w) log p)
    (hfault : p.fault = none) :
    Runs s g { world := (s.begin w).world } (ofProgress log p) := by
  have hboth : s.Balanced g p ∧ (p.fault = none →
      Runs s g { world := (s.begin w).world } (ofProgress log p)) := by
    refine h.invariant (I := fun log p => s.Balanced g p ∧ (p.fault = none →
      Runs s g { world := (s.begin w).world } (ofProgress log p)))
      ⟨Schedule.balanced_begin hs w, fun _ => .refl⟩ ?_
    rintro log p m q - ⟨hb, hruns⟩ hp hm -
    exact ⟨hb.move hs hp hm, fun hq => (hruns hp).trans (runs_of_moved hs log hb hm hq)⟩
  exact hboth.2 hfault

end Pool

end BlockFlow
