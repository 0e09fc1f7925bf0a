import BlockFlow.Engine.Schedule

/-! # Runs

A run makes one possible move after the other.  Every run ends:

* a start uses up a ready task, and what becomes ready is paid for by the counts that go down
  (`Plan.total_release_le`);
* a step takes a fiber to one that comes after it, and fibers are well-founded;
* a join, or an abort, takes fibers away;
* a receipt shortens the queue of failures.

`Schedule.run` follows a policy, which chooses the next move. -/

namespace BlockFlow

/-- Of two lists of tasks in flight, the first one is the second one after a step of one task, or
after some have left. -/
inductive Shrinks : List Flight → List Flight → Prop
  | step (i : Nat) {β : Type} (act : World → World × β)
      (next : β → Fiber World (Except ExecutionError TaskState)) (b : β) (fs : List Flight) :
      Shrinks (⟨i, next b⟩ :: fs) (⟨i, .step act next⟩ :: fs)
  | leave (f : Flight) (fs : List Flight) : Shrinks fs (f :: fs)
  | clear (f : Flight) (fs : List Flight) : Shrinks [] (f :: fs)
  | tail (f : Flight) {fs gs : List Flight} : Shrinks fs gs → Shrinks (f :: fs) (f :: gs)

namespace Shrinks

theorem acc_nil : Acc Shrinks [] := Acc.intro [] fun _ h => nomatch h

theorem acc_cons (i : Nat) (fiber : Fiber World (Except ExecutionError TaskState))
    {fs : List Flight} (h : Acc Shrinks fs) : Acc Shrinks (⟨i, fiber⟩ :: fs) := by
  -- The fiber first: a step makes it smaller, whatever stands behind it.
  induction fiber generalizing fs with
  | done a =>
    induction h with
    | intro fs hfs ih =>
      refine Acc.intro _ fun gs hg => ?_
      cases hg with
      | leave => exact Acc.intro fs hfs
      | clear => exact acc_nil
      | tail _ ht => exact ih _ ht
  | step act next ihf =>
    induction h with
    | intro fs hfs ih =>
      refine Acc.intro _ fun gs hg => ?_
      cases hg with
      | step _ _ _ b => exact ihf b (Acc.intro fs hfs)
      | leave => exact Acc.intro fs hfs
      | clear => exact acc_nil
      | tail _ ht => exact ih _ ht

theorem wellFounded : WellFounded Shrinks := by
  refine ⟨fun fs => ?_⟩
  induction fs with
  | nil => exact acc_nil
  | cons f fs ih => exact acc_cons f.index f.fiber ih

theorem set {fs : List Flight} {slot i : Nat} {β : Type} {act : World → World × β}
    {next : β → Fiber World (Except ExecutionError TaskState)}
    (h : fs[slot]? = some ⟨i, .step act next⟩) (b : β) : Shrinks (fs.set slot ⟨i, next b⟩) fs := by
  induction fs generalizing slot with
  | nil => simp at h
  | cons f fs ih =>
    cases slot with
    | zero => simp at h; subst h; exact step i act next b fs
    | succ slot => simp at h; exact tail f (ih h)

theorem eraseIdx {fs : List Flight} {slot : Nat} {f : Flight} (h : fs[slot]? = some f) :
    Shrinks (fs.eraseIdx slot) fs := by
  induction fs generalizing slot with
  | nil => simp at h
  | cons g fs ih =>
    cases slot with
    | zero => exact leave g fs
    | succ slot => simp at h; exact tail g (ih h)

theorem nil_of_getElem? {fs : List Flight} {slot : Nat} {f : Flight} (h : fs[slot]? = some f) :
    Shrinks [] fs := by
  cases fs with
  | nil => simp at h
  | cons g fs => exact clear g fs

end Shrinks

namespace Progress

/-- How many tasks can still be started at most. -/
def startable (p : Progress) : Nat := Plan.total p.remaining + p.ready.length

/-- What gets smaller with every move. -/
def left (p : Progress) : Nat × List Flight × Nat :=
  (p.startable, p.inFlight, p.world.failures.queue.length)

/-- The order in which it gets smaller. -/
def Before : Progress → Progress → Prop :=
  InvImage (Prod.Lex (· < ·) (Prod.Lex Shrinks (· < ·))) left

theorem before_wellFounded : WellFounded Before :=
  InvImage.wf left (Prod.lex ⟨_, Nat.lt_wfRel.wf⟩
    (Prod.lex ⟨_, Shrinks.wellFounded⟩ ⟨_, Nat.lt_wfRel.wf⟩)).wf

instance : WellFoundedRelation Progress := ⟨Before, before_wellFounded⟩

theorem before_of_startable {p q : Progress} (h : q.startable < p.startable) : Before q p :=
  Prod.Lex.left _ _ h

theorem before_of_shrinks {p q : Progress} (h : q.startable ≤ p.startable)
    (hf : Shrinks q.inFlight p.inFlight) : Before q p := by
  rcases Nat.lt_or_eq_of_le h with h | h
  · exact before_of_startable h
  · show Prod.Lex _ _ (left q) (left p)
    rw [left, left, h]
    exact Prod.Lex.right _ (Prod.Lex.left _ _ hf)

end Progress

namespace Schedule

open Progress

variable {β : Type}

theorem before_of_start {s : Schedule β} {p q : Progress} (h : s.start? p = some q) :
    Before q p := by
  unfold start? at h
  split at h
  · simp at h
  · next i ready hr =>
    split at h
    · obtain ⟨fiber, _, rfl⟩ := Option.map_eq_some_iff.1 h
      exact before_of_startable (by simp [startable, hr])
    · simp at h

theorem before_of_advance {p q : Progress} {slot : Nat} (h : advance? p slot = some q) :
    Before q p := by
  unfold advance? at h
  split at h
  · next i _ act next hs =>
    cases h
    exact before_of_shrinks (Nat.le_refl _) (Shrinks.set hs _)
  · simp at h

theorem before_of_join {s : Schedule β} {p q : Progress} {slot : Nat}
    (h : s.join? p slot = some q) : Before q p := by
  unfold join? at h
  split at h
  · simp at h
  · split at h
    · next i state hs =>
      cases h
      refine before_of_shrinks ?_ (Shrinks.eraseIdx hs)
      -- What becomes ready is paid for by the counts that go down.
      have := Plan.total_release_le p.remaining (s.plan.dependents[i]?.getD [])
      simp [startable, complete]
      omega
    · next hs =>
      cases h
      exact before_of_shrinks (Nat.le_refl _) (Shrinks.nil_of_getElem? hs)
    · simp at h

theorem before_of_receive {p q : Progress} (h : receive? p = some q) : Before q p := by
  unfold receive? at h
  split at h
  · simp at h
  · next hq =>
    cases h
    refine Prod.Lex.right _ (Prod.Lex.right _ ?_)
    cases hqueue : p.world.failures.queue with
    | nil => simp [hqueue] at hq
    | cons f fs => simp [Mailbox.receive, hqueue]

/-- A move takes a run nearer to its end. -/
theorem before_of_move {s : Schedule β} {p q : Progress} {m : Move} (h : s.move? p m = some q) :
    Before q p := by
  unfold move? at h
  split at h
  · simp at h
  · cases m with
    | start => exact before_of_start h
    | advance => exact before_of_advance h
    | join => exact before_of_join h
    | receive => exact before_of_receive h

/-- Chooses the next move from the number of moves made and from how far the run has come. -/
abbrev Policy := Nat → Progress → Move

/-- Moves by a policy until the run is over, or the policy chooses an impossible move. -/
def run (s : Schedule β) (policy : Policy) (clock : Nat) (p : Progress) : Progress :=
  if isOver p then p
  else
    match _h : s.move? p (policy clock p) with
    | some q => run s policy (clock + 1) q
    | none => p
termination_by p
decreasing_by exact before_of_move _h

/-- Starts what can be started, joins what is done, and otherwise lets the collector take what is
there and the tasks in flight step in turn. -/
def fairPolicy (limit : Nat) : Policy := fun clock p =>
  if p.inFlight.length < limit && !p.ready.isEmpty then .start
  else
    match p.inFlight.findIdx? (·.fiber.isDone) with
    | some slot => .join slot
    | none =>
      if p.world.failures.queue.isEmpty then .advance (clock % p.inFlight.length) else .receive

end Schedule

end BlockFlow
