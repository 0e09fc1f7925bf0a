import Mathlib.Data.Set.Finite.Basic
import Mathlib.Logic.Relation
import BlockFlow.Proofs.Plan.Soundness

/-!
# Tasks that wait for each other

A task graph whose references can all be resolved has a plan unless its wiring has cycles.
What a traversal cannot take are then the tasks of the cycles and the tasks behind them
(`Stalls`): the others come in order, and each of those that are left waits for another one
that is left.

## Key results

- `stalls_of_back`: where everything is preceded by something of the same kind, cycles lie
- `Plan.exhausts_traverse`: a traversal with enough fuel leaves nothing that could be taken
- `TaskGraph.plan_or_cycle`: a plan is missing because of cycles only, and the error names
  exactly the tasks that they stall
-/

namespace BlockFlow

open Relation

/-! ## Stalling -/

/-- Lies on a cycle of the relation, or is reached from one. -/
def Stalls {α : Type} (r : α → α → Prop) (a : α) : Prop :=
  ∃ c, TransGen r c c ∧ ReflTransGen r c a

section Stalls

variable {α : Type} {r : α → α → Prop} {a b : α}

theorem Stalls.of_cycle (h : TransGen r a a) : Stalls r a := ⟨a, h, .refl⟩

theorem Stalls.step (h : Stalls r a) (hab : r a b) : Stalls r b := by
  obtain ⟨c, hcycle, hpath⟩ := h
  exact ⟨c, hcycle, hpath.tail hab⟩

/-- What stalls comes right after something that stalls. -/
theorem Stalls.exists_before (h : Stalls r a) : ∃ b, r b a ∧ Stalls r b := by
  obtain ⟨c, hcycle, hpath⟩ := h
  rcases ReflTransGen.cases_tail hpath with rfl | ⟨b, hcb, hba⟩
  · obtain ⟨b, hab, hba⟩ := TransGen.tail'_iff.1 hcycle
    exact ⟨b, hba, _, hcycle, hab⟩
  · exact ⟨b, hba, c, hcycle, hcb⟩

/-- Among finitely many things, each of which comes after another one of them, all stall. -/
theorem stalls_of_back {P : α → Prop} (hfinite : {a | P a}.Finite)
    (hback : ∀ a, P a → ∃ b, P b ∧ r b a) (ha : P a) : Stalls r a := by
  by_contra hnot
  let Free := {a // P a ∧ ¬Stalls r a}
  have : Finite Free := (hfinite.subset (fun _ h => h.1)).to_subtype
  let before : Free → Free → Prop := fun x y => TransGen r x.1 y.1
  have : IsTrans Free before := ⟨fun _ _ _ => TransGen.trans⟩
  have : Std.Irrefl before := ⟨fun x hx => x.2.2 (.of_cycle hx)⟩
  -- Those that do not stall have a first one, but it comes after another of them.
  refine (Finite.wellFounded_of_trans_of_irrefl before).induction (C := fun _ => False)
    ⟨a, ha, hnot⟩ ?_
  rintro ⟨x, hx, hxfree⟩ ih
  obtain ⟨b, hb, hstep⟩ := hback x hx
  exact ih ⟨b, hb, fun hstalls => hxfree (hstalls.step hstep)⟩ (TransGen.single hstep)

end Stalls

namespace Plan

/-! ## What a traversal leaves -/

/-- Once all tasks are finished, none is queued. -/
theorem Frontier.queue_eq_nil {producers : List (List Nat)} {finished queue : List Nat}
    (h : Frontier producers finished finished queue)
    (hall : producers.length ≤ finished.length) : queue = [] := by
  have hsub : finished ++ queue ⊆ List.range producers.length :=
    fun i hi => List.mem_range.2 ((h.mem_iff i).1 hi).1
  have hlength := (List.subperm_of_subset h.nodup hsub).length_le
  rw [List.length_append, List.length_range] at hlength
  exact List.eq_nil_of_length_eq_zero (by omega)

/-- A traversal with fuel for all tasks goes on until nothing is left that waits for nothing, and
its counts are those of the tasks that it has taken. -/
theorem exhausts_traverse {producers : List (List Nat)} {dependents : List (List Nat)}
    (hp : ∀ i, (producersAt producers i).Nodup)
    (hdep : ∀ j < producers.length, dependents[j]?.getD [] = dependentsOf producers j)
    (fuel : Nat) {finished queue : List Nat} (h : Frontier producers finished finished queue)
    (hfuel : producers.length ≤ fuel + finished.length) :
    ∃ taken, (traverse dependents fuel (waitingAll producers finished) queue).1 = taken ∧
      (traverse dependents fuel (waitingAll producers finished) queue).2 =
        waitingAll producers (finished ++ taken) ∧
      ∀ i, i ∈ finished ++ taken ↔
        i < producers.length ∧ waiting producers (finished ++ taken) i = 0 := by
  -- The queue holds what waits for nothing and has not been taken, so with enough fuel it runs
  -- empty.
  induction fuel generalizing finished queue with
  | zero =>
    obtain rfl := h.queue_eq_nil (by omega)
    exact ⟨[], rfl, by rw [List.append_nil]; rfl, by simpa using h.mem_iff⟩
  | succ fuel ih =>
    cases queue with
    | nil => exact ⟨[], rfl, by rw [List.append_nil]; rfl, by simpa using h.mem_iff⟩
    | cons i queue =>
      have hi := (h.mem_iff i).1 (by simp)
      have hfresh : i ∉ finished := by
        intro hmem
        exact List.disjoint_of_nodup_append h.nodup hmem (by simp)
      simp only [traverse]
      rw [hdep i hi.1, release_waiting hp hfresh]
      obtain ⟨taken, horder, hcounts, hmem⟩ := ih (h.take.finish hp hfresh)
        (by rw [List.length_append, List.length_singleton]; omega)
      rw [List.append_assoc, List.singleton_append] at hcounts hmem
      exact ⟨i :: taken, by rw [horder], hcounts, hmem⟩

theorem stuckAt_waitingAll (producers : List (List Nat)) (finished : List Nat) :
    stuckAt (waitingAll producers finished) =
      (List.range producers.length).filter (fun i => waiting producers finished i ≠ 0) := by
  unfold stuckAt
  rw [length_waitingAll]
  refine List.filter_congr (fun i hi => ?_)
  rw [getElem?_waitingAll (List.mem_range.1 hi)]
  simp

/-- Of all tasks, what no order can take are the ones that stall. -/
theorem mem_iff_not_stalls {producers : List (List Nat)} {taken : List Nat}
    (hlt : ∀ i, ∀ j ∈ producersAt producers i, j < producers.length)
    (horder : InOrder producers [] taken)
    (hmem : ∀ i, i ∈ taken ↔ i < producers.length ∧ waiting producers taken i = 0) {i : Nat}
    (hi : i < producers.length) :
    i ∈ taken ↔ ¬Stalls (fun j i => j ∈ producersAt producers i) i := by
  constructor
  · intro h
    refine horder.induction
      (P := fun i => ¬Stalls (fun j i => j ∈ producersAt producers i) i) ?_ (by simp) i h
    intro k hk hstalls
    obtain ⟨j, hj, hstalls⟩ := hstalls.exists_before
    exact hk j hj hstalls
  · intro hfree
    by_contra hleft
    -- What is left waits for something that is left.
    refine hfree (stalls_of_back (P := fun i => i < producers.length ∧ i ∉ taken) ?_ ?_
      ⟨hi, hleft⟩)
    · exact (Set.finite_lt_nat producers.length).subset (fun _ h => h.1)
    · rintro k ⟨hk, hkleft⟩
      have hwaits : ¬∀ j ∈ producersAt producers k, j ∈ taken :=
        fun hall => hkleft ((hmem k).2 ⟨hk, waiting_eq_zero.2 hall⟩)
      push Not at hwaits
      obtain ⟨j, hj, hjleft⟩ := hwaits
      exact ⟨j, ⟨hlt k j hj, hjleft⟩, hj⟩

end Plan

namespace TaskGraph

variable {β : Type}

/-! ## Plans and cycles -/

/-- A task graph whose references can be resolved has a plan and no task of it stalls, or its
error names the tasks that stall, in order. -/
theorem plan_or_cycle {g : TaskGraph β} {bound : List (List BoundPort)}
    (hbound : g.bindAll = .ok bound) :
    (∃ plan, g.plan = .ok plan) ∧ (∀ i, ¬Stalls g.Feeds i) ∨
      ∃ stuck : List Nat, stuck ≠ [] ∧ stuck.Pairwise (· < ·) ∧
        (∀ i, i ∈ stuck ↔ i < g.tasks.length ∧ Stalls g.Feeds i) ∧
        g.plan = .error (.cycle (stuck.filterMap (fun i => g.tasks[i]?.map (·.name)))) := by
  have hn := length_producers hbound
  have hfeeds : (fun j i => j ∈ Plan.producersAt g.producers i) = g.Feeds := by
    funext j i
    exact propext (mem_producersAt hbound)
  have hlt : ∀ i, ∀ j ∈ Plan.producersAt g.producers i, j < g.producers.length :=
    fun i j hj => hn ▸ ((mem_producersAt hbound).1 hj).lt
  have hfrontier := Plan.frontier_readyAt g.producers
  have hdependents : ∀ j < g.producers.length, _ := fun j => getElem?_dependents hbound
  obtain ⟨horder, hnodup, -⟩ :=
    Plan.inOrder_traverse g.nodup_producersAt hdependents g.tasks.length hfrontier
  obtain ⟨taken, htaken, hcounts, hmem⟩ :=
    Plan.exhausts_traverse g.nodup_producersAt hdependents g.tasks.length hfrontier
      (by rw [hn]; simp)
  rw [htaken] at horder hnodup
  rw [List.nil_append] at hnodup hcounts hmem
  change g.traversal.1 = taken at htaken
  change g.traversal.2 = Plan.waitingAll g.producers taken at hcounts
  have hfree : ∀ i < g.tasks.length, (i ∈ taken ↔ ¬Stalls g.Feeds i) := by
    rw [← hn, ← hfeeds]
    exact fun i hi => Plan.mem_iff_not_stalls hlt horder hmem hi
  rw [plan_of_bindAll hbound, htaken, hcounts, Plan.stuckAt_waitingAll]
  have hsub : taken ⊆ List.range g.tasks.length :=
    fun i hi => List.mem_range.2 (hn ▸ ((hmem i).1 hi).1)
  split
  · next hshort =>
    refine .inr ⟨_, fun hnil => ?_, List.pairwise_lt_range.filter _, fun i => ?_, rfl⟩
    · -- If nothing were stuck, all tasks would have been taken.
      have hall : List.range g.tasks.length ⊆ taken := by
        intro i hi
        rw [← hn] at hi
        have hzero := List.filter_eq_nil_iff.1 hnil i hi
        exact (hmem i).2 ⟨List.mem_range.1 hi, by simpa using hzero⟩
      have hle := (List.subperm_of_subset List.nodup_range hall).length_le
      rw [List.length_range] at hle
      omega
    · rw [List.mem_filter, List.mem_range, hn]
      refine and_congr_right (fun hi => ?_)
      have hiff := (hmem i).symm.trans (hfree i hi)
      rw [hn] at hiff
      simpa [hi] using not_congr hiff
  · next hlong =>
    have hperm := (List.subperm_of_subset hnodup hsub).perm_of_length_le
      (by rw [List.length_range]; omega)
    refine .inl ⟨⟨_, rfl⟩, fun i hstalls => ?_⟩
    obtain ⟨j, ⟨t, _, _, _, ht, -⟩, -⟩ := hstalls.exists_before
    have hi := (List.getElem?_eq_some_iff.1 ht).1
    exact (hfree i hi).1 (hperm.mem_iff.2 (List.mem_range.2 hi)) hstalls

end TaskGraph

end BlockFlow
