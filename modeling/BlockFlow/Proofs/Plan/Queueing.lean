import BlockFlow.Proofs.Plan.Cycles

/-!
# A plan takes the tasks from a queue

The traversal behind a plan takes the tasks from a queue, to which it adds a task when it has taken
the last one of its producers. `TaskGraph.Queued` says of an order that it is the order of such a
queue, without counts or queues: it looks at where the producers of each task stand. The order of a
plan is one, and a task graph has no other.

## Key results

- `Plan.Frontier.pairwise_finish`: what a finished task adds to the queue comes after what has been
  there, and in the order of the graph
- `TaskGraph.queued_order`: a plan has the tasks in the order of a queue
- `TaskGraph.Queued.unique`: there is one such order only
-/

namespace BlockFlow

namespace Plan

/-- Everything that feeds the task `i` is among the first `k` tasks of an order. -/
def FedAfter (feeds : Nat → Nat → Prop) (order : List Nat) (k i : Nat) : Prop :=
  ∀ j, feeds j i → j ∈ order.take k

/-- Task `i` is fed earlier than task `i'`, or they are fed at once and `i` is the first of the
two in the task graph. -/
def Precedes (feeds : Nat → Nat → Prop) (order : List Nat) (i i' : Nat) : Prop :=
  (∀ k, FedAfter feeds order k i' → FedAfter feeds order k i) ∧
    ((∀ k, FedAfter feeds order k i → FedAfter feeds order k i') → i < i')

section FedAfter

variable {feeds : Nat → Nat → Prop} {order : List Nat} {i i' k l : Nat}

theorem FedAfter.mono (h : FedAfter feeds order k i) (hkl : k ≤ l) : FedAfter feeds order l i :=
  fun j hj => (List.take_prefix_take_left hkl).subset (h j hj)

/-- What comes later does not matter to a task that is fed already. -/
theorem fedAfter_append (h : ∀ j, feeds j i → j ∈ order) (later : List Nat) :
    FedAfter feeds (order ++ later) k i ↔ FedAfter feeds order k i := by
  rcases Nat.le_total k order.length with hk | hk
  · rw [FedAfter, List.take_append_of_le_length hk, FedAfter]
  · refine iff_of_true (fun j hj => ?_) (fun j hj => ?_)
    · rw [List.take_append, List.take_of_length_le hk]
      exact List.mem_append_left _ (h j hj)
    · rw [List.take_of_length_le hk]
      exact h j hj

theorem precedes_append (h : ∀ j, feeds j i → j ∈ order) (h' : ∀ j, feeds j i' → j ∈ order)
    (later : List Nat) :
    Precedes feeds (order ++ later) i i' ↔ Precedes feeds order i i' := by
  simp only [Precedes, fedAfter_append h, fedAfter_append h']

/-- A task that only the last one of some tasks has completely fed is fed after that one. -/
theorem fedAfter_concat_iff {j : Nat} (hnot : ¬∀ m, feeds m i → m ∈ order)
    (hfed : ∀ m, feeds m i → m ∈ order ++ [j]) :
    FedAfter feeds (order ++ [j]) k i ↔ order.length < k := by
  constructor
  · intro h
    by_contra hk
    rw [FedAfter, List.take_append_of_le_length (by omega)] at h
    exact hnot fun m hm => List.mem_of_mem_take (h m hm)
  · intro hk m hm
    rw [List.take_of_length_le (by rw [List.length_append, List.length_singleton]; omega)]
    exact hfed m hm

end FedAfter

/-! ## The queue of a traversal -/

/-- The task at `j` is one of the producers of the task at `i`. -/
abbrev Produces (producers : List (List Nat)) (j i : Nat) : Prop := j ∈ producersAt producers i

theorem ascending_readyAt (counts : List Nat) : (readyAt counts).Pairwise (· < ·) :=
  List.pairwise_lt_range.filter _

theorem ascending_release {producers : List (List Nat)} (counts : List Nat) (j : Nat) :
    (release counts (dependentsOf producers j)).2.Pairwise (· < ·) := by
  rw [release_snd (nodup_dependentsOf producers j)]
  exact (List.pairwise_lt_range.filter _).filter _

variable {producers : List (List Nat)} {dependents : List (List Nat)}

theorem pairwise_readyAt (producers : List (List Nat)) :
    (readyAt (waitingAll producers [])).Pairwise (Precedes (Produces producers) []) := by
  refine (ascending_readyAt _).imp_of_mem fun {i i'} hi _ hlt => ⟨fun k _ j hj => ?_, fun _ => hlt⟩
  exact absurd (waiting_eq_zero.1 (((frontier_readyAt producers).mem_iff i).1 hi).2 j hj)
    List.not_mem_nil

/-- What a finished task adds to the queue comes after what has been taken or queued before, and it
is added in the order of the graph. -/
theorem Frontier.pairwise_finish {finished taken queue : List Nat} {j : Nat}
    (h : Frontier producers finished taken queue) (hp : ∀ i, (producersAt producers i).Nodup)
    (hj : j ∉ finished)
    (hpairwise : (taken ++ queue).Pairwise (Precedes (Produces producers) finished)) :
    (taken ++ (queue ++
        (release (waitingAll producers finished) (dependentsOf producers j)).2)).Pairwise
      (Precedes (Produces producers) (finished ++ [j])) := by
  have hold : ∀ i ∈ taken ++ queue, ∀ m, Produces producers m i → m ∈ finished :=
    fun i hi => waiting_eq_zero.1 ((h.mem_iff i).1 hi).2
  -- What is released is fed when `j` is finished, and not before.
  have hnew : ∀ i ∈ (release (waitingAll producers finished) (dependentsOf producers j)).2, ∀ k,
      FedAfter (Produces producers) (finished ++ [j]) k i ↔ finished.length < k := by
    intro i hi k
    obtain ⟨-, hzero, hne⟩ := (mem_release_waiting hp hj).1 hi
    exact fedAfter_concat_iff (fun hall => hne (waiting_eq_zero.2 hall)) (waiting_eq_zero.1 hzero)
  rw [← List.append_assoc, List.pairwise_append]
  refine ⟨?_, ?_, fun i hi i' hi' => ⟨fun k hk => ?_, fun hsame => ?_⟩⟩
  · exact hpairwise.imp_of_mem fun hi hi' => (precedes_append (hold _ hi) (hold _ hi') [j]).2
  · refine (ascending_release _ j).imp_of_mem fun {i i'} hi hi' hlt => ⟨fun k hk => ?_, ?_⟩
    · exact (hnew i hi k).2 ((hnew i' hi' k).1 hk)
    · exact fun _ => hlt
  · rw [hnew i' hi'] at hk
    intro m hm
    rw [List.take_of_length_le (by rw [List.length_append, List.length_singleton]; omega)]
    exact List.mem_append_left _ (hold i hi m hm)
  · -- The earlier task has been fed before `j` was finished.
    have hfed : FedAfter (Produces producers) (finished ++ [j]) finished.length i :=
      (fedAfter_append (hold i hi) [j]).2 fun m hm => by
        rw [List.take_length]
        exact hold i hi m hm
    exact absurd ((hnew i' hi' _).1 (hsame _ hfed)) (Nat.lt_irrefl _)

/-- A traversal with fuel for all tasks takes them in the order of the queue. -/
theorem pairwise_traverse (hp : ∀ i, (producersAt producers i).Nodup)
    (hdep : ∀ j < producers.length, dependents[j]?.getD [] = dependentsOf producers j)
    (fuel : Nat) {finished queue order : List Nat}
    (h : Frontier producers finished finished queue)
    (hfuel : producers.length ≤ fuel + finished.length)
    (hpairwise : (finished ++ queue).Pairwise (Precedes (Produces producers) finished))
    (horder : order =
      finished ++ (traverse dependents fuel (waitingAll producers finished) queue).1) :
    order.Pairwise (Precedes (Produces producers) order) := by
  induction fuel generalizing finished queue with
  | zero =>
    obtain rfl := h.queue_eq_nil (by omega)
    rw [traverse, List.append_nil] at horder
    rw [List.append_nil] at hpairwise
    exact horder ▸ hpairwise
  | succ fuel ih =>
    cases queue with
    | nil =>
      rw [traverse, List.append_nil] at horder
      rw [List.append_nil] at hpairwise
      exact horder ▸ hpairwise
    | cons i queue =>
      -- The head of the queue is taken, and what it releases goes behind what has been released
      -- before.
      have hi := (h.mem_iff i).1 (by simp)
      have hfresh : i ∉ finished := fun hmem =>
        List.disjoint_of_nodup_append h.nodup hmem List.mem_cons_self
      simp only [traverse] at horder
      rw [hdep i hi.1, release_waiting hp hfresh] at horder
      refine ih (h.take.finish hp hfresh)
        (by rw [List.length_append, List.length_singleton]; omega) ?_ (by simpa using horder)
      refine h.take.pairwise_finish hp hfresh ?_
      simpa using hpairwise

/-- In order, and without a task twice, no task comes before one of its producers. -/
theorem InOrder.pairwise {seen order : List Nat} (h : InOrder producers seen order)
    (hnodup : (seen ++ order).Nodup) :
    order.Pairwise (fun i j => ¬Produces producers j i) := by
  induction order generalizing seen with
  | nil => exact .nil
  | cons i order ih =>
    obtain ⟨hi, horder⟩ := h
    have hnodup' : (seen ++ [i] ++ order).Nodup := by simpa using hnodup
    refine .cons (fun j hj hij => ?_) (ih horder hnodup')
    -- The producers of `i` have been seen, and what has been seen does not come again.
    exact List.disjoint_of_nodup_append hnodup (hi j hij) (List.mem_cons_of_mem _ hj)

end Plan

/-! ## The order of a plan -/

namespace TaskGraph

variable {β : Type} {g : TaskGraph β} {plan : Plan} {order order' : List Nat}

/-- The order in which a queue hands out all tasks: those that nothing feeds come first, and each of
the others is put in as soon as the last one of its producers has come. Tasks without producers, and
tasks with the same last producer, are put in in the order of the graph. -/
structure Queued (g : TaskGraph β) (order : List Nat) : Prop where
  all : order.Perm (List.range g.tasks.length)
  afterProducers : order.Pairwise (fun i j => ¬g.Feeds j i)
  queue : order.Pairwise (Plan.Precedes g.Feeds order)

/-- The order of a plan is the one in which its tasks are taken. -/
theorem order_of_plan (h : g.plan = .ok plan) :
    plan.order = (Plan.traverse plan.dependents g.tasks.length plan.remaining
      (Plan.readyAt plan.remaining)).1 := by
  cases hbound : g.bindAll with
  | error e => unfold TaskGraph.plan at h; rw [hbound] at h; cases h
  | ok bound =>
    rw [plan_of_bindAll hbound] at h
    split at h
    · cases h
    · cases h
      rfl

theorem queued_order (h : g.plan = .ok plan) : g.Queued plan.order := by
  have ha := accounts_of_plan h
  have hfeeds : Plan.Produces g.producers = g.Feeds := by
    funext j i
    exact propext (ha.mem i j)
  refine ⟨?_, ?_, ?_⟩
  · refine (List.perm_ext_iff_of_nodup ha.nodup List.nodup_range).2 fun i => ?_
    rw [ha.complete, List.mem_range]
  · rw [← hfeeds]
    exact ha.inOrder.pairwise ha.nodup
  · rw [← hfeeds]
    refine Plan.pairwise_traverse g.nodup_producersAt ha.dependents g.tasks.length
      (Plan.frontier_readyAt g.producers) (by rw [ha.length]; simp) ?_ ?_
    · exact Plan.pairwise_readyAt g.producers
    · rw [List.nil_append, order_of_plan h, ha.remaining]

/-! ## There is no other one -/

namespace Queued

theorem nodup (h : g.Queued order) : order.Nodup := h.all.nodup_iff.2 List.nodup_range

theorem perm (h : g.Queued order) (h' : g.Queued order') : order.Perm order' :=
  h.all.trans h'.all.symm

/-- The tasks in front of a task have fed it. -/
theorem fedAfter (h : g.Queued order) (ha : plan.Accounts g) {k i : Nat}
    (hi : order[k]? = some i) : Plan.FedAfter g.Feeds order k i := by
  intro j hj
  obtain ⟨m, hm⟩ := List.getElem?_of_mem (h.all.mem_iff.2 (List.mem_range.2 hj.lt))
  rcases Nat.lt_trichotomy m k with hlt | rfl | hlt
  · exact List.mem_of_getElem? ((List.getElem?_take_of_lt hlt).trans hm)
  · obtain rfl := Option.some.inj (hi.symm.trans hm)
    exact absurd hj (ha.not_feeds_self _)
  · obtain ⟨hk, rfl⟩ := List.getElem?_eq_some_iff.1 hi
    obtain ⟨hm', rfl⟩ := List.getElem?_eq_some_iff.1 hm
    exact absurd hj (List.pairwise_iff_getElem.1 h.afterProducers k m hk hm' hlt)

variable {k i i' : Nat}

/-- Of two tasks at the place at which two orders part, each precedes the other in the order in
which it stands at this place. -/
theorem precedes_of_take_eq (h : g.Queued order) (h' : g.Queued order')
    (htake : order.take k = order'.take k) (hi : order[k]? = some i) (hi' : order'[k]? = some i')
    (hne : i ≠ i') : Plan.Precedes g.Feeds order i i' := by
  obtain ⟨m, hm⟩ := List.getElem?_of_mem ((h.perm h').mem_iff.2 (List.mem_of_getElem? hi'))
  obtain ⟨hm', rfl⟩ := List.getElem?_eq_some_iff.1 hm
  obtain ⟨hk, rfl⟩ := List.getElem?_eq_some_iff.1 hi
  rcases Nat.lt_trichotomy k m with hlt | rfl | hlt
  · exact List.pairwise_iff_getElem.1 h.queue k m hk hm' hlt
  · exact absurd rfl hne
  · -- It cannot stand in front, where the orders agree.
    have hsame : order'[m]? = order'[k]? := by
      rw [hi', ← List.getElem?_take_of_lt hlt, ← htake, List.getElem?_take_of_lt hlt, hm]
    obtain ⟨hk', -⟩ := List.getElem?_eq_some_iff.1 hi'
    exact absurd ((List.getElem?_inj (by omega) h'.nodup).1 hsame) (by omega)

/-- A task that is fed while two orders agree is fed after as many tasks in one as in the other. -/
theorem fedAfter_iff_of_take_eq (htake : order.take k = order'.take k)
    (hfed : Plan.FedAfter g.Feeds order k i) (l : Nat) :
    Plan.FedAfter g.Feeds order l i ↔ Plan.FedAfter g.Feeds order' l i := by
  rcases Nat.le_total l k with hl | hl
  · have hl' : order.take l = order'.take l := by
      rw [← Nat.min_eq_left hl, ← List.take_take, htake, List.take_take]
    rw [Plan.FedAfter, hl', Plan.FedAfter]
  · refine iff_of_true (hfed.mono hl) (Plan.FedAfter.mono ?_ hl)
    rwa [Plan.FedAfter, ← htake]

/-- Orders that agree up to a place agree at this place: of two different tasks there, each would be
the first one in the graph. -/
theorem eq_of_take_eq (h : g.Queued order) (h' : g.Queued order') (ha : plan.Accounts g)
    (htake : order.take k = order'.take k) (hi : order[k]? = some i)
    (hi' : order'[k]? = some i') : i = i' := by
  by_contra hne
  have hfed' : Plan.FedAfter g.Feeds order k i' := by
    rw [Plan.FedAfter, htake]
    exact h'.fedAfter ha hi'
  -- After the same tasks, the same ones are fed, so each would have to come first.
  have hsame := fedAfter_iff_of_take_eq htake (h.fedAfter ha hi)
  have hsame' := fedAfter_iff_of_take_eq htake hfed'
  have hprecedes := h.precedes_of_take_eq h' htake hi hi' hne
  have hprecedes' := h'.precedes_of_take_eq h htake.symm hi' hi (Ne.symm hne)
  have hlt : i < i' := hprecedes.2 fun l hl =>
    (hsame' l).2 (hprecedes'.1 l ((hsame l).1 hl))
  have hlt' : i' < i := hprecedes'.2 fun l hl =>
    (hsame l).1 (hprecedes.1 l ((hsame' l).2 hl))
  exact absurd hlt (Nat.not_lt_of_gt hlt')

/-- There is one such order only. -/
theorem unique (h : g.Queued order) (h' : g.Queued order') (ha : plan.Accounts g) :
    order = order' := by
  have hlength := (h.perm h').length_eq
  suffices htake : ∀ k, order.take k = order'.take k by
    have hall := htake order.length
    rwa [List.take_length, hlength, List.take_length] at hall
  intro k
  -- Induction on the number of places at which the orders agree.
  induction k with
  | zero => rw [List.take_zero, List.take_zero]
  | succ k ih =>
    rcases Nat.lt_or_ge k order.length with hk | hk
    · have hi := List.getElem?_eq_getElem hk
      have hi' := List.getElem?_eq_getElem (hlength ▸ hk)
      rw [List.take_add_one, List.take_add_one, ih, hi, hi', h.eq_of_take_eq h' ha ih hi hi']
    · have hwhole : order = order' := by
        rwa [List.take_of_length_le hk, List.take_of_length_le (hlength ▸ hk)] at ih
      rw [hwhole]

end Queued

end TaskGraph

end BlockFlow
