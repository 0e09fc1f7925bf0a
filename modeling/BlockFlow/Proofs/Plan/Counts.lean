import Mathlib.Data.List.Nodup
import Mathlib.Data.List.Perm.Subperm
import BlockFlow.Task.Plan

/-!
# Counting producers down

A traversal of a task graph, like a run of it, keeps a count for every task: how many of
its producers are not finished. `waiting` is that number said outright, and the lemmas
show that `release` keeps the counts equal to it.

## Key results

- `release_waiting`: finishing one more task counts it down for the tasks that wait for
  it, and hands out those that then wait for nothing
- `Frontier.take`, `Frontier.finish`: the queue holds, of the tasks not taken, exactly
  those that wait for nothing
- `inOrder_traverse`: what `traverse` returns is in order, each task after its producers
- `InOrder.induction`: a property that passes from producers to tasks holds in order
-/

namespace BlockFlow.Plan

/-- The producers of the task at a position. -/
def producersAt (producers : List (List Nat)) (i : Nat) : List Nat := producers[i]?.getD []

/-- How many producers of the task at `i` are not among `finished`. -/
def waiting (producers : List (List Nat)) (finished : List Nat) (i : Nat) : Nat :=
  ((producersAt producers i).filter (fun j => j ∉ finished)).length

/-- The counts of all tasks. -/
def waitingAll (producers : List (List Nat)) (finished : List Nat) : List Nat :=
  (List.range producers.length).map (waiting producers finished)

/-! ## Releasing -/

/-- Each task of the list is counted down once. -/
theorem getElem?_release {ds : List Nat} (hds : ds.Nodup) (counts : List Nat) (i : Nat) :
    (release counts ds).1[i]? = counts[i]?.map (fun c => if i ∈ ds then c - 1 else c) := by
  induction ds generalizing counts with
  | nil => simp [release]
  | cons d ds ih =>
    obtain ⟨hd, hds⟩ := List.nodup_cons.1 hds
    simp only [release]
    rw [ih hds, List.getElem?_set]
    -- Without repeats, `i` is counted down once.
    by_cases hdi : d = i
    · subst hdi
      by_cases hlt : d < counts.length
      · simp [hd, hlt]
      · simp [hlt]
    · have hid : i ≠ d := fun h => hdi h.symm
      simp [hdi, hid]

/-- What is released are the tasks whose count was one, in the order of the list. -/
theorem release_snd {ds : List Nat} (hds : ds.Nodup) (counts : List Nat) :
    (release counts ds).2 = ds.filter (fun d => counts[d]?.getD 0 = 1) := by
  induction ds generalizing counts with
  | nil => rfl
  | cons d ds ih =>
    obtain ⟨hd, hds⟩ := List.nodup_cons.1 hds
    simp only [release]
    rw [ih hds, List.filter_cons]
    -- Counting `d` down leaves the counts of the others alone.
    have htail : ds.filter (fun e => (counts.set d (counts[d]?.getD 0 - 1))[e]?.getD 0 = 1) =
        ds.filter (fun e => counts[e]?.getD 0 = 1) := by
      apply List.filter_congr
      intro e he
      have hde : d ≠ e := fun h => hd (h ▸ he)
      rw [List.getElem?_set_ne hde]
    rw [htail]
    simp only [decide_eq_true_eq]

/-! ## Counts and what they count -/

@[simp] theorem length_waitingAll (producers : List (List Nat)) (finished : List Nat) :
    (waitingAll producers finished).length = producers.length := by
  simp [waitingAll]

theorem getElem?_waitingAll {producers : List (List Nat)} {finished : List Nat} {i : Nat}
    (hi : i < producers.length) :
    (waitingAll producers finished)[i]? = some (waiting producers finished i) := by
  simp [waitingAll, hi]

theorem waitingAll_nil (producers : List (List Nat)) :
    waitingAll producers [] = producers.map List.length := by
  apply List.ext_getElem?
  intro i
  by_cases hi : i < producers.length
  · rw [getElem?_waitingAll hi]
    simp [waiting, producersAt, hi]
  · simp [waitingAll, hi]

/-- A task that waits for nothing has only finished producers. -/
theorem waiting_eq_zero {producers : List (List Nat)} {finished : List Nat} {i : Nat} :
    waiting producers finished i = 0 ↔ ∀ j ∈ producersAt producers i, j ∈ finished := by
  simp [waiting, List.filter_eq_nil_iff]

/-- Finishing `j` takes one from the count of each task that `j` produces for. -/
theorem waiting_append {producers : List (List Nat)} {finished : List Nat} {i j : Nat}
    (hi : (producersAt producers i).Nodup) (hj : j ∉ finished) :
    waiting producers (finished ++ [j]) i =
      waiting producers finished i - (if j ∈ producersAt producers i then 1 else 0) := by
  -- To finish `j` is to take it out of the producers that are waited for.
  have hsplit : (producersAt producers i).filter (fun k => k ∉ finished ++ [j]) =
      ((producersAt producers i).filter (fun k => k ∉ finished)).erase j := by
    rw [List.Nodup.erase_eq_filter (hi.filter _), List.filter_filter]
    apply List.filter_congr
    intro k _
    by_cases hk : k ∈ finished <;> by_cases hkj : k = j <;> simp [hk, hkj]
  rw [waiting, hsplit]
  split
  · next hmem =>
    rw [List.length_erase_of_mem (by simpa using ⟨hmem, hj⟩)]
    rfl
  · next hmem =>
    rw [List.erase_of_not_mem (by simp [hmem])]
    rfl

theorem nodup_dependentsOf (producers : List (List Nat)) (j : Nat) :
    (dependentsOf producers j).Nodup :=
  List.nodup_range.filter _

theorem mem_dependentsOf {producers : List (List Nat)} {i j : Nat} :
    i ∈ dependentsOf producers j ↔ i < producers.length ∧ j ∈ producersAt producers i := by
  simp [dependentsOf, producersAt]

/-- Finishing one more task brings the counts up to date. -/
theorem release_waiting {producers : List (List Nat)} {finished : List Nat} {j : Nat}
    (hp : ∀ i, (producersAt producers i).Nodup) (hj : j ∉ finished) :
    (release (waitingAll producers finished) (dependentsOf producers j)).1 =
      waitingAll producers (finished ++ [j]) := by
  apply List.ext_getElem?
  intro i
  rw [getElem?_release (nodup_dependentsOf producers j)]
  by_cases hi : i < producers.length
  · rw [getElem?_waitingAll hi, getElem?_waitingAll hi, waiting_append (hp i) hj]
    by_cases hij : j ∈ producersAt producers i <;> simp [mem_dependentsOf, hi, hij]
  · simp [waitingAll, hi]

/-- Released are the tasks that had waited for that one alone. -/
theorem mem_release_waiting {producers : List (List Nat)} {finished : List Nat} {i j : Nat}
    (hp : ∀ i, (producersAt producers i).Nodup) (hj : j ∉ finished) :
    i ∈ (release (waitingAll producers finished) (dependentsOf producers j)).2 ↔
      i < producers.length ∧ waiting producers (finished ++ [j]) i = 0 ∧
        waiting producers finished i ≠ 0 := by
  rw [release_snd (nodup_dependentsOf producers j), List.mem_filter, mem_dependentsOf]
  have hstep := waiting_append (hp i) hj
  -- A count falls to zero at `j` only if `j` was the last producer.
  constructor
  · rintro ⟨⟨hi, hij⟩, hone⟩
    rw [getElem?_waitingAll hi] at hone
    simp only [Option.getD_some, decide_eq_true_eq] at hone
    rw [if_pos hij] at hstep
    exact ⟨hi, by omega, by omega⟩
  · rintro ⟨hi, hzero, hne⟩
    rw [getElem?_waitingAll hi]
    by_cases hij : j ∈ producersAt producers i
    · rw [if_pos hij] at hstep
      exact ⟨⟨hi, hij⟩, by simp only [Option.getD_some, decide_eq_true_eq]; omega⟩
    · rw [if_neg hij] at hstep
      omega

/-! ## The queue -/

/-- Of the tasks not taken, those in the queue are the ones that wait for nothing. -/
structure Frontier (producers : List (List Nat)) (finished taken queue : List Nat) : Prop where
  nodup : (taken ++ queue).Nodup
  mem_iff : ∀ i, i ∈ taken ++ queue ↔ i < producers.length ∧ waiting producers finished i = 0

/-- At the start, the tasks without producers are queued. -/
theorem frontier_readyAt (producers : List (List Nat)) :
    Frontier producers [] [] (readyAt (waitingAll producers [])) where
  nodup := List.nodup_range.filter _
  mem_iff i := by
    simp only [List.nil_append, readyAt, List.mem_filter, List.mem_range, length_waitingAll,
      decide_eq_true_eq]
    constructor
    · rintro ⟨hi, hzero⟩
      rw [getElem?_waitingAll hi] at hzero
      exact ⟨hi, Option.some.inj hzero⟩
    · rintro ⟨hi, hzero⟩
      exact ⟨hi, by rw [getElem?_waitingAll hi, hzero]⟩

/-- The first task of the queue is taken. -/
theorem Frontier.take {producers : List (List Nat)} {finished taken queue : List Nat} {i : Nat}
    (h : Frontier producers finished taken (i :: queue)) :
    Frontier producers finished (taken ++ [i]) queue := by
  have happend : taken ++ [i] ++ queue = taken ++ i :: queue := by simp
  exact ⟨happend ▸ h.nodup, happend ▸ h.mem_iff⟩

/-- A task is finished, and what it releases is queued. -/
theorem Frontier.finish {producers : List (List Nat)} {finished taken queue : List Nat} {j : Nat}
    (h : Frontier producers finished taken queue) (hp : ∀ i, (producersAt producers i).Nodup)
    (hj : j ∉ finished) :
    Frontier producers (finished ++ [j]) taken
      (queue ++ (release (waitingAll producers finished) (dependentsOf producers j)).2) := by
  have hmono : ∀ i, waiting producers finished i = 0 →
      waiting producers (finished ++ [j]) i = 0 := by
    intro i hi
    rw [waiting_append (hp i) hj, hi, Nat.zero_sub]
  constructor
  case nodup =>
    rw [← List.append_assoc]
    refine List.Nodup.append h.nodup ?_ ?_
    · rw [release_snd (nodup_dependentsOf producers j)]
      exact (nodup_dependentsOf producers j).filter _
    · -- What is released had waited, and so was neither taken nor queued.
      intro i hi hrel
      exact ((mem_release_waiting hp hj).1 hrel).2.2 ((h.mem_iff i).1 hi).2
  case mem_iff =>
    intro i
    rw [← List.append_assoc, List.mem_append, h.mem_iff, mem_release_waiting hp hj]
    constructor
    · rintro (⟨hi, hzero⟩ | ⟨hi, hzero, -⟩)
      · exact ⟨hi, hmono i hzero⟩
      · exact ⟨hi, hzero⟩
    · -- A task that waits for nothing now had waited for the last one, or for nothing before.
      rintro ⟨hi, hzero⟩
      by_cases hold : waiting producers finished i = 0
      · exact .inl ⟨hi, hold⟩
      · exact .inr ⟨hi, hzero, hold⟩

/-! ## The order -/

/-- After the tasks `seen`, each task of the list comes after its producers. -/
def InOrder (producers : List (List Nat)) : List Nat → List Nat → Prop
  | _, [] => True
  | seen, i :: is =>
    (∀ j ∈ producersAt producers i, j ∈ seen) ∧ InOrder producers (seen ++ [i]) is

/-- What passes from producers to tasks holds of all tasks in order. -/
theorem InOrder.induction {producers : List (List Nat)} {P : Nat → Prop}
    (hP : ∀ i, (∀ j ∈ producersAt producers i, P j) → P i) {seen order : List Nat}
    (h : InOrder producers seen order) (hseen : ∀ j ∈ seen, P j) : ∀ i ∈ order, P i := by
  induction order generalizing seen with
  | nil => intro i hi; cases hi
  | cons k order ih =>
    obtain ⟨hk, horder⟩ := h
    have hPk : P k := hP k (fun j hj => hseen j (hk j hj))
    have hrest := ih horder (by
      intro j hj
      rcases List.mem_append.1 hj with hj | hj
      · exact hseen j hj
      · rw [List.mem_singleton.1 hj]; exact hPk)
    intro i hi
    rcases List.mem_cons.1 hi with rfl | hi
    · exact hPk
    · exact hrest i hi

/-- A traversal takes tasks in order and none twice. -/
theorem inOrder_traverse {producers : List (List Nat)} {dependents : List (List Nat)}
    (hp : ∀ i, (producersAt producers i).Nodup)
    (hdep : ∀ j < producers.length, dependents[j]?.getD [] = dependentsOf producers j)
    (fuel : Nat) {finished queue : List Nat} (h : Frontier producers finished finished queue) :
    InOrder producers finished
        (traverse dependents fuel (waitingAll producers finished) queue).1 ∧
      (finished ++ (traverse dependents fuel (waitingAll producers finished) queue).1).Nodup ∧
      ∀ i ∈ (traverse dependents fuel (waitingAll producers finished) queue).1,
        i < producers.length := by
  induction fuel generalizing finished queue with
  | zero =>
    refine ⟨trivial, ?_, by simp [traverse]⟩
    simpa [traverse] using (List.nodup_append.1 h.nodup).1
  | succ fuel ih =>
    cases queue with
    | nil =>
      refine ⟨trivial, ?_, by simp [traverse]⟩
      simpa [traverse] using h.nodup
    | cons i queue =>
      have hi := (h.mem_iff i).1 (by simp)
      have hfresh : i ∉ finished := by
        intro hmem
        exact List.disjoint_of_nodup_append h.nodup hmem (by simp)
      simp only [traverse]
      -- Taking and finishing the first task keeps the frontier.
      rw [hdep i hi.1, release_waiting hp hfresh]
      obtain ⟨horder, hnodup, hlt⟩ := ih (h.take.finish hp hfresh)
      refine ⟨⟨waiting_eq_zero.1 hi.2, horder⟩, ?_, ?_⟩
      · simpa using hnodup
      · intro k hk
        rcases List.mem_cons.1 hk with rfl | hk
        · exact hi.1
        · exact hlt k hk

end BlockFlow.Plan
