import Mathlib.Data.Set.Card
import BlockFlow.Proofs.Except
import BlockFlow.Proofs.Plan.Cycles

/-!
# Exact plans

What `TaskGraph.plan` answers, said about the ports alone. `Means` is what a reference
refers to, `ReadsFrom` that a task has an input wired to an output of another one. Either
some port is `Loose`, and the first one is reported; or the wiring has a cycle, and the
tasks that are `HeldUp` by one are reported; or there is a plan, and it is `Exact`.

The counts of a traversal are natural numbers, for which `0 - 1 = 0`. `release?` and
`traverse?` count with a check instead, and give up rather than go below zero.

## Key results

- `TaskGraph.bindAll_eq_error_iff`: binding the ports fails at the first loose one
- `Plan.traverse?_eq_some`: a traversal never counts below zero, nor does it run out of fuel
- `TaskGraph.plan_exact`: all that the plan of a task graph can be
-/

namespace BlockFlow

open Relation

namespace TaskGraph

variable {β : Type} {g : TaskGraph β}

/-! ## References -/

/-- The reference is to the task at `j`, the last one of that name, and to an output port of it
that is published as `path`. -/
structure Means (g : TaskGraph β) (ref : PortRef) (j : Nat) (path : Path) : Prop where
  task : ∃ u, g.tasks[j]? = some u ∧ u.name = ref.task ∧ u.outputPorts.get? ref.port = some path
  last : ∀ k u, g.tasks[k]? = some u → u.name = ref.task → k ≤ j

/-- The task at `i` has an input wired to an output of the task at `j`. -/
def ReadsFrom (g : TaskGraph β) (i j : Nat) : Prop :=
  ∃ t port ref path, g.tasks[i]? = some t ∧ t.inputPorts.get? port = some (some ref) ∧
    g.Means ref j path

/-- The task at `i` lies on a cycle of the wiring, or depends on a task that does. -/
def HeldUp (g : TaskGraph β) (i : Nat) : Prop :=
  ∃ c, TransGen g.ReadsFrom c c ∧ ReflTransGen g.ReadsFrom i c

/-- This input port of the task at `i` refers to a task or an output port that does not exist. -/
def Loose (g : TaskGraph β) (i : Nat) (port : String) : Prop :=
  ∃ t ref, g.tasks[i]? = some t ∧ t.inputPorts.get? port = some (some ref) ∧
    ∀ j path, ¬g.Means ref j path

/-- The first loose port of the first task that has one. -/
structure FirstLoose (g : TaskGraph β) (i : Nat) (port : String) : Prop where
  loose : g.Loose i port
  earlier : ∀ k < i, ∀ p, ¬g.Loose k p
  smaller : ∀ p < port, ¬g.Loose i p

/-- No task of the name comes after the position that is found. -/
private theorem le_of_lastIndexFrom? {name : String} {i k l : Nat} {ts : List (Task β)}
    {u : Task β} (h : lastIndexFrom? name i ts = some k) (hu : ts[l]? = some u)
    (hname : u.name = name) : i + l ≤ k := by
  induction ts generalizing i l with
  | nil => cases h
  | cons t ts ih =>
    cases l with
    | zero =>
      have hle := (of_lastIndexFrom? h).1
      omega
    | succ l =>
      -- A task of the name in the rest is found there, before the first one is looked at.
      have hsome : (lastIndexFrom? name (i + 1) ts).isSome = true :=
        hname ▸ isSome_lastIndexFrom? (List.mem_of_getElem? hu)
      obtain ⟨k', hk'⟩ := Option.isSome_iff_exists.1 hsome
      rw [lastIndexFrom?, hk', Option.some_or] at h
      obtain rfl := Option.some.inj h
      have hle := ih hk' hu
      omega

theorem resolve?_eq_some_iff {ref : PortRef} {j : Nat} {path : Path} :
    g.resolve? ref = some (j, path) ↔ g.Means ref j path := by
  constructor
  · intro h
    refine ⟨of_resolve? h, fun k u hu hname => ?_⟩
    simp only [resolve?, Option.bind_eq_bind, Option.bind_eq_some_iff] at h
    obtain ⟨l, hl, v, hv, p, hp, heq⟩ := h
    obtain ⟨rfl, rfl⟩ := Prod.mk.inj (Option.some.inj heq)
    have hle := le_of_lastIndexFrom? hl hu hname
    omega
  · rintro ⟨⟨u, hu, hname, hpath⟩, hlast⟩
    obtain ⟨k, hk⟩ := Option.isSome_iff_exists.1
      (isSome_lastIndexFrom? (i := 0) (List.mem_of_getElem? hu))
    -- The position that is found is not before that of the last task, nor after it.
    have hjk := le_of_lastIndexFrom? hk hu rfl
    obtain ⟨-, v, hv, hvname⟩ := of_lastIndexFrom? hk
    have hkj := hlast k v hv (hvname.trans hname)
    obtain rfl : k = j := by omega
    have hindex : g.lastIndex? ref.task = some k := hname ▸ hk
    simp [resolve?, hindex, hu, hpath]

theorem isSome_resolve?_iff {ref : PortRef} :
    (g.resolve? ref).isSome = true ↔ ∃ j path, g.Means ref j path := by
  simp only [Option.isSome_iff_exists, Prod.exists, resolve?_eq_some_iff]

theorem readsFrom_iff_feeds {i j : Nat} : g.ReadsFrom i j ↔ g.Feeds j i := by
  simp only [ReadsFrom, Feeds, resolve?_eq_some_iff]

theorem heldUp_iff_stalls {i : Nat} : g.HeldUp i ↔ Stalls g.Feeds i := by
  have hswap : g.Feeds = Function.swap g.ReadsFrom := by
    funext j i
    exact propext readsFrom_iff_feeds.symm
  simp only [HeldUp, Stalls, hswap, transGen_swap, reflTransGen_swap]

theorem exists_heldUp_iff : (∃ i, g.HeldUp i) ↔ ∃ c, TransGen g.ReadsFrom c c :=
  ⟨fun ⟨_, c, hcycle, _⟩ => ⟨c, hcycle⟩, fun ⟨c, hcycle⟩ => ⟨c, c, hcycle, .refl⟩⟩

theorem HeldUp.lt {i : Nat} (h : g.HeldUp i) : i < g.tasks.length := by
  obtain ⟨j, ⟨t, _, _, _, ht, -⟩, -⟩ := (heldUp_iff_stalls.1 h).exists_before
  exact (List.getElem?_eq_some_iff.1 ht).1

/-! ## Loose ports -/

theorem not_loose_iff {i : Nat} {t : Task β} (ht : g.tasks[i]? = some t) {port : String} :
    ¬g.Loose i port ↔
      ∀ ref, t.inputPorts.get? port = some (some ref) → (g.resolve? ref).isSome = true := by
  constructor
  · intro h ref href
    rw [isSome_resolve?_iff]
    by_contra hnone
    exact h ⟨t, ref, ht, href, fun j path hmeans => hnone ⟨j, path, hmeans⟩⟩
  · rintro h ⟨t', ref, ht', href, hnone⟩
    obtain rfl := Option.some.inj (ht.symm.trans ht')
    obtain ⟨j, path, hmeans⟩ := isSome_resolve?_iff.1 (h ref href)
    exact hnone j path hmeans

/-- A port is bound unless it is loose. -/
private theorem bindPort_eq_error_iff {i : Nat} {t : Task β} (ht : g.tasks[i]? = some t)
    {port : String} {ref? : Option PortRef} (hport : t.inputPorts.get? port = some ref?)
    {e : ExecutionError} :
    g.bindPort t.name port ref? = .error e ↔ g.Loose i port ∧ e = .unresolvedPort t.name port := by
  have hloose : ¬g.Loose i port ↔ _ := not_loose_iff ht
  rw [hport] at hloose
  -- A port that refers to nothing is bound to nothing, and is not loose.
  cases ref? with
  | none =>
    have hnot : ¬g.Loose i port := hloose.2 (by simp)
    simp [bindPort, hnot]
  | some ref =>
    rw [bindPort]
    split
    · next source hsource =>
      have hnot : ¬g.Loose i port := by
        refine hloose.2 (fun ref' href' => ?_)
        rw [← Option.some.inj (Option.some.inj href'), hsource, Option.isSome_some]
      simp [hnot]
    · next hnone =>
      have hyes : g.Loose i port := by
        by_contra hnot
        have hsome := hloose.1 hnot ref rfl
        rw [hnone] at hsome
        cases hsome
      simp [hyes, eq_comm]

/-- Of the input ports of a task, those before another one are those with smaller names. -/
private theorem ports_before {t : Task β} {k : Nat} {port : String} {ref? : Option PortRef}
    (hk : t.inputPorts.toList[k]? = some (port, ref?)) {P : String → Option PortRef → Prop} :
    (∀ l < k, ∀ e, t.inputPorts.toList[l]? = some e → P e.1 e.2) ↔
      ∀ p < port, ∀ r, t.inputPorts.get? p = some r → P p r := by
  -- The ports are listed in the order of their names.
  have hsorted := List.pairwise_iff_getElem.1 t.inputPorts.increasing
  obtain ⟨hklt, hkeq⟩ := List.getElem?_eq_some_iff.1 hk
  constructor
  · intro h p hp r hr
    obtain ⟨l, hl⟩ := List.mem_iff_getElem?.1 (SortedMap.mem_toList.2 hr)
    obtain ⟨hllt, hleq⟩ := List.getElem?_eq_some_iff.1 hl
    refine h l ?_ _ hl
    by_contra hkl
    rcases Nat.lt_or_eq_of_le (Nat.le_of_not_lt hkl) with hkl | rfl
    · have hlt := hsorted k l hklt hllt hkl
      rw [hkeq, hleq] at hlt
      exact String.lt_irrefl _ (String.lt_trans hlt hp)
    · rw [hk] at hl
      cases hl
      exact String.lt_irrefl _ hp
  · intro h l hl e he
    obtain ⟨hllt, rfl⟩ := List.getElem?_eq_some_iff.1 he
    have hlt := hsorted l k hllt hklt hl
    rw [hkeq] at hlt
    exact h _ hlt _ (SortedMap.mem_toList.1 (List.getElem_mem hllt))

/-- The ports of a task are bound up to its first loose one. -/
private theorem bindTask_eq_error_iff {i : Nat} {t : Task β} (ht : g.tasks[i]? = some t)
    {e : ExecutionError} :
    g.bindTask t = .error e ↔
      ∃ port, g.Loose i port ∧ (∀ p < port, ¬g.Loose i p) ∧ e = .unresolvedPort t.name port := by
  have hbinds : ∀ port ref?, t.inputPorts.get? port = some ref? →
      ((∃ b, g.bindPort t.name port ref? = .ok b) ↔ ¬g.Loose i port) := by
    intro port ref? hport
    simp only [exists_eq_ok_iff, Ne, bindPort_eq_error_iff ht hport, not_and]
    exact ⟨fun h hloose => h _ hloose rfl, fun h e hloose => absurd hloose h⟩
  have hlisted : ∀ p, g.Loose i p → ∃ ref, t.inputPorts.get? p = some (some ref) := by
    rintro p ⟨t', ref, ht', href, -⟩
    obtain rfl := Option.some.inj (ht.symm.trans ht')
    exact ⟨ref, href⟩
  -- The first port that cannot be bound is the smallest loose one.
  rw [bindTask, List.mapM_eq_error_iff]
  constructor
  · rintro ⟨k, ⟨port, ref?⟩, hk, herror, hbefore⟩
    have hport := SortedMap.mem_toList.1 (List.mem_of_getElem? hk)
    obtain ⟨hloose, rfl⟩ := (bindPort_eq_error_iff ht hport).1 herror
    have hbound := (ports_before hk (P := fun p r => ∃ b, g.bindPort t.name p r = .ok b)).1 hbefore
    refine ⟨port, hloose, fun p hp hp' => ?_, rfl⟩
    obtain ⟨ref, href⟩ := hlisted p hp'
    exact (hbinds p _ href).1 (hbound p hp _ href) hp'
  · rintro ⟨port, hloose, hsmaller, rfl⟩
    obtain ⟨ref, href⟩ := hlisted port hloose
    obtain ⟨k, hk⟩ := List.mem_iff_getElem?.1 (SortedMap.mem_toList.2 href)
    refine ⟨k, (port, some ref), hk, (bindPort_eq_error_iff ht href).2 ⟨hloose, rfl⟩, ?_⟩
    exact (ports_before hk).2 (fun p hp r hr => (hbinds p r hr).2 (hsmaller p hp))

/-- Binding all ports fails at the first loose one of the first task that has one. -/
theorem bindAll_eq_error_iff {e : ExecutionError} :
    g.bindAll = .error e ↔
      ∃ i t port, g.tasks[i]? = some t ∧ g.FirstLoose i port ∧
        e = .unresolvedPort t.name port := by
  have hbinds : ∀ i t, g.tasks[i]? = some t →
      ((∃ ports, g.bindTask t = .ok ports) ↔ ∀ p, ¬g.Loose i p) := by
    intro i t ht
    constructor
    · rintro ⟨ports, hports⟩ p
      rw [not_loose_iff ht]
      intro ref href
      exact (of_bindTask hports).2 _ (SortedMap.mem_toList.2 href) ref rfl
    · intro h
      rw [exists_eq_ok_iff]
      intro e he
      obtain ⟨port, hloose, -⟩ := (bindTask_eq_error_iff ht).1 he
      exact h port hloose
  -- The tasks are bound in order, so the first error is that of the first task with a loose port.
  rw [bindAll, List.mapM_eq_error_iff]
  constructor
  · rintro ⟨i, t, ht, herror, hbefore⟩
    obtain ⟨port, hloose, hsmaller, rfl⟩ := (bindTask_eq_error_iff ht).1 herror
    refine ⟨i, t, port, ht, ⟨hloose, fun k hk p hp => ?_, hsmaller⟩, rfl⟩
    obtain ⟨t', ref, ht', hloose'⟩ := hp
    exact (hbinds k t' ht').1 (hbefore k hk t' ht') p ⟨t', ref, ht', hloose'⟩
  · rintro ⟨i, t, port, ht, ⟨hloose, hearlier, hsmaller⟩, rfl⟩
    refine ⟨i, t, ht, (bindTask_eq_error_iff ht).2 ⟨port, hloose, hsmaller, rfl⟩, ?_⟩
    exact fun k hk t' ht' => (hbinds k t' ht').2 (hearlier k hk)

/-- All ports are bound as soon as none is loose. -/
theorem exists_bindAll_iff : (∃ bound, g.bindAll = .ok bound) ↔ ∀ i port, ¬g.Loose i port := by
  constructor
  · rintro ⟨bound, hbound⟩ i port ⟨t, ref, ht, href, hnone⟩
    obtain ⟨ports, -, hports⟩ := (getElem?_of_bindAll hbound).2 i t ht
    have hsome := (of_bindTask hports).2 _ (SortedMap.mem_toList.2 href) ref rfl
    obtain ⟨j, path, hmeans⟩ := isSome_resolve?_iff.1 hsome
    exact hnone j path hmeans
  · intro h
    rw [exists_eq_ok_iff]
    intro e he
    obtain ⟨i, t, port, -, hfirst, -⟩ := bindAll_eq_error_iff.1 he
    exact h i port hfirst.loose

end TaskGraph

/-! ## Counting with a check -/

namespace Plan

/-- `release`, which gives up where a count would go below zero. -/
def release? : List Nat → List Nat → Option (List Nat × List Nat)
  | counts, [] => some (counts, [])
  | counts, d :: ds =>
    match counts[d]? with
    | some (left + 1) =>
      (release? (counts.set d left) ds).map
        (fun out => (out.1, if left = 0 then d :: out.2 else out.2))
    | _ => none

/-- `traverse`, which gives up where a count would go below zero, or where it has taken as many
tasks as it may and others are still queued. -/
def traverse? (dependents : List (List Nat)) :
    Nat → List Nat → List Nat → Option (List Nat × List Nat)
  | _, counts, [] => some ([], counts)
  | 0, _, _ :: _ => none
  | fuel + 1, counts, i :: queue =>
    (release? counts (dependents[i]?.getD [])).bind (fun out =>
      (traverse? dependents fuel out.1 (queue ++ out.2)).map (fun rest => (i :: rest.1, rest.2)))

theorem release?_eq_some {ds : List Nat} (hds : ds.Nodup) {counts : List Nat}
    (h : ∀ d ∈ ds, ∃ c, counts[d]? = some (c + 1)) :
    release? counts ds = some (release counts ds) := by
  induction ds generalizing counts with
  | nil => rfl
  | cons d ds ih =>
    obtain ⟨hd, hds⟩ := List.nodup_cons.1 hds
    obtain ⟨c, hc⟩ := h d List.mem_cons_self
    -- As `d` comes once, the others still have a count to take from.
    have hrest : ∀ e ∈ ds, ∃ c', (counts.set d c)[e]? = some (c' + 1) := by
      intro e he
      have hde : d ≠ e := fun heq => hd (heq ▸ he)
      rw [List.getElem?_set_ne hde]
      exact h e (List.mem_cons_of_mem d he)
    simp only [release?, release, hc, Option.getD_some, Nat.add_sub_cancel, ih hds hrest,
      Option.map_some, Nat.add_eq_right]

/-- A task that waits for an unfinished one counts it. -/
theorem waiting_pos {producers : List (List Nat)} {finished : List Nat} {i j : Nat}
    (hj : j ∈ producersAt producers i) (hfresh : j ∉ finished) :
    0 < waiting producers finished i := by
  apply Nat.pos_of_ne_zero
  intro hzero
  exact hfresh (waiting_eq_zero.1 hzero j hj)

/-- From a frontier, with fuel for the tasks that are not finished, a traversal never counts below
zero and ends with an empty queue. -/
theorem traverse?_eq_some {producers : List (List Nat)} {dependents : List (List Nat)}
    (hp : ∀ i, (producersAt producers i).Nodup)
    (hdep : ∀ j < producers.length, dependents[j]?.getD [] = dependentsOf producers j)
    (fuel : Nat) {finished queue : List Nat} (h : Frontier producers finished finished queue)
    (hfuel : producers.length ≤ fuel + finished.length) :
    traverse? dependents fuel (waitingAll producers finished) queue =
      some (traverse dependents fuel (waitingAll producers finished) queue) := by
  induction fuel generalizing finished queue with
  | zero =>
    obtain rfl := h.queue_eq_nil (by omega)
    rfl
  | succ fuel ih =>
    cases queue with
    | nil => rfl
    | cons i queue =>
      have hi := (h.mem_iff i).1 (by simp)
      have hfresh : i ∉ finished := by
        intro hmem
        exact List.disjoint_of_nodup_append h.nodup hmem (by simp)
      -- Those that wait for a task that is not finished count it.
      have hcounted : ∀ d ∈ dependentsOf producers i,
          ∃ c, (waitingAll producers finished)[d]? = some (c + 1) := by
        intro d hd
        obtain ⟨hlt, hprod⟩ := mem_dependentsOf.1 hd
        have hpos := waiting_pos hprod hfresh
        refine ⟨waiting producers finished d - 1, ?_⟩
        rw [getElem?_waitingAll hlt, Nat.sub_add_cancel hpos]
      simp only [traverse?, traverse, hdep i hi.1]
      rw [release?_eq_some (nodup_dependentsOf producers i) hcounted, Option.bind_some,
        release_waiting hp hfresh,
        ih (h.take.finish hp hfresh) (by rw [List.length_append, List.length_singleton]; omega)]
      rfl

end Plan

/-! ## The plan -/

/-- The plan says how many producers every task has, which tasks read from it, and what file is at
each of its input ports. -/
structure Plan.Exact {β : Type} (g : TaskGraph β) (plan : Plan) : Prop where
  remaining_length : plan.remaining.length = g.tasks.length
  remaining : ∀ i < g.tasks.length, ∃ c, plan.remaining[i]? = some c ∧
    {j | g.ReadsFrom i j}.encard = c
  dependents_length : plan.dependents.length = g.tasks.length
  dependents : ∀ p < g.tasks.length, ∃ ds, plan.dependents[p]? = some ds ∧
    ds.Pairwise (· < ·) ∧ ∀ i, i ∈ ds ↔ g.ReadsFrom i p
  inputs_length : plan.inputs.length = g.tasks.length
  inputs : ∀ (i : Nat) (t : Task β), g.tasks[i]? = some t →
    ∃ m : NameMap (Option Path), plan.inputs[i]? = some m ∧ ∀ port,
    (m.get? port = none ↔ t.inputPorts.get? port = none) ∧
    (m.get? port = some none ↔ t.inputPorts.get? port = some none) ∧
    ∀ path, m.get? port = some (some path) ↔
      ∃ ref j, t.inputPorts.get? port = some (some ref) ∧ g.Means ref j path

namespace TaskGraph

variable {β : Type} {g : TaskGraph β}

/-- The producers of a task are as many as the plan counts. -/
private theorem encard_readsFrom {bound : List (List BoundPort)} (hbound : g.bindAll = .ok bound)
    (i : Nat) : {j | g.ReadsFrom i j}.encard = Plan.waiting g.producers [] i := by
  have hset : {j | g.ReadsFrom i j} = ((Plan.producersAt g.producers i).toFinset : Set Nat) := by
    ext j
    rw [Set.mem_ofPred_eq, List.coe_toFinset, Set.mem_ofPred_eq, mem_producersAt hbound,
      readsFrom_iff_feeds]
  rw [hset, Set.encard_coe_eq_coe_finsetCard,
    List.toFinset_card_of_nodup (g.nodup_producersAt i)]
  simp [Plan.waiting]

/-- The file at each port is that of the output port that its reference means. -/
private theorem inputs_exact {t : Task β} {plan : Plan} {i : Nat} (haccounts : plan.Accounts g)
    (ht : g.tasks[i]? = some t) {m : NameMap (Option Path)} (hm : plan.inputs[i]? = some m)
    (port : String) :
    (m.get? port = none ↔ t.inputPorts.get? port = none) ∧
    (m.get? port = some none ↔ t.inputPorts.get? port = some none) ∧
    ∀ path, m.get? port = some (some path) ↔
      ∃ ref j, t.inputPorts.get? port = some (some ref) ∧ g.Means ref j path := by
  have hget := haccounts.inputs i t ht port
  rw [hm, Option.getD_some] at hget
  rw [hget]
  cases hport : t.inputPorts.get? port with
  | none => simp
  | some ref? =>
    cases ref? with
    | none => simp
    | some ref =>
      obtain ⟨⟨j, path⟩, href⟩ := Option.isSome_iff_exists.1 (haccounts.resolved i t port ref ht hport)
      have hmeans : ∀ k p, g.Means ref k p ↔ (j, path) = (k, p) := by
        intro k p
        rw [← resolve?_eq_some_iff, href, Option.some.injEq]
      simp [href, hmeans]

theorem exact_of_plan {plan : Plan} (h : g.plan = .ok plan) : plan.Exact g := by
  have haccounts := accounts_of_plan h
  cases hbound : g.bindAll with
  | error e =>
    rw [TaskGraph.plan, hbound] at h
    cases h
  | ok bound =>
    have hn := length_producers hbound
    have hlength := (getElem?_of_bindAll hbound).1
    rw [plan_of_bindAll hbound] at h
    split at h
    · cases h
    · cases h
      -- The counts are those of the plain lists, before anything has finished.
      exact {
        remaining_length := by rw [Plan.length_waitingAll, hn]
        remaining := by
          intro i hi
          refine ⟨Plan.waiting g.producers [] i, ?_, encard_readsFrom hbound i⟩
          exact Plan.getElem?_waitingAll (hn ▸ hi)
        dependents_length := by simp [dependents]
        dependents := by
          intro p hp
          refine ⟨Plan.dependentsOf g.producers p, by simp [dependents, hp],
            List.pairwise_lt_range.filter _, fun i => ?_⟩
          rw [Plan.mem_dependentsOf, mem_producersAt hbound, ← readsFrom_iff_feeds, hn]
          refine and_iff_right_of_imp ?_
          rintro ⟨t, _, _, _, ht, _⟩
          exact (List.getElem?_eq_some_iff.1 ht).1
        inputs_length := by rw [List.length_map, hlength]
        inputs := by
          intro i t ht
          obtain ⟨ports, hports, -⟩ := (getElem?_of_bindAll hbound).2 i t ht
          have hm : (bound.map Plan.inputsOf)[i]? = some (Plan.inputsOf ports) := by
            rw [List.getElem?_map, hports, Option.map_some]
          exact ⟨_, hm, inputs_exact haccounts ht hm⟩ }

/-- Unless a port is loose, the plan is that of the bound ports. -/
private theorem plan_of_loose {i : Nat} {port : String} (h : g.Loose i port) :
    ∃ task port, g.plan = .error (.unresolvedPort task port) := by
  cases hbound : g.bindAll with
  | ok bound => exact absurd h (exists_bindAll_iff.1 ⟨bound, hbound⟩ i port)
  | error e =>
    obtain ⟨-, t, port, -, -, rfl⟩ := bindAll_eq_error_iff.1 hbound
    exact ⟨t.name, port, by rw [TaskGraph.plan, hbound, error_bind]⟩

/-- The plan is missing for a loose port, exactly if this is the first one. -/
private theorem plan_eq_unresolvedPort_iff {task port : String} :
    g.plan = .error (.unresolvedPort task port) ↔
      ∃ i t, g.tasks[i]? = some t ∧ t.name = task ∧ g.FirstLoose i port := by
  -- What comes after the binding fails with cycles only.
  have hbind : g.plan = .error (.unresolvedPort task port) ↔
      g.bindAll = .error (.unresolvedPort task port) := by
    cases hbound : g.bindAll with
    | error e => rw [TaskGraph.plan, hbound, error_bind, Except.error.injEq, Except.error.injEq]
    | ok bound =>
      rw [plan_of_bindAll hbound]
      split <;> simp
  rw [hbind, bindAll_eq_error_iff]
  constructor
  · rintro ⟨i, t, port', ht, hfirst, heq⟩
    obtain ⟨rfl, rfl⟩ := ExecutionError.unresolvedPort.inj heq
    exact ⟨i, t, ht, rfl, hfirst⟩
  · rintro ⟨i, t, ht, rfl, hfirst⟩
    exact ⟨i, t, port, ht, hfirst, rfl⟩

/-- Where no port is loose, the plan is missing exactly if the wiring has a cycle, and the tasks
that are held up are named. -/
private theorem plan_of_not_loose (h : ∀ i port, ¬g.Loose i port) :
    (∃ plan, g.plan = .ok plan) ∧ (∀ c, ¬TransGen g.ReadsFrom c c) ∨
      (∃ c, TransGen g.ReadsFrom c c) ∧ ∃ held : List Nat, held.Pairwise (· < ·) ∧
        (∀ i, i ∈ held ↔ g.HeldUp i) ∧
        g.plan = .error (.cycle (held.filterMap (fun i => g.tasks[i]?.map (·.name)))) := by
  obtain ⟨bound, hbound⟩ := exists_bindAll_iff.2 h
  rcases plan_or_cycle hbound with ⟨hplan, hfree⟩ | ⟨stuck, hne, hsorted, hmem, hplan⟩
  · refine .inl ⟨hplan, fun c hcycle => ?_⟩
    exact hfree c (heldUp_iff_stalls.1 ⟨c, hcycle, .refl⟩)
  · have hheld : ∀ i, i ∈ stuck ↔ g.HeldUp i := by
      intro i
      rw [hmem, ← heldUp_iff_stalls]
      exact and_iff_right_of_imp HeldUp.lt
    obtain ⟨i, hi⟩ := List.exists_mem_of_ne_nil stuck hne
    exact .inr ⟨exists_heldUp_iff.1 ⟨i, (hheld i).1 hi⟩, stuck, hsorted, hheld, hplan⟩

/-- The plan is missing for a cycle, exactly if no port is loose and the tasks that are named are
those that are held up, in order. -/
private theorem plan_eq_cycle_iff {names : List String} :
    g.plan = .error (.cycle names) ↔
      (∀ i port, ¬g.Loose i port) ∧ (∃ c, TransGen g.ReadsFrom c c) ∧
        ∃ held : List Nat, held.Pairwise (· < ·) ∧ (∀ i, i ∈ held ↔ g.HeldUp i) ∧
          names = held.filterMap (fun i => g.tasks[i]?.map (·.name)) := by
  by_cases hloose : ∃ i port, g.Loose i port
  · obtain ⟨i, port, hi⟩ := hloose
    obtain ⟨task, port', hplan⟩ := plan_of_loose hi
    rw [hplan]
    simp only [Except.error.injEq, reduceCtorEq, false_iff]
    exact fun h => h.1 i port hi
  · have hnone : ∀ i port, ¬g.Loose i port := fun i port h => hloose ⟨i, port, h⟩
    rcases plan_of_not_loose hnone with ⟨⟨plan, hplan⟩, hfree⟩ | ⟨hcycle, held, hsorted, hheld, hplan⟩
    · rw [hplan]
      simp only [reduceCtorEq, false_iff]
      rintro ⟨-, ⟨c, hc⟩, -⟩
      exact hfree c hc
    · rw [hplan, Except.error.injEq, ExecutionError.cycle.injEq]
      constructor
      · rintro rfl
        exact ⟨hnone, hcycle, held, hsorted, hheld, rfl⟩
      · rintro ⟨-, -, held', hsorted', hheld', rfl⟩
        -- There is one ascending list of the tasks that are held up.
        rw [hsorted.eq_of_mem_iff hsorted' (fun i => (hheld i).trans (hheld' i).symm)]

/-- There is a plan exactly if no port is loose and the wiring has no cycles. -/
private theorem exists_plan_iff :
    (∃ plan, g.plan = .ok plan) ↔
      (∀ i port, ¬g.Loose i port) ∧ ∀ c, ¬TransGen g.ReadsFrom c c := by
  constructor
  · rintro ⟨plan, hplan⟩
    have hnone : ∀ i port, ¬g.Loose i port := by
      intro i port hi
      obtain ⟨task, port', herror⟩ := plan_of_loose hi
      rw [hplan] at herror
      cases herror
    rcases plan_of_not_loose hnone with ⟨-, hfree⟩ | ⟨-, held, -, -, herror⟩
    · exact ⟨hnone, hfree⟩
    · rw [hplan] at herror
      cases herror
  · rintro ⟨hnone, hfree⟩
    rcases plan_of_not_loose hnone with ⟨hplan, -⟩ | ⟨⟨c, hcycle⟩, -⟩
    · exact hplan
    · exact absurd hcycle (hfree c)

/-- The traversal that `plan` makes never counts below zero, and takes no task when it may not. -/
private theorem traverse?_of_bindAll {bound : List (List BoundPort)} (hbound : g.bindAll = .ok bound) :
    Plan.traverse? g.dependents g.tasks.length (Plan.waitingAll g.producers [])
        (Plan.readyAt (Plan.waitingAll g.producers [])) = some g.traversal := by
  have hn := length_producers hbound
  apply Plan.traverse?_eq_some g.nodup_producersAt (fun j => getElem?_dependents hbound)
  · exact Plan.frontier_readyAt g.producers
  · omega

/-- What `plan` answers, for every task graph.

It reports a port exactly if some port refers to a task or an output port that does not exist, and
then the first such port of the first such task. It reports a cycle exactly if there is one and
no such port, and then names, in the order of the graph, the tasks that lie on a cycle or depend
on one. Otherwise it gives a plan, and the plan is exact. In its traversal no count goes
below zero. -/
theorem plan_exact (g : TaskGraph β) :
    ((∃ task port, g.plan = .error (.unresolvedPort task port)) ↔ ∃ i port, g.Loose i port) ∧
    (∀ task port, g.plan = .error (.unresolvedPort task port) ↔
      ∃ i t, g.tasks[i]? = some t ∧ t.name = task ∧ g.FirstLoose i port) ∧
    ((∃ names, g.plan = .error (.cycle names)) ↔
      (∀ i port, ¬g.Loose i port) ∧ ∃ c, TransGen g.ReadsFrom c c) ∧
    (∀ names, g.plan = .error (.cycle names) ↔
      (∀ i port, ¬g.Loose i port) ∧ (∃ c, TransGen g.ReadsFrom c c) ∧
        ∃ held : List Nat, held.Pairwise (· < ·) ∧ (∀ i, i ∈ held ↔ g.HeldUp i) ∧
          names = held.filterMap (fun i => g.tasks[i]?.map (·.name))) ∧
    ((∃ plan, g.plan = .ok plan) ↔
      (∀ i port, ¬g.Loose i port) ∧ ∀ c, ¬TransGen g.ReadsFrom c c) ∧
    (∀ plan, g.plan = .ok plan → plan.Exact g) ∧
    ∀ bound, g.bindAll = .ok bound →
      let producers := bound.map Plan.producersOf
      let dependents := (List.range bound.length).map (Plan.dependentsOf producers)
      let remaining := producers.map List.length
      Plan.traverse? dependents bound.length remaining (Plan.readyAt remaining) =
        some (Plan.traverse dependents bound.length remaining (Plan.readyAt remaining)) := by
  refine ⟨⟨?_, fun ⟨i, port, h⟩ => plan_of_loose h⟩, fun _ _ => plan_eq_unresolvedPort_iff,
    ⟨?_, ?_⟩, fun _ => plan_eq_cycle_iff, exists_plan_iff, fun _ => exact_of_plan, ?_⟩
  · rintro ⟨task, port, h⟩
    obtain ⟨i, t, -, -, hfirst⟩ := plan_eq_unresolvedPort_iff.1 h
    exact ⟨i, port, hfirst.loose⟩
  · rintro ⟨names, h⟩
    obtain ⟨hnone, hcycle, -⟩ := plan_eq_cycle_iff.1 h
    exact ⟨hnone, hcycle⟩
  · rintro ⟨hnone, c, hcycle⟩
    rcases plan_of_not_loose hnone with ⟨-, hfree⟩ | ⟨-, held, -, -, hplan⟩
    · exact absurd hcycle (hfree c)
    · exact ⟨_, hplan⟩
  · intro bound hbound producers dependents remaining
    have hchecked := traverse?_of_bindAll hbound
    have hproducers : g.producers = producers := by simp only [TaskGraph.producers, hbound, producers]
    have hremaining : Plan.waitingAll g.producers [] = remaining := by
      rw [Plan.waitingAll_nil, hproducers]
    have hlength := (getElem?_of_bindAll hbound).1
    rw [TaskGraph.traversal, TaskGraph.dependents, hremaining, hproducers, ← hlength] at hchecked
    exact hchecked

end TaskGraph

end BlockFlow
