import BlockFlow.Proofs.Files.Operations

/-!
# What the tasks of a run owe each other

A task has a stake in the files that it publishes, in those that it reads, in the failure of
its node, and, while it works, in its scratch directory. `Site.Rely` says that the others
have left all this alone, `Site.Legal` that the task has touched nothing else. A `Site.Trail`
is what is known of a task from its own steps, and `Site.Course` says that a step is legal and
leaves its trail. What is legal for one task is what another relies on, if their stakes do not
meet.

## Key results

- `Site.rely_of_course`: what one task does is what the others rely on
- `Site.fresh_of_course`: a task that has not begun finds its files as they were
-/

namespace BlockFlow

open FileTree

/-- What the collector has, or will have, of a node. -/
def World.cell (w : World) (node : NodeId) : Option String := w.failures.drain.get? node

theorem World.cell_emit (w : World) (node : NodeId) (output : String) :
    (w.emit ⟨node, output⟩).cell node = some output := by
  simp [World.cell, World.emit, Mailbox.emit, Mailbox.drain, SortedMap.get?_insert]

theorem World.cell_emit_of_ne {w : World} {node id : NodeId} {output : String} (h : node ≠ id) :
    (w.emit ⟨node, output⟩).cell id = w.cell id := by
  simp [World.cell, World.emit, Mailbox.emit, Mailbox.drain, SortedMap.get?_insert, h]

/-- What a task has a stake in. -/
structure Stake where
  /-- The files that it publishes. -/
  owns : String → Prop
  /-- The files that it reads. -/
  reads : String → Prop
  /-- The node whose failure it may report. -/
  node : Option NodeId

/-- The first stake owns nothing that matters to the second one. -/
structure Stake.Spares (χ χ' : Stake) : Prop where
  owned : ∀ f, χ.owns f → ¬χ'.owns f
  read : ∀ f, χ.owns f → ¬χ'.reads f
  node : ∀ id, χ.node = some id → χ'.node ≠ some id
  notScratch : ∀ f, χ.owns f → f ≠ Job.scratchName

namespace Site

variable (σ : Site)

/-- Others have changed nothing that a task with this stake relies on; it may hold a scratch
directory. -/
structure Rely (χ : Stake) (k : Option String) (w w' : World) : Prop where
  steady : σ.Steady w'.files
  owned : ∀ f, χ.owns f → Same w.files w'.files (σ.shelf f)
  read : ∀ f, χ.reads f → Same w.files w'.files (σ.shelf f)
  den : ∀ n, k = some n → ∀ l, σ.den n <+: l → Same w.files w'.files l
  cell : ∀ id, χ.node = some id → w'.cell id = w.cell id

/-- A task with this stake has changed nothing else, with these scratch directories before and
after. A published file whose place is fixed it has not changed either. -/
structure Bounded (χ : Stake) (k k' : Option String) (w w' : World) : Prop where
  steady : σ.Steady w'.files
  elsewhere : ∀ l, (∀ f, χ.owns f → ¬σ.fixed (σ.shelf f) → ¬σ.shelf f <+: l) →
    (∀ n, k = some n ∨ k' = some n → ¬σ.den n <+: l) → Same w.files w'.files l
  cell : ∀ id, χ.node ≠ some id → w'.cell id = w.cell id
  held : ∀ n, k' = some n → w'.files.get? (σ.den n) = some .directory

/-- A task with this stake has changed nothing else; it may have got a scratch directory. -/
structure Legal (χ : Stake) (k k' : Option String) (w w' : World) : Prop
    extends σ.Bounded χ k k' w w' where
  change : k' = k ∨ ∃ n, k = none ∧ k' = some n ∧ w.files.get? (σ.den n) = none

/-- What a task has done so far. -/
structure Trail where
  /-- The scratch directory that it holds. -/
  held : Option String := none
  /-- The worlds in which it has taken its steps. -/
  seen : List World := []
  /-- The scratch directory that it has given up, with the files as they were then. -/
  left : Option (String × FileTree) := none

/-- A step that is legal leaves its trail, and so does giving up the scratch directory. -/
structure Course (χ : Stake) (k k' : Trail) (w w' : World) : Prop
    extends σ.Bounded χ k.held k'.held w w' where
  seen : k'.seen = k.seen ++ [w]
  change : (k'.held = k.held ∧ k'.left = k.left) ∨
    (∃ n, k.held = none ∧ k'.held = some n ∧ w.files.get? (σ.den n) = none ∧ k'.left = k.left) ∨
      ∃ n, k.held = some n ∧ k'.held = none ∧ k.left = none ∧ k'.left = some (n, w'.files)

/-- A task with this stake finds everything as it was when the run began. -/
structure Fresh (χ : Stake) (w : World) : Prop where
  owned : ∀ f, χ.owns f → Same σ.base w.files (σ.shelf f)
  cell : ∀ id, χ.node = some id → w.cell id = none

variable {σ} {χ χ' : Stake} {k k' : Option String} {r r' : Trail} {w w' w'' : World}

theorem Rely.refl (hw : σ.Steady w.files) : σ.Rely χ k w w where
  steady := hw
  owned _ _ := Same.refl _ _
  read _ _ := Same.refl _ _
  den _ _ _ _ := Same.refl _ _
  cell _ _ := rfl

theorem Rely.trans (h : σ.Rely χ k w w') (h' : σ.Rely χ k w' w'') :
    σ.Rely χ k w w'' where
  steady := h'.steady
  owned f hf := (h.owned f hf).trans (h'.owned f hf)
  read f hf := (h.read f hf).trans (h'.read f hf)
  den n hn l hl := (h.den n hn l hl).trans (h'.den n hn l hl)
  cell id hid := (h'.cell id hid).trans (h.cell id hid)

/-- What leaves files and failures alone is legal. -/
theorem Legal.of_eq (hw : σ.Steady w.files) (hfiles : w'.files = w.files)
    (hcell : ∀ id, w'.cell id = w.cell id)
    (hheld : ∀ n, k = some n → w.files.get? (σ.den n) = some .directory) :
    σ.Legal χ k k w w' where
  steady := hfiles ▸ hw
  elsewhere _ _ _ := hfiles ▸ Same.refl _ _
  cell id _ := hcell id
  held n hn := hfiles ▸ hheld n hn
  change := .inl rfl

/-- The trail of a step that is legal. -/
theorem Legal.course (h : σ.Legal χ r.held k' w w') :
    σ.Course χ r ⟨k', r.seen ++ [w], r.left⟩ w w' where
  toBounded := h.toBounded
  seen := rfl
  change := by
    rcases h.change with hsame | ⟨n, hnone, hn, hfree⟩
    · exact .inl ⟨hsame, rfl⟩
    · exact .inr (.inl ⟨n, hnone, hn, hfree, rfl⟩)

theorem Rely.of_eq (hw : σ.Steady w.files) (hfiles : w'.files = w.files)
    (hcell : ∀ id, w'.cell id = w.cell id) : σ.Rely χ k w w' where
  steady := hfiles ▸ hw
  owned _ _ := hfiles ▸ Same.refl _ _
  read _ _ := hfiles ▸ Same.refl _ _
  den _ _ _ _ := hfiles ▸ Same.refl _ _
  cell id _ := hcell id

/-! ## Where the stakes are -/

theorem shelf_prefix_shelf {f f' : String} (h : σ.shelf f <+: σ.shelf f') : f = f' := by
  have heq := h.eq_of_length (by rw [length_shelf, length_shelf])
  simpa [shelf] using heq

theorem shelf_prefix_den {f n : String} {l : Location} (hf : σ.shelf f <+: l)
    (hn : σ.den n <+: l) : f = Job.scratchName := by
  have hle : (σ.shelf f).length ≤ (σ.den n).length := by
    rw [length_shelf, length_den]
    omega
  have hpre := List.prefix_of_prefix_length_le hf hn hle
  rw [shelf, den, inner, List.append_assoc, List.prefix_append_right_inj] at hpre
  simpa using hpre

theorem den_prefix_den {n n' : String} {l : Location} (h : σ.den n <+: l)
    (h' : σ.den n' <+: l) : n = n' := by
  have hlength : (σ.den n).length = (σ.den n').length := by rw [length_den, length_den]
  have hpre := List.prefix_of_prefix_length_le h h' (Nat.le_of_eq hlength)
  have heq := hpre.eq_of_length hlength
  simpa [den] using heq

theorem not_den_prefix_shelf {n f : String} : ¬σ.den n <+: σ.shelf f := by
  intro h
  have hle := h.length_le
  rw [length_shelf, length_den] at hle
  omega

/-! ## One does what the others rely on -/

/-- What one task does leaves alone what another one has a stake in. -/
theorem rely_of_course {held : Option String} (hspares : χ.Spares χ')
    (hheld : ∀ n, held = some n → w.files.get? (σ.den n) = some .directory)
    (hapart : ∀ n, held = some n → r.held ≠ some n) (h : σ.Course χ r r' w w') :
    σ.Rely χ' held w w' where
  steady := h.steady
  owned f hf := by
    refine h.elsewhere _ (fun f' hf' _ hpre => ?_) (fun n _ => not_den_prefix_shelf)
    exact hspares.owned f' hf' (shelf_prefix_shelf hpre ▸ hf)
  read f hf := by
    refine h.elsewhere _ (fun f' hf' _ hpre => ?_) (fun n _ => not_den_prefix_shelf)
    exact hspares.read f' hf' (shelf_prefix_shelf hpre ▸ hf)
  den n hn l hl := by
    refine h.elsewhere l (fun f hf _ hpre => ?_) (fun m hm hpre => ?_)
    · exact hspares.notScratch f hf (shelf_prefix_den hpre hl)
    · -- The other scratch directory is held already, or was free.
      obtain rfl := den_prefix_den hl hpre
      have hne := hapart n hn
      rcases hm with hm | hm
      · exact hne hm
      · rcases h.change with ⟨hsame, -⟩ | ⟨n', -, hn', hfree, -⟩ | ⟨n', -, hnone, -⟩
        · exact hne (hsame ▸ hm)
        · rw [hn'] at hm
          obtain rfl := Option.some.inj hm
          rw [hheld n' hn] at hfree
          cases hfree
        · rw [hnone] at hm
          cases hm
  cell id hid := h.cell id (fun hnode => hspares.node id hnode hid)

/-- A task that has not begun finds its files as they were, whatever another one does. -/
theorem fresh_of_course (howned : ∀ f, χ.owns f → ¬χ'.owns f)
    (hnode : ∀ id, χ.node = some id → χ'.node ≠ some id) (h : σ.Course χ r r' w w')
    (hfresh : σ.Fresh χ' w) : σ.Fresh χ' w' where
  owned f hf := by
    refine (hfresh.owned f hf).trans (h.elsewhere _ (fun f' hf' _ hpre => ?_)
      (fun n _ => not_den_prefix_shelf))
    exact howned f' hf' (shelf_prefix_shelf hpre ▸ hf)
  cell id hid := (h.cell id (fun hn => hnode id hn hid)).trans (hfresh.cell id hid)

/-- Others leave a task fresh. -/
theorem fresh_of_rely (h : σ.Rely χ k w w') (hfresh : σ.Fresh χ w) : σ.Fresh χ w' where
  owned f hf := (hfresh.owned f hf).trans (h.owned f hf)
  cell id hid := (h.cell id hid).trans (hfresh.cell id hid)

end Site

end BlockFlow
