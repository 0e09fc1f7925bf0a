import Mathlib.Data.List.Forall2
import Mathlib.Data.List.Pairwise
import BlockFlow.Engine.Execution
import BlockFlow.Proofs.Engine.Meets
import BlockFlow.Proofs.Files.Passages
import BlockFlow.Proofs.Lookup

/-!
# Where outputs are staged

An output is staged in the scratch directory of its task, under the last name of its published path,
or under the name of its port if that path has no last name. So two outputs of a task share a
staging path if their published paths end alike, and an output is not staged in the scratch
directory at all if its port is to name the file and is no name. `Execution.Separate` says that
neither is the case. Then every output that could be moved has come to stand at its published path
as it was staged, whatever the order of the moves.

## Key results

- `Execution.stagedApart_iff`: the outputs of a task have staging files of their own exactly if
  they are separate
- `Execution.meets_tellAll`: what publication does to separate outputs
- `Execution.outputs_staged_apart`: both
-/

namespace BlockFlow

open FileTree

/-- A path that lies directly in a directory. -/
def Path.IsChild (dir p : Path) : Prop :=
  p.isAbsolute = dir.isAbsolute ∧ ∃ n, n ≠ ".." ∧ p.names = dir.names ++ [n]

/-- The outputs of a task are staged directly in its scratch directory, and each for itself. -/
structure TaskRun.StagedApart (run : TaskRun) : Prop where
  inside : ∀ port path, run.outputs.get? port = some path → run.scratch.IsChild path
  apart : ∀ port port' path path', run.outputs.get? port = some path →
    run.outputs.get? port' = some path' → port ≠ port' → path.names ≠ path'.names

namespace Execution

/-- The name of an output in the scratch directory, if it is staged there. -/
def stagingName? (port : String) (published : Path) : Option String :=
  match published.fileName? with
  | some name => some name
  | none => if !Path.isAbsolute port && (Path.names port).length = 1 then Path.fileName? port
    else none

/-- Every output has a name in the scratch directory, and no two have the same. -/
structure Separate (outputs : NameMap Path) : Prop where
  named : ∀ port published, outputs.get? port = some published →
    ∃ n, stagingName? port published = some n
  distinct : ∀ port port' published published', outputs.get? port = some published →
    outputs.get? port' = some published' → port ≠ port' →
      stagingName? port published ≠ stagingName? port' published'

variable {β : Type} {port : String} {published scratch : Path} {n : String}

/-- Whether outputs are separate shows on their list. -/
theorem separate_iff {outputs : NameMap Path} : Separate outputs ↔
    (∀ e ∈ outputs.toList, (stagingName? e.1 e.2).isSome = true) ∧
      outputs.toList.Pairwise fun e e' => stagingName? e.1 e.2 ≠ stagingName? e'.1 e'.2 := by
  constructor
  · intro h
    refine ⟨fun e he => Option.isSome_iff_exists.2 (h.named _ _ (SortedMap.mem_toList.1 he)), ?_⟩
    -- A map has one entry for each port.
    have hkeys : outputs.toList.Pairwise fun e e' => e.1 ≠ e'.1 :=
      List.pairwise_map.1 outputs.nodup_keys
    refine hkeys.imp_of_mem fun he he' hne => ?_
    exact h.distinct _ _ _ _ (SortedMap.mem_toList.1 he) (SortedMap.mem_toList.1 he') hne
  · rintro ⟨hnamed, hdistinct⟩
    refine ⟨fun port published hport => ?_,
      fun port port' published published' hport hport' hne => ?_⟩
    · exact Option.isSome_iff_exists.1 (hnamed (port, published) (SortedMap.mem_toList.2 hport))
    · have hsymm : Std.Symm fun e e' : String × Path =>
          stagingName? e.1 e.2 ≠ stagingName? e'.1 e'.2 := ⟨fun _ _ h => h.symm⟩
      have hmem : (port, published) ∈ outputs.toList := SortedMap.mem_toList.2 hport
      have hmem' : (port', published') ∈ outputs.toList := SortedMap.mem_toList.2 hport'
      have hdiffer : (port, published) ≠ (port', published') := fun heq => hne (Prod.mk.inj heq).1
      have hapart := hdistinct.forall hmem hmem' hdiffer
      exact hapart

instance (outputs : NameMap Path) : Decidable (Separate outputs) :=
  decidable_of_iff _ separate_iff.symm

/-! ## Staging paths -/

theorem fileName?_eq_some_iff {p : Path} : p.fileName? = some n ↔
    n ≠ ".." ∧ ∃ ns, p.names = ns ++ [n] := by
  rw [← List.getLast?_eq_some_iff, Path.fileName?]
  constructor
  · intro h
    split at h
    · cases h
    · next hdots => exact ⟨fun hn => hdots (hn ▸ h), h⟩
  · rintro ⟨hn, hlast⟩
    rw [hlast]
    split
    · next hdots => exact absurd (Option.some.inj hdots) hn
    · rfl

theorem plain_of_fileName? {p : Path} (h : p.fileName? = some n) : Path.Plain n := by
  obtain ⟨hdots, ns, hns⟩ := fileName?_eq_some_iff.1 h
  have hmem : n ∈ p.names := by simp [hns]
  have hproper := (List.mem_filter.1 hmem).2
  simp only [ne_eq, Bool.and_eq_true, decide_eq_true_eq] at hproper
  exact ⟨hproper.1, hproper.2, hdots, Path.not_mem_of_mem_names hmem⟩

/-- An output with a name in the scratch directory is staged there under this name. -/
theorem names_stagingPath (h : stagingName? port published = some n) (scratch : Path) :
    (stagingPath scratch port published).names = scratch.names ++ [n] ∧ n ≠ ".." ∧
      (stagingPath scratch port published).isAbsolute = scratch.isAbsolute := by
  unfold stagingName? at h
  unfold stagingPath
  cases hname : published.fileName? with
  | some m =>
    rw [hname] at h
    obtain rfl := Option.some.inj h
    have hplain := plain_of_fileName? hname
    exact ⟨Path.names_join hplain scratch, hplain.ne_dots,
      Path.isAbsolute_join_relative hplain.isAbsolute scratch⟩
  -- A published path without a file name is staged under the name of its port.
  | none =>
    rw [hname] at h
    dsimp only at h
    split at h
    · next hport =>
      rw [Bool.and_eq_true, Bool.not_eq_true', decide_eq_true_eq] at hport
      obtain ⟨hdots, ns, hns⟩ := fileName?_eq_some_iff.1 h
      have hnil : ns = [] := by
        rw [hns] at hport
        simpa using hport.2
      rw [Option.getD_none, Path.names_join_relative hport.1,
        Path.isAbsolute_join_relative hport.1, hns, hnil]
      exact ⟨rfl, hdots, rfl⟩
    · cases h

/-- Only an output with a name is staged in every scratch directory. -/
theorem exists_stagingName? (h : ∀ scratch : Path,
    scratch.IsChild (stagingPath scratch port published)) :
    ∃ n, stagingName? port published = some n := by
  unfold stagingName?
  cases hname : published.fileName? with
  | some m => exact ⟨m, rfl⟩
  | none =>
    -- The port is looked at from a directory with its own path.
    obtain ⟨-, n, hdots, hnames⟩ := h port
    rw [stagingPath, hname, Option.getD_none] at hnames
    dsimp only
    cases habs : Path.isAbsolute port with
    | true =>
      rw [Path.join, habs, if_pos rfl] at hnames
      simp at hnames
    | false =>
      rw [Path.names_join_relative habs] at hnames
      have hport : Path.names port = [n] := by simpa using hnames
      refine ⟨n, ?_⟩
      rw [hport, if_pos (by simp), fileName?_eq_some_iff]
      exact ⟨hdots, [], hport⟩

/-- The outputs of a task have staging files of their own, whatever its scratch directory, exactly
if they are separate. -/
theorem stagedApart_iff (task : Task β) :
    (∀ inputs scratch context, (bindRun task inputs scratch context).StagedApart) ↔
      Separate task.outputPorts := by
  have hget : ∀ inputs scratch context port path,
      (bindRun task inputs scratch context).outputs.get? port = some path ↔
        ∃ published, task.outputPorts.get? port = some published ∧
          stagingPath scratch port published = path := by
    intro inputs scratch context port path
    rw [bindRun, SortedMap.get?_mapWithKey, Option.map_eq_some_iff]
  constructor
  · intro h
    have hnamed : ∀ port published, task.outputPorts.get? port = some published →
        ∃ n, stagingName? port published = some n := fun port published hport =>
      exists_stagingName? fun scratch => (h ∅ scratch default).inside port _
        ((hget ∅ scratch default port _).2 ⟨published, hport, rfl⟩)
    -- Two outputs of one name would have one staging path in every scratch directory.
    refine ⟨hnamed, fun port port' published published' hport hport' hne heq => ?_⟩
    obtain ⟨n, hn⟩ := hnamed port published hport
    refine (h ∅ "" default).apart port port' _ _ ((hget ∅ "" default port _).2 ⟨_, hport, rfl⟩)
      ((hget ∅ "" default port' _).2 ⟨_, hport', rfl⟩) hne ?_
    rw [(names_stagingPath hn "").1, (names_stagingPath (heq ▸ hn) "").1]
  · intro h inputs scratch context
    refine ⟨fun port path hpath => ?_, fun port port' path path' hpath hpath' hne heq => ?_⟩
    · obtain ⟨published, hport, rfl⟩ := (hget inputs scratch context port path).1 hpath
      obtain ⟨n, hn⟩ := h.named port published hport
      obtain ⟨hnames, hdots, habs⟩ := names_stagingPath hn scratch
      exact ⟨habs, n, hdots, hnames⟩
    · obtain ⟨published, hport, rfl⟩ := (hget inputs scratch context port path).1 hpath
      obtain ⟨published', hport', rfl⟩ := (hget inputs scratch context port' path').1 hpath'
      obtain ⟨n, hn⟩ := h.named port published hport
      obtain ⟨n', hn'⟩ := h.named port' published' hport'
      rw [(names_stagingPath hn scratch).1, (names_stagingPath hn' scratch).1] at heq
      refine h.distinct port port' published published' hport hport' hne ?_
      rw [hn, hn', List.singleton_inj.1 (List.append_cancel_left heq)]

/-! ## Publication, with what becomes of each output -/

/-- Publishes one output and tells how the move went, if there was something to move. -/
def tellOne (staged published : Path) : Fiber FileTree (Option (Except FileError Unit)) := do
  match ← Fiber.look (fun files => files.stat staged) with
  | .error .notFound => return none
  | _ => return some (← Fiber.attempt fun files => (files.rename staged published).map (·, ()))

/-- Publishes the outputs of a task, and tells about each of them. -/
def tellAll (scratch : Path) :
    List (String × Path) → Fiber FileTree (List (Option (Except FileError Unit)))
  | [] => pure []
  | (port, published) :: rest => do
    let told ← tellOne (stagingPath scratch port published) published
    return told :: (← tellAll scratch rest)

section Telling

variable {κ : Type} {rely : κ → FileTree → FileTree → Prop}
  {legal : κ → κ → FileTree → FileTree → Prop} {post : κ → Unit → FileTree → Prop} {k : κ}
  {t t' t'' : FileTree}

theorem meets_publishOne_iff {staged published : Path} :
    (publishOne staged published).Meets rely legal post k t ↔
      (tellOne staged published).Meets rely legal (fun k _ t => post k () t) k t := by
  unfold publishOne tellOne
  rw [Fiber.meets_bind_iff, Fiber.meets_bind_iff]
  -- Both look first, and then do the same with what they have found.
  refine forall₂_congr fun t₁ _ => exists_congr fun k' => and_congr_right fun _ => ?_
  show Fiber.Meets _ _ _ (match t₁.stat staged with | .error .notFound => _ | _ => _) _ _ ↔
    Fiber.Meets _ _ _ (match t₁.stat staged with | .error .notFound => _ | _ => _) _ _
  split
  · exact Iff.rfl
  · rw [Fiber.meets_bind_iff]
    refine forall₂_congr fun t₂ _ => exists_congr fun k'' => ?_
    cases hmove : t₂.rename staged published with
    | ok t₃ =>
      simp only [hmove, Except.map, Except.toOption, Option.getD_some]
      exact Iff.rfl
    | error e =>
      simp only [hmove, Except.map, Except.toOption, Option.getD_none]
      exact Iff.rfl

/-- To publish is to tell nobody. -/
theorem meets_publishAll_iff {outputs : List (String × Path)} :
    (publishAll scratch outputs).Meets rely legal post k t ↔
      (tellAll scratch outputs).Meets rely legal (fun k _ t => post k () t) k t := by
  induction outputs generalizing k t with
  | nil => exact Iff.rfl
  | cons e rest ih =>
    obtain ⟨port, published⟩ := e
    rw [publishAll, tellAll, Fiber.meets_bind_iff, Fiber.meets_bind_iff, meets_publishOne_iff]
    -- What has been told so far does not change what follows.
    have hrest : (fun k (_ : Option (Except FileError Unit)) t =>
        (publishAll scratch rest).Meets rely legal post k t) =
          fun k told t => (do return told :: (← tellAll scratch rest)).Meets rely legal
            (fun k _ t => post k () t) k t := by
      funext k told t
      rw [ih, Fiber.meets_bind_iff]
      rfl
    rw [hrest]

end Telling

/-! ## Publication among others -/

variable {t t' t'' : FileTree} {e : String × Path} {outputs : List (String × Path)}

/-- What stands at the staging path and at the published path of an output is what stood there. -/
def Kept (scratch : Path) (t t' : FileTree) (e : String × Path) : Prop :=
  t'.entryAt? (stagingPath scratch e.1 e.2) = t.entryAt? (stagingPath scratch e.1 e.2) ∧
    t'.entryAt? e.2 = t.entryAt? e.2

theorem Kept.trans (h : Kept scratch t t' e) (h' : Kept scratch t' t'' e) :
    Kept scratch t t'' e :=
  ⟨h'.1.trans h.1, h'.2.trans h.2⟩

/-- Others leave alone what the staging paths and the published paths of a task lead to. -/
structure Spared (scratch : Path) (outputs : List (String × Path)) (t t' : FileTree) : Prop where
  wellFormed : t'.WellFormed
  kept : ∀ e ∈ outputs, Kept scratch t t' e

theorem Spared.trans (h : Spared scratch outputs t t') (h' : Spared scratch outputs t' t'') :
    Spared scratch outputs t t'' :=
  ⟨h'.wellFormed, fun e he => (h.kept e he).trans (h'.kept e he)⟩

/-- Files are staged, or nothing, and no link stands at a published path. -/
structure Movable (scratch : Path) (outputs : List (String × Path)) (t : FileTree) : Prop where
  wellFormed : t.WellFormed
  files : ∀ e ∈ outputs, ∀ x, t.entryAt? (stagingPath scratch e.1 e.2) = some x →
    ∃ c, x = .file c
  unlinked : ∀ e ∈ outputs, ∀ target, t.entryAt? e.2 ≠ some (.link target)

theorem Movable.of_kept {rest : List (String × Path)} (h : Movable scratch outputs t)
    (hwf : t'.WellFormed) (hrest : ∀ e ∈ rest, e ∈ outputs)
    (hkept : ∀ e ∈ rest, Kept scratch t t' e) : Movable scratch rest t' where
  wellFormed := hwf
  files := fun e he x hx => h.files e (hrest e he) x ((hkept e he).1.symm.trans hx)
  unlinked := fun e he target htarget =>
    h.unlinked e (hrest e he) target ((hkept e he).2.symm.trans htarget)

/-- What has become of an output, by what is told about it: what was staged stands at the published
path, or the move has failed and nothing has changed, or there was nothing to move. -/
def Outcome (scratch : Path) (t t' : FileTree) (e : String × Path) :
    Option (Except FileError Unit) → Prop
  | some (.ok ()) => ∃ c, t.entryAt? (stagingPath scratch e.1 e.2) = some (.file c) ∧
      t'.entryAt? e.2 = some (.file c)
  | some (.error _) => Kept scratch t t' e
  | none => t.entryAt? (stagingPath scratch e.1 e.2) = none ∧ t'.entryAt? e.2 = t.entryAt? e.2

variable {told : Option (Except FileError Unit)}

theorem Outcome.of_kept (hkept : Kept scratch t t' e) (h : Outcome scratch t' t'' e told) :
    Outcome scratch t t'' e told := by
  rcases told with _ | _ | ⟨⟨⟩⟩
  · exact ⟨hkept.1.symm.trans h.1, h.2.trans hkept.2⟩
  · exact hkept.trans h
  · obtain ⟨c, hstaged, hpublished⟩ := h
    exact ⟨c, hkept.1.symm.trans hstaged, hpublished⟩

theorem Outcome.kept (h : Outcome scratch t t' e told) (hkept : Kept scratch t' t'' e) :
    Outcome scratch t t'' e told := by
  rcases told with _ | _ | ⟨⟨⟩⟩
  · exact ⟨h.1, hkept.2.trans h.2⟩
  · exact h.trans hkept
  · obtain ⟨c, hstaged, hpublished⟩ := h
    exact ⟨c, hstaged, hkept.2.trans hpublished⟩

/-- The last names of the two paths of an output: the published path has none other than its name
in the scratch directory. -/
theorem fileName?_stagingPath {port : String} {published : Path} {n : String}
    (h : stagingName? port published = some n) (scratch : Path) :
    (stagingPath scratch port published).fileName? = some n := by
  obtain ⟨hnames, hdots, -⟩ := names_stagingPath h scratch
  exact fileName?_eq_some_iff.2 ⟨hdots, _, hnames⟩

theorem fileName?_published {m : String} (h : stagingName? port published = some n)
    (hm : published.fileName? = some m) : m = n := by
  rw [stagingName?, hm] at h
  exact Option.some.inj h

/-- A move changes nothing for outputs that have other names. -/
theorem kept_of_rename {e' : String × Path} {c : ByteArray} (hwf : t.WellFormed)
    (hn : stagingName? e.1 e.2 = some n)
    (hstaged : t.entryAt? (stagingPath scratch e.1 e.2) = some (.file c))
    (hunlinked : ∀ target, t.entryAt? e.2 ≠ some (.link target))
    (hmove : t.rename (stagingPath scratch e.1 e.2) e.2 = .ok t') {n' : String}
    (hn' : stagingName? e'.1 e'.2 = some n') (hne : n' ≠ n) : Kept scratch t t' e' := by
  obtain ⟨-, -, m, m', hm, hm', hothers⟩ := entryAt?_of_rename_file hwf hstaged hunlinked hmove
  obtain rfl := Option.some.inj ((fileName?_stagingPath hn scratch).symm.trans hm)
  obtain rfl := fileName?_published hn hm'
  have hpublished : e'.2.fileName? ≠ some m' := fun h => hne (fileName?_published hn' h).symm
  have hstaging : (stagingPath scratch e'.1 e'.2).fileName? ≠ some m' := by
    rw [fileName?_stagingPath hn' scratch]
    exact fun h => hne (Option.some.inj h)
  exact ⟨hothers _ hstaging hstaging, hothers _ hpublished hpublished⟩

/-- One output is published among others, and outputs with other names stay as they are. -/
theorem meets_tellOne {rest : List (String × Path)} (hrest : ∀ e ∈ rest, e ∈ outputs)
    (h : Movable scratch rest t) (he : e ∈ rest)
    (hnamed : ∀ e ∈ outputs, ∃ n, stagingName? e.1 e.2 = some n) :
    (tellOne (stagingPath scratch e.1 e.2) e.2).Meets (fun (_ : Unit) => Spared scratch outputs)
      (fun _ _ _ _ => True)
      (fun _ told t' => t'.WellFormed ∧ Outcome scratch t t' e told ∧ ∀ e' ∈ outputs,
        stagingName? e'.1 e'.2 ≠ stagingName? e.1 e.2 → Kept scratch t t' e') () t := by
  obtain ⟨n, hn⟩ := hnamed e (hrest e he)
  refine Fiber.meets_bind (Q := fun _ found t₁ => Spared scratch outputs t t₁ ∧
    found = t₁.stat (stagingPath scratch e.1 e.2)) (Fiber.meets_look fun t₁ h₁ =>
      ⟨(), trivial, h₁, rfl⟩) ?_
  rintro ⟨⟩ found t₁ ⟨h₁, rfl⟩
  split
  · next hfound =>
    refine ⟨h₁.wellFormed, ⟨?_, (h₁.kept e (hrest e he)).2⟩, fun e' he' _ => h₁.kept e' he'⟩
    rw [← (h₁.kept e (hrest e he)).1, Option.eq_none_iff_forall_not_mem]
    intro x hx
    obtain ⟨c, rfl⟩ := h.files e he x ((h₁.kept e (hrest e he)).1.symm.trans hx)
    exact stat_ne_notFound h₁.wellFormed hx hfound
  · -- There is something to move; in between the others may have done more.
    refine fun t₂ h₂ => ⟨(), trivial, ?_⟩
    have hall : Spared scratch outputs t t₂ := h₁.trans h₂
    cases hmove : t₂.rename (stagingPath scratch e.1 e.2) e.2 with
    | error failure =>
      simp only [hmove, Except.map]
      exact ⟨hall.wellFormed, hall.kept e (hrest e he), fun e' he' _ => hall.kept e' he'⟩
    | ok t₃ =>
      simp only [hmove, Except.map]
      obtain ⟨s, d, x, hs, -, hx⟩ := of_rename hmove
      have hthere := (entryAt?_of_walkToName hs).trans hx
      obtain ⟨hstaging, hpublished⟩ := hall.kept e (hrest e he)
      obtain ⟨c, rfl⟩ := h.files e he x (hstaging.symm.trans hthere)
      have hunlinked : ∀ target, t₂.entryAt? e.2 ≠ some (.link target) := fun target htarget =>
        h.unlinked e he target (hpublished.symm.trans htarget)
      obtain ⟨hwf, hmoved, -⟩ := entryAt?_of_rename_file hall.wellFormed hthere hunlinked hmove
      refine ⟨hwf, ⟨c, hstaging.symm.trans hthere, hmoved⟩, fun e' he' hne => ?_⟩
      obtain ⟨n', hn'⟩ := hnamed e' he'
      refine (hall.kept e' he').trans
        (kept_of_rename hall.wellFormed hn hthere hunlinked hmove hn' fun heq => hne ?_)
      rw [hn, hn', heq]

/-- Outputs with different names are published among others: each of them is dealt with as if it
were the only one. -/
theorem meets_tellAll {rest : List (String × Path)} (hrest : ∀ e ∈ rest, e ∈ outputs)
    (h : Movable scratch rest t) (hnamed : ∀ e ∈ outputs, ∃ n, stagingName? e.1 e.2 = some n)
    (hdistinct : rest.Pairwise fun e e' => stagingName? e.1 e.2 ≠ stagingName? e'.1 e'.2) :
    (tellAll scratch rest).Meets (fun (_ : Unit) => Spared scratch outputs)
      (fun _ _ _ _ => True)
      (fun _ tolds t' => List.Forall₂ (Outcome scratch t t') rest tolds ∧ ∀ e' ∈ outputs,
        (∀ e ∈ rest, stagingName? e'.1 e'.2 ≠ stagingName? e.1 e.2) → Kept scratch t t' e')
      () t := by
  induction rest generalizing t with
  | nil => exact ⟨.nil, fun e' _ _ => ⟨rfl, rfl⟩⟩
  | cons e rest ih =>
    obtain ⟨hfirst, hdistinct⟩ := List.pairwise_cons.1 hdistinct
    have hmem : ∀ e' ∈ rest, e' ∈ outputs := fun e' he' => hrest e' (List.mem_cons_of_mem e he')
    refine Fiber.meets_bind (meets_tellOne hrest h List.mem_cons_self hnamed) ?_
    rintro ⟨⟩ told t₁ ⟨hwf, htold, hothers⟩
    -- The outputs that are left are still as they were, so the rest goes on as from the start.
    have hleft : ∀ e' ∈ rest, Kept scratch t t₁ e' := fun e' he' =>
      hothers e' (hmem e' he') (hfirst e' he').symm
    have hmovable : Movable scratch rest t₁ :=
      h.of_kept hwf (fun e' he' => List.mem_cons_of_mem e he') hleft
    refine Fiber.meets_bind (ih hmem hmovable hdistinct) ?_
    rintro ⟨⟩ tolds t' ⟨hall, hkept⟩
    refine ⟨.cons (htold.kept (hkept e (hrest e List.mem_cons_self) hfirst)) ?_,
      fun e' he' hne => ?_⟩
    · exact ((List.forall₂_and_left _ _).2 ⟨hleft, hall⟩).imp fun _ _ hboth =>
        hboth.2.of_kept hboth.1
    · have hne' := List.forall_mem_cons.1 hne
      exact (hothers e' he' hne'.1).trans (hkept e' he' hne'.2)

/-- The outputs of a task are staged directly in its scratch directory, each for itself, exactly if
they are separate. When such a task publishes files, and others leave its paths alone, then what
was staged for an output stands at its published path in the end if it could be moved, and all is
as before if it could not. To tell how the moves went changes nothing about publication. -/
theorem outputs_staged_apart (task : Task β) :
    ((∀ inputs scratch context, (bindRun task inputs scratch context).StagedApart) ↔
      Separate task.outputPorts) ∧
    (Separate task.outputPorts → ∀ scratch t, Movable scratch task.outputPorts.toList t →
      (tellAll scratch task.outputPorts.toList).Meets
        (fun (_ : Unit) => Spared scratch task.outputPorts.toList) (fun _ _ _ _ => True)
        (fun _ tolds t' => List.Forall₂ (Outcome scratch t t') task.outputPorts.toList tolds)
        () t) ∧
    ∀ scratch t (rely : Unit → FileTree → FileTree → Prop) legal post,
      (publishAll scratch task.outputPorts.toList).Meets rely legal post () t ↔
        (tellAll scratch task.outputPorts.toList).Meets rely legal (fun k _ t => post k () t)
          () t := by
  refine ⟨stagedApart_iff task, fun h scratch t hmovable => ?_, fun _ _ _ _ _ =>
    meets_publishAll_iff⟩
  obtain ⟨hnamed, hdistinct⟩ := separate_iff.1 h
  have hall := meets_tellAll (fun _ he => he) hmovable
    (fun e he => Option.isSome_iff_exists.1 (hnamed e he)) hdistinct
  exact hall.mono fun _ _ _ hpost => hpost.1

/-! ## Two outputs of a task -/

namespace Pair

/-- A task that publishes two files in one directory. -/
def task : Task Unit :=
  ⟨"a", "a", .process, "", ∅, SortedMap.ofList [("p", "/x/f"), ("q", "/x/g")], ()⟩

/-- A task that publishes two files of one name in two directories. -/
def namesakes : Task Unit :=
  ⟨"a", "a", .process, "", ∅, SortedMap.ofList [("p", "/x/f"), ("q", "/y/f")], ()⟩

/-- A scratch directory and two others. -/
def bare : FileTree :=
  ((FileTree.put {} ["s"] .directory).put ["x"] .directory).put ["y"] .directory

/-- Two files are staged. -/
def staged : FileTree :=
  (bare.put ["s", "f"] (.file "1".toUTF8)).put ["s", "g"] (.file "2".toUTF8)

theorem wellFormed_staged : staged.WellFormed := by
  have hs : (FileTree.put {} ["s"] .directory).WellFormed :=
    wellFormed_empty.put (m := []) rfl rfl
  have hx : ((FileTree.put {} ["s"] .directory).put ["x"] .directory).WellFormed :=
    hs.put (m := []) rfl rfl
  have hbare : bare.WellFormed := hx.put (m := []) rfl rfl
  have hf : (bare.put ["s", "f"] (.file "1".toUTF8)).WellFormed := hbare.put (m := ["s"]) rfl rfl
  exact hf.put (m := ["s"]) rfl rfl

theorem movable_staged : Movable "/s" task.outputPorts.toList staged where
  wellFormed := wellFormed_staged
  files := by
    have hfiles : ∀ e ∈ task.outputPorts.toList,
        staged.entryAt? (stagingPath "/s" e.1 e.2) = some (.file "1".toUTF8) ∨
          staged.entryAt? (stagingPath "/s" e.1 e.2) = some (.file "2".toUTF8) := by
      decide +kernel
    intro e he x hx
    rcases hfiles e he with hfile | hfile
    · exact ⟨_, Option.some.inj (hx.symm.trans hfile)⟩
    · exact ⟨_, Option.some.inj (hx.symm.trans hfile)⟩
  unlinked := by
    have hfree : ∀ e ∈ task.outputPorts.toList, staged.entryAt? e.2 = none := by decide +kernel
    intro e he target htarget
    cases (hfree e he).symm.trans htarget

end Pair

/-- Two files with different names are staged each for itself, and published as they were. -/
theorem pair_staged_apart : Separate Pair.task.outputPorts ∧
    (∀ inputs scratch context, (bindRun Pair.task inputs scratch context).StagedApart) ∧
    (tellAll "/s" Pair.task.outputPorts.toList).Meets
      (fun (_ : Unit) => Spared "/s" Pair.task.outputPorts.toList) (fun _ _ _ _ => True)
      (fun _ tolds t' => List.Forall₂ (Outcome "/s" Pair.staged t')
        Pair.task.outputPorts.toList tolds) () Pair.staged := by
  have hseparate : Separate Pair.task.outputPorts := by decide +kernel
  obtain ⟨hapart, hpublished, -⟩ := outputs_staged_apart Pair.task
  exact ⟨hseparate, hapart.2 hseparate, hpublished hseparate "/s" Pair.staged Pair.movable_staged⟩

/-- Two files of one name have one staging file: what is written there for the second output comes
to stand at the published path of the first one, and nothing at its own. -/
theorem namesakes_not_staged_apart :
    ¬(bindRun Pair.namesakes ∅ "/s" default).StagedApart ∧
      (let run := do
        let _ ← (TaskRun.writeAll "a" "c".toUTF8
          (bindRun Pair.namesakes ∅ "/s" default).outputs.values).run
        tellAll "/s" Pair.namesakes.outputPorts.toList
      let files := (run.run Pair.bare).1
      (files.entryAt? "/x/f", files.entryAt? "/y/f")) = (some (.file "c".toUTF8), none) := by
  refine ⟨fun h => ?_, by decide +kernel⟩
  exact h.apart "p" "q" "/s/f" "/s/f" rfl rfl (by decide) rfl

end Execution

end BlockFlow
