import BlockFlow.Proofs.Graph.Acceptance
import BlockFlow.Proofs.List
import BlockFlow.Proofs.Naming

/-!
# Families of names

Some of the names that a node makes stand alone; the others are twins, of a schema and, right
after it, of an instance. The check looks for the first name that comes twice among the names of
all nodes. Since no node makes a name twice, two nodes make it; and since the twin of an instance
comes first, it is not the name of an instance.

## Key results

- `Family.Proper.nodup_names`: no node makes a name twice
- `Family.Proper.exists_of_firstRepeat?`: the first repeat is made by two nodes, and without the
  names of instances
- `Node.taskFamily`, `Node.portFamily`, `Node.fileFamily`: the names of tasks, ports and files
-/

namespace BlockFlow

/-- Names of one node: some that stand alone, and what the names of a schema and of an instance are
made from. -/
structure Family where
  singles : List String
  stems : List String

namespace Family

/-- The names of the schema and of the instance made from one stem. -/
def twins (stem : String) : List String := [stem ++ ".schema", stem ++ ".instance"]

/-- All names, with those of instances. -/
def names (f : Family) : List String := f.singles ++ f.stems.flatMap twins

/-- The names that do without instances. -/
def schemaNames (f : Family) : List String := f.singles ++ f.stems.map (· ++ ".schema")

theorem schema_ne_instance (s t : String) : s ++ ".schema" ≠ t ++ ".instance" :=
  Naming.append_ne_append (by decide) (by decide) s t

theorem mem_names {f : Family} {x : String} :
    x ∈ f.names ↔ x ∈ f.schemaNames ∨ ∃ stem ∈ f.stems, x = stem ++ ".instance" := by
  simp only [names, schemaNames, twins, List.mem_append, List.mem_flatMap, List.mem_cons,
    List.not_mem_nil, or_false, List.mem_map]
  constructor
  · rintro (hx | ⟨stem, hstem, rfl | rfl⟩)
    · exact .inl (.inl hx)
    · exact .inl (.inr ⟨stem, hstem, rfl⟩)
    · exact .inr ⟨stem, hstem, rfl⟩
  · rintro ((hx | ⟨stem, hstem, rfl⟩) | ⟨stem, hstem, rfl⟩)
    · exact .inl hx
    · exact .inr ⟨stem, hstem, .inl rfl⟩
    · exact .inr ⟨stem, hstem, .inr rfl⟩

private theorem mem_of_flatMap_twins {stems : List String} {stem : String} {cs ds : List String}
    (h : stems.flatMap twins = cs ++ (stem ++ ".instance") :: ds) : stem ++ ".schema" ∈ cs := by
  obtain ⟨before, s, -, as, bs, -, htwins, rfl⟩ := List.exists_of_flatMap_eq_append_cons h
  refine List.mem_append_right _ ?_
  -- The place is the second one of the two twins.
  match as, htwins with
  | [], htwins => exact absurd (List.cons.inj htwins).1 (schema_ne_instance s stem)
  | [a], htwins =>
    obtain ⟨rfl, hrest⟩ := List.cons.inj htwins
    have hstem : s = stem := by simpa using (List.cons.inj hrest).1
    rw [hstem]
    exact List.mem_singleton_self _
  | a :: b :: as, htwins => simp [twins] at htwins

/-- Families, one for each of the indices, in none of which a single name or a stem comes twice, and
with single names that are no twins. -/
structure Proper {α : Type} (F : α → Family) : Prop where
  singles : ∀ a, (F a).singles.Nodup
  stems : ∀ a, (F a).stems.Nodup
  single_ne : ∀ a b, ∀ s ∈ (F a).singles, ∀ stem ∈ (F b).stems,
    s ≠ stem ++ ".schema" ∧ s ≠ stem ++ ".instance"

namespace Proper

variable {α : Type} {F : α → Family} (h : Proper F)

include h

/-- No name comes twice. -/
theorem nodup_names (a : α) : (F a).names.Nodup := by
  refine List.nodup_append.2 ⟨h.singles a, List.nodup_flatMap.2 ⟨fun stem _ => ?_, ?_⟩, ?_⟩
  · exact List.nodup_cons.2
      ⟨by simp, List.nodup_singleton _⟩
  · -- Two stems have no twin in common, since a schema is never called like an instance.
    refine (h.stems a).imp (fun {s t} hst => ?_)
    intro x hxs hxt
    simp only [twins, List.mem_cons, List.not_mem_nil, or_false] at hxs hxt
    rcases hxs with rfl | rfl <;> rcases hxt with hx | hx
    · exact hst (by simpa using hx)
    · exact schema_ne_instance _ _ hx
    · exact schema_ne_instance _ _ hx.symm
    · exact hst (by simpa using hx)
  · rintro s hs x hx rfl
    obtain ⟨stem, hstem, hx⟩ := List.mem_flatMap.1 hx
    have hne := h.single_ne a a s hs stem hstem
    simp only [twins, List.mem_cons, List.not_mem_nil, or_false] at hx
    exact hx.elim hne.1 hne.2

/-- A name that does without instances is not the name of an instance. -/
theorem ne_instance {a b : α} {x stem : String} (hx : x ∈ (F a).schemaNames)
    (hstem : stem ∈ (F b).stems) : x ≠ stem ++ ".instance" := by
  rcases List.mem_append.1 hx with hx | hx
  · exact (h.single_ne a b x hx stem hstem).2
  · obtain ⟨s, -, rfl⟩ := List.mem_map.1 hx
    exact schema_ne_instance s stem

/-- The name of a schema comes before that of the instance. -/
theorem schema_mem_of_names {a : α} {stem : String} {cs ds : List String}
    (hstem : stem ∈ (F a).stems) (hnames : (F a).names = cs ++ (stem ++ ".instance") :: ds) :
    stem ++ ".schema" ∈ cs := by
  rcases List.append_eq_append_iff.1 hnames with ⟨cs', rfl, htwins⟩ | ⟨cs', hsingles, htwins⟩
  · exact List.mem_append_right _ (mem_of_flatMap_twins htwins)
  · cases cs' with
    | nil =>
      have hfirst : (F a).stems.flatMap twins = [] ++ (stem ++ ".instance") :: ds := by
        simpa using htwins.symm
      exact absurd (mem_of_flatMap_twins hfirst) List.not_mem_nil
    | cons c cs' =>
      obtain ⟨rfl, -⟩ := List.cons.inj htwins
      exact absurd rfl (h.single_ne a a _ (by simp [hsingles]) stem hstem).2

/-- The first name that comes twice is made by two of the families, and both make it even if they
do without instances. -/
theorem exists_of_firstRepeat? {l : List α} (hl : l.Nodup) {x : String}
    (hx : Graph.firstRepeat? [] (l.flatMap fun a => (F a).names) = some x) :
    ∃ a ∈ l, ∃ b ∈ l, a ≠ b ∧ x ∈ (F a).schemaNames ∧ x ∈ (F b).schemaNames := by
  obtain ⟨as, bs, hsplit, hnodup, -, hmem⟩ := Graph.firstRepeat?_eq_some hx
  obtain ⟨l₁, b, l₂, cs, ds, rfl, hb, rfl⟩ := List.exists_of_flatMap_eq_append_cons hsplit
  obtain ⟨-, -, hdisjoint⟩ := List.nodup_append.1 hnodup
  have hxb : x ∈ (F b).names := by simp [hb]
  -- The name has not come before among those of the same family.
  have hxcs : x ∉ cs := by
    have hnames := h.nodup_names b
    rw [hb, List.nodup_append] at hnames
    exact fun hmem => hnames.2.2 x hmem x List.mem_cons_self rfl
  have hbefore : x ∈ l₁.flatMap fun a => (F a).names :=
    (List.mem_append.1 (hmem.resolve_right List.not_mem_nil)).resolve_right hxcs
  obtain ⟨a, ha, hxa⟩ := List.mem_flatMap.1 hbefore
  have hab : a ≠ b := by
    rintro rfl
    exact (List.nodup_append.1 hl).2.2 a ha a List.mem_cons_self rfl
  have hschema : x ∈ (F b).schemaNames := by
    refine (mem_names.1 hxb).resolve_right ?_
    -- Otherwise the names of the schemas would have been an earlier repeat.
    rintro ⟨stem, hstem, rfl⟩
    rcases mem_names.1 hxa with hxa | ⟨stem', hstem', heq⟩
    · exact h.ne_instance hxa hstem rfl
    · obtain rfl : stem = stem' := by simpa using heq
      refine hdisjoint _ (List.mem_flatMap.2 ⟨a, ha, mem_names.2 (.inl ?_)⟩) _
        (h.schema_mem_of_names hstem hb) rfl
      exact List.mem_append_right _ (List.mem_map_of_mem hstem')
  refine ⟨a, by simp [ha], b, by simp, hab, (mem_names.1 hxa).resolve_right ?_, hschema⟩
  rintro ⟨stem, hstem, rfl⟩
  exact h.ne_instance hschema hstem rfl

end Proper

end Family

/-! ## Names of tasks, ports and files -/

namespace Node

/-- The names of a node's tasks. -/
def taskFamily (id : NodeId) (n : Node) : Family := ⟨n.taskNames id, []⟩

/-- The names of a node's ports. -/
def portFamily (id : NodeId) (n : Node) : Family where
  singles := [Naming.stateIn id, Naming.stateOut id]
  stems := n.inputNames.map (fun i => id ++ "-" ++ i ++ ".input") ++
    n.outputNames.map (fun o => id ++ "-" ++ o ++ ".output")

/-- The names of a node's files. -/
def fileFamily (id : NodeId) (n : Node) : Family where
  singles := [Naming.stateFile id n.kind]
  stems := n.outputNames.map (fun o => n.kind ++ "-" ++ id ++ "-" ++ o)

variable (id : NodeId) (n : Node)

theorem names_taskFamily : (n.taskFamily id).names = n.taskNames id := List.append_nil _

theorem names_portFamily : (n.portFamily id).names = n.portNames id := by
  have hin : ∀ i, Family.twins (id ++ "-" ++ i ++ ".input") =
      [Naming.schemaIn id i, Naming.instanceIn id i] := fun i => by
    simp [Family.twins, Naming.schemaIn, Naming.instanceIn, String.append_assoc]
  have hout : ∀ o, Family.twins (id ++ "-" ++ o ++ ".output") =
      [Naming.schemaOut id o, Naming.instanceOut id o] := fun o => by
    simp [Family.twins, Naming.schemaOut, Naming.instanceOut, String.append_assoc]
  simp only [Family.names, portFamily, portNames, List.flatMap_append, List.flatMap_map, hin, hout]
  rfl

theorem names_fileFamily : (n.fileFamily id).names = n.fileNames id := by
  simp only [Family.names, fileFamily, fileNames, List.flatMap_map]
  rfl

theorem schemaNames_taskFamily : (n.taskFamily id).schemaNames = n.taskNames id :=
  List.append_nil _

theorem schemaNames_portFamily : (n.portFamily id).schemaNames =
    Naming.stateIn id :: Naming.stateOut id ::
      (n.inputNames.map (Naming.schemaIn id) ++ n.outputNames.map (Naming.schemaOut id)) := by
  have hin : ∀ i, id ++ "-" ++ i ++ ".input" ++ ".schema" = Naming.schemaIn id i := fun i => by
    simp [Naming.schemaIn, String.append_assoc]
  have hout : ∀ o, id ++ "-" ++ o ++ ".output" ++ ".schema" = Naming.schemaOut id o := fun o => by
    simp [Naming.schemaOut, String.append_assoc]
  simp only [Family.schemaNames, portFamily, List.map_append, List.map_map, Function.comp_def, hin,
    hout]
  rfl

theorem schemaNames_fileFamily : (n.fileFamily id).schemaNames =
    Naming.stateFile id n.kind :: n.outputNames.map (Naming.schemaFile id n.kind) := by
  simp only [Family.schemaNames, fileFamily, List.map_map]
  rfl

theorem proper_taskFamily : Family.Proper fun e : NodeId × Node => e.2.taskFamily e.1 where
  singles e := by
    refine List.nodup_cons.2 ⟨fun hmem => ?_, List.nodup_singleton _⟩
    have heq := congrArg String.length (List.mem_singleton.1 hmem)
    simp [Naming.processTask, Naming.stateTask] at heq
  stems _ := List.nodup_nil
  single_ne _ _ _ _ _ hstem := absurd hstem List.not_mem_nil

theorem proper_portFamily : Family.Proper fun e : NodeId × Node => e.2.portFamily e.1 where
  singles e := by
    refine List.nodup_cons.2 ⟨fun hmem => ?_, List.nodup_singleton _⟩
    exact Naming.append_ne_append (by decide) (by decide) _ _ (List.mem_singleton.1 hmem)
  -- Input ports and output ports have prefixes of their own.
  stems e := by
    refine List.nodup_append.2 ⟨?_, ?_, ?_⟩
    · exact (SortedMap.nodup_keys _).map (fun x y hxy => by simpa using hxy)
    · exact (SortedMap.nodup_keys _).map (fun x y hxy => by simpa using hxy)
    · rintro a ha b hb rfl
      obtain ⟨i, -, hi⟩ := List.mem_map.1 ha
      obtain ⟨o, -, ho⟩ := List.mem_map.1 hb
      exact Naming.append_ne_append (by decide) (by decide) _ _ (hi.trans ho.symm)
  single_ne _ _ s hs stem _ := by
    simp only [portFamily, List.mem_cons, List.not_mem_nil, or_false] at hs
    rcases hs with rfl | rfl
    · exact ⟨Naming.append_ne_append (by decide) (by decide) _ _,
        Naming.append_ne_append (by decide) (by decide) _ _⟩
    · exact ⟨Naming.append_ne_append (by decide) (by decide) _ _,
        Naming.append_ne_append (by decide) (by decide) _ _⟩

theorem proper_fileFamily : Family.Proper fun e : NodeId × Node => e.2.fileFamily e.1 where
  singles _ := List.nodup_singleton _
  stems _ := (SortedMap.nodup_keys _).map (fun x y hxy => by simpa using hxy)
  single_ne _ _ s hs stem _ := by
    obtain rfl := List.mem_singleton.1 hs
    exact ⟨Naming.append_ne_append (by decide) (by decide) _ _,
      Naming.append_ne_append (by decide) (by decide) _ _⟩

/-- No task name of a node comes twice. -/
theorem nodup_taskNames : (n.taskNames id).Nodup := by
  rw [← names_taskFamily]
  exact proper_taskFamily.nodup_names (id, n)

/-- No port name of a node comes twice. -/
theorem nodup_portNames : (n.portNames id).Nodup := by
  rw [← names_portFamily]
  exact proper_portFamily.nodup_names (id, n)

/-- No file name of a node comes twice. -/
theorem nodup_fileNames : (n.fileNames id).Nodup := by
  rw [← names_fileFamily]
  exact proper_fileFamily.nodup_names (id, n)

end Node

end BlockFlow
