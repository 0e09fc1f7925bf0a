import BlockFlow.Graph.Builder
import BlockFlow.Proofs.Files.Resolution
import BlockFlow.Proofs.Graph.Wiring
import BlockFlow.Proofs.Shell.Splitting

/-!
# Where the program of a kind lies

A package holds one directory per kind, named by the kind, and the program that a node runs is a
file in the directory of its kind. The check of a graph refuses kinds with a slash, so that no kind
can name anything further away; but it lets pass three kinds that are no names of directories. The
programs of the empty kind and of the single dot lie in the package itself, and that of the two
dots lies above it.

## Key results

- `BlockModules.inModule_iff`: for which kinds the program lies in a directory of the kind
- `BlockModules.programPlace_eq_iff`: which kinds share a program
- `Graph.programs_by_kind`: where the programs lie that the commands of a graph name
-/

namespace BlockFlow

/-- Kinds that lead nowhere. -/
def IsBlank (kind : String) : Prop := kind = "" ∨ kind = "."

/-- Kinds that are names of directories. -/
def IsOrdinary (kind : String) : Prop := ¬IsBlank kind ∧ kind ≠ ".."

theorem kind_cases (kind : String) : IsOrdinary kind ∨ IsBlank kind ∨ kind = ".." := by
  by_cases hblank : IsBlank kind
  · exact .inr (.inl hblank)
  · by_cases hdots : kind = ".."
    · exact .inr (.inr hdots)
    · exact .inl ⟨hblank, hdots⟩

theorem IsOrdinary.plain {kind : String} (h : IsOrdinary kind) (hslash : '/' ∉ kind.toList) :
    Path.Plain kind where
  ne_empty hempty := h.1 (.inl hempty)
  ne_dot hdot := h.1 (.inr hdot)
  ne_dots := h.2
  noSlash := hslash

namespace BlockModules

variable {m : BlockModules} {mode : Mode} {kind kind' : String}

/-- The name of the file of a program. -/
def programFile (m : BlockModules) (mode : Mode) : String := mode.name ++ "." ++ m.extension

/-- Where the package lies. -/
def packagePlace (m : BlockModules) : Place := m.packagePath.resolve

/-- Where the module of a kind lies. -/
def modulePlace (m : BlockModules) (kind : String) : Place := (m.modulePath kind).resolve

/-- Where the program of a kind lies. -/
def programPlace (m : BlockModules) (mode : Mode) (kind : String) : Place :=
  (m.programPath kind mode.name).resolve

/-- The program of a kind is a file in a directory that the package holds under the name of the
kind. -/
def InModule (m : BlockModules) (mode : Mode) (kind : String) : Prop :=
  ∃ d : Place, d.IsEntry m.packagePlace kind ∧ (m.programPlace mode kind).IsEntry d (m.programFile mode)

/-- Two kinds share a program: they are the same, or neither is the name of a directory and both
lead nowhere. If the package is the root, two dots lead nowhere too. -/
def SharesProgram (m : BlockModules) (kind kind' : String) : Prop :=
  kind = kind' ∨ ¬IsOrdinary kind ∧ ¬IsOrdinary kind' ∧
    (IsBlank kind ∧ IsBlank kind' ∨ m.packagePlace = Place.root)

theorem plain_programFile (hext : '/' ∉ m.extension.toList) (mode : Mode) :
    Path.Plain (m.programFile mode) := by
  have ha : 'a' ∈ (m.programFile mode).toList := by
    cases mode <;> simp [programFile, Mode.name]
  have hne : ∀ s : String, 'a' ∉ s.toList → m.programFile mode ≠ s := fun s hs h => hs (h ▸ ha)
  refine ⟨hne _ (by decide), hne _ (by decide), hne _ (by decide), ?_⟩
  cases mode <;> simp [programFile, Mode.name, hext]

/-! ## The module of a kind -/

theorem modulePlace_of_ordinary (h : IsOrdinary kind) (hslash : '/' ∉ kind.toList) :
    m.modulePlace kind = m.packagePlace.child kind :=
  Path.resolve_join_plain (h.plain hslash) _

theorem modulePlace_of_blank (h : IsBlank kind) : m.modulePlace kind = m.packagePlace :=
  Path.resolve_join_blank h _

theorem modulePlace_dots : m.modulePlace ".." = m.packagePlace.parent :=
  Path.resolve_join_dots _

theorem isEntry_modulePlace_iff (hslash : '/' ∉ kind.toList) :
    (m.modulePlace kind).IsEntry m.packagePlace kind ↔ IsOrdinary kind := by
  rcases kind_cases kind with h | h | rfl
  · exact iff_of_true ⟨h.2, modulePlace_of_ordinary h hslash⟩ h
  · refine iff_of_false (fun hentry => ?_) fun hord => hord.1 h
    rw [Place.IsEntry, modulePlace_of_blank h] at hentry
    exact m.packagePlace.child_ne_self kind hentry.2.symm
  · exact iff_of_false (fun hentry => hentry.1 rfl) fun hord => hord.2 rfl

theorem modulePlace_ne (h : IsOrdinary kind) (hslash : '/' ∉ kind.toList)
    (h' : ¬IsOrdinary kind') : m.modulePlace kind ≠ m.modulePlace kind' := by
  rw [modulePlace_of_ordinary h hslash]
  rcases kind_cases kind' with hord | hblank | rfl
  · exact absurd hord h'
  · rw [modulePlace_of_blank hblank]
    exact Place.child_ne_self _ _
  · rw [modulePlace_dots]
    exact Ne.symm (Place.parent_ne_child h.2)

/-- Two kinds that are no names of directories lead to the same place if both lead nowhere, or both
lead up, or the package is the root. -/
theorem modulePlace_eq_iff_of_not_ordinary (h : ¬IsOrdinary kind) (h' : ¬IsOrdinary kind') :
    m.modulePlace kind = m.modulePlace kind' ↔
      kind = kind' ∨ IsBlank kind ∧ IsBlank kind' ∨ m.packagePlace = Place.root := by
  have hdots : ¬IsBlank ".." := by simp [IsBlank]
  rcases (kind_cases kind).resolve_left h with hblank | rfl <;>
    rcases (kind_cases kind').resolve_left h' with hblank' | rfl
  · rw [modulePlace_of_blank hblank, modulePlace_of_blank hblank']
    exact iff_of_true rfl (.inr (.inl ⟨hblank, hblank'⟩))
  · rw [modulePlace_of_blank hblank, modulePlace_dots, eq_comm, Place.parent_eq_self_iff]
    have hne : kind ≠ ".." := fun hk => hdots (hk ▸ hblank)
    simp [hne, hdots]
  · rw [modulePlace_of_blank hblank', modulePlace_dots, Place.parent_eq_self_iff]
    have hne : ".." ≠ kind' := fun hk => hdots (hk ▸ hblank')
    simp [hne, hdots]
  · exact iff_of_true rfl (.inl rfl)

/-- Different kinds have different modules, unless neither is the name of a directory. -/
theorem modulePlace_eq_iff (hslash : '/' ∉ kind.toList) (hslash' : '/' ∉ kind'.toList) :
    m.modulePlace kind = m.modulePlace kind' ↔ m.SharesProgram kind kind' := by
  -- An ordinary kind has a directory of its own; any other stays in the package or leaves it.
  by_cases h : IsOrdinary kind <;> by_cases h' : IsOrdinary kind'
  · rw [modulePlace_of_ordinary h hslash, modulePlace_of_ordinary h' hslash', Place.child_inj]
    simp [SharesProgram, h]
  · refine iff_of_false (modulePlace_ne h hslash h') ?_
    rintro (rfl | ⟨hk, -⟩)
    · exact h' h
    · exact hk h
  · refine iff_of_false (Ne.symm (modulePlace_ne h' hslash' h)) ?_
    rintro (rfl | ⟨-, hk, -⟩)
    · exact h h'
    · exact hk h'
  · rw [modulePlace_eq_iff_of_not_ordinary h h']
    simp [SharesProgram, h, h']

/-! ## The program of a kind -/

theorem programPlace_eq_child (hext : '/' ∉ m.extension.toList) (kind : String) :
    m.programPlace mode kind = (m.modulePlace kind).child (m.programFile mode) :=
  Path.resolve_join_plain (plain_programFile hext mode) _

theorem isEntry_programPlace_iff (hext : '/' ∉ m.extension.toList) {d : Place} :
    (m.programPlace mode kind).IsEntry d (m.programFile mode) ↔ m.modulePlace kind = d := by
  rw [Place.IsEntry, programPlace_eq_child hext, Place.child_inj]
  simp [(plain_programFile hext mode).ne_dots]

theorem inModule_iff (hext : '/' ∉ m.extension.toList) (hslash : '/' ∉ kind.toList) :
    m.InModule mode kind ↔ IsOrdinary kind := by
  simp only [InModule, isEntry_programPlace_iff hext, exists_eq_right',
    isEntry_modulePlace_iff hslash]

theorem programPlace_eq_iff (hext : '/' ∉ m.extension.toList) (hslash : '/' ∉ kind.toList)
    (hslash' : '/' ∉ kind'.toList) :
    m.programPlace mode kind = m.programPlace mode kind' ↔ m.SharesProgram kind kind' := by
  rw [programPlace_eq_child hext, programPlace_eq_child hext, Place.child_inj,
    modulePlace_eq_iff hslash hslash', and_iff_left rfl]

end BlockModules

/-! ## The programs of a graph -/

/-- The first words that a shell reads in a command, whatever stands behind them. -/
def Shell.Begins (command : String) (ws : List String) : Prop :=
  ∃ front rest, command = front ++ " " ++ rest ∧ Shell.words front = some ws

/-- A command begins with the interpreter and the program. -/
theorem Invocation.begins_command (m : BlockModules) (id : NodeId) (node : Node) (mode : Mode) :
    Shell.Begins (command m id node mode) [m.interpreter, m.programPath node.kind mode.name] := by
  obtain ⟨flag, flags, hparts⟩ : ∃ flag flags, parts m id node mode =
      Shell.quote m.interpreter :: Shell.quote (m.programPath node.kind mode.name) ::
        flag :: flags := ⟨_, _, rfl⟩
  refine ⟨" ".intercalate
    ([m.interpreter, m.programPath node.kind mode.name].map Shell.quote),
    " ".intercalate (flag :: flags), ?_, Shell.words_intercalate_quote _⟩
  rw [command, hparts, ← String.toList_inj]
  simp [String.toList_intercalate]

namespace Graph

/-- The command of a node begins with the interpreter and the program of the node's kind. The program
is a file in a directory of the package that is named by the kind, unless the kind is empty, a dot
or two dots; then it lies in the package itself or above it. Nodes of different kinds run the same
program only if neither kind is the name of a directory. -/
theorem programs_by_kind {g : Graph} {mode : Mode} {config : Config} {out : Path}
    {tasks : TaskGraph Work} (h : g.compile mode config out = .ok tasks)
    (hext : '/' ∉ config.modules.extension.toList) {id : NodeId} {node : Node}
    (hnode : g.node? id = some node) :
    (∃ t ∈ tasks.tasks, t.role = .process ∧ t.node = id) ∧
      (∀ t ∈ tasks.tasks, t.role = .process → t.node = id → Shell.Begins t.command
        [config.modules.interpreter, config.modules.programPath node.kind mode.name]) ∧
      (config.modules.InModule mode node.kind ↔ IsOrdinary node.kind) ∧
      (IsBlank node.kind → (config.modules.programPlace mode node.kind).IsEntry
        config.modules.packagePlace (config.modules.programFile mode)) ∧
      (node.kind = ".." → (config.modules.programPlace mode node.kind).IsEntry
        config.modules.packagePlace.parent (config.modules.programFile mode)) ∧
      ∀ id' node', g.node? id' = some node' →
        (config.modules.programPlace mode node.kind = config.modules.programPlace mode node'.kind ↔
          config.modules.SharesProgram node.kind node'.kind) := by
  obtain ⟨haccepted, htasks⟩ := of_compile h
  have hmem : ∀ t, t ∈ tasks.tasks ↔ t ∈ g.tasks mode config.modules out :=
    fun t => by rw [htasks]
  have hslash : ∀ id node, g.node? id = some node → '/' ∉ node.kind.toList :=
    fun id node hnode => not_mem_of_unreserved
      (haccepted.unreserved id node hnode .nodeKind node.kind (by simp [Node.givenNames])) rfl
  have hkind := hslash id node hnode
  refine ⟨?_, fun t ht hrole hid => ?_, BlockModules.inModule_iff hext hkind, fun hblank => ?_,
    fun hdots => ?_, fun id' node' hnode' => ?_⟩
  · exact ⟨_, (hmem _).2 (mem_tasks.2 ⟨id, node, hnode, .inr rfl⟩), rfl, rfl⟩
  · rw [hmem, mem_tasks] at ht
    obtain ⟨id', node', hnode', rfl | rfl⟩ := ht
    · cases hrole
    · obtain rfl : id' = id := hid
      obtain rfl := Option.some.inj (hnode.symm.trans hnode')
      exact Invocation.begins_command config.modules id' node mode
  · exact (BlockModules.isEntry_programPlace_iff hext).2 (BlockModules.modulePlace_of_blank hblank)
  · rw [BlockModules.isEntry_programPlace_iff hext, hdots, BlockModules.modulePlace_dots]
  · exact BlockModules.programPlace_eq_iff hext hkind (hslash id' node' hnode')

/-! ## Kinds that are no names -/

/-- A node of an ordinary kind, and a node of each kind that is no name of a directory. -/
def oddKinds : Graph where
  nodes := .ofList [("a", .ofKind ""), ("b", .ofKind "."), ("c", .ofKind ".."), ("d", .ofKind "csv")]

/-- The graph is compiled. Two of its nodes run a file of the package itself, which is the same one
for both; one runs a file next to the package; only the last one runs a file of its module. -/
theorem odd_kinds_leave_modules : (∃ tasks, oddKinds.compile .validate {} "out" = .ok tasks) ∧
    ¬BlockModules.InModule {} .validate "" ∧ ¬BlockModules.InModule {} .validate ".." ∧
      BlockModules.programPlace {} .validate "" = BlockModules.programPlace {} .validate "." ∧
      BlockModules.programPlace {} .validate ".." =
        ⟨false, ["node_modules", "@underlay", "pipeline-runtime", "validate.js"]⟩ ∧
      BlockModules.InModule {} .validate "csv" ∧
      BlockModules.programPlace {} .validate "csv" ≠ BlockModules.programPlace {} .validate "" := by
  have hvalid : oddKinds.validate = .ok () := by decide +kernel
  have hcompile : oddKinds.compile .validate {} "out" = .ok _ := compile_eq_ok hvalid
  have hext : '/' ∉ "js".toList := by decide
  obtain ⟨-, -, hempty, -, -, hshared⟩ :=
    programs_by_kind hcompile hext (show oddKinds.node? "a" = some (.ofKind "") from rfl)
  obtain ⟨-, -, hdots, -, habove, -⟩ :=
    programs_by_kind hcompile hext (show oddKinds.node? "c" = some (.ofKind "..") from rfl)
  obtain ⟨-, -, hcsv, -, -, hother⟩ :=
    programs_by_kind hcompile hext (show oddKinds.node? "d" = some (.ofKind "csv") from rfl)
  have hordinary : IsOrdinary "csv" := by simp [IsOrdinary, IsBlank]
  have hblank : ∀ {kind}, IsBlank kind → ¬IsOrdinary kind := fun hkind hord => hord.1 hkind
  refine ⟨⟨_, hcompile⟩, fun hin => hblank (.inl rfl) (hempty.1 hin), fun hin => ?_, ?_, ?_,
    hcsv.2 hordinary, fun hsame => ?_⟩
  · exact (hdots.1 hin).2 rfl
  · exact (hshared "b" (.ofKind ".") rfl).2
      (.inr ⟨hblank (.inl rfl), hblank (.inr rfl), .inl ⟨.inl rfl, .inr rfl⟩⟩)
  · exact (habove rfl).2.trans (by decide +kernel)
  · rcases (hother "a" (.ofKind "") rfl).1 hsame with hsame | ⟨hnot, -⟩
    · exact absurd hsame (by decide)
    · exact hnot hordinary

end Graph

end BlockFlow
