import Mathlib.Data.List.TakeWhile
import BlockFlow.Proofs.Workflow.Commands

/-!
# What a block program can tell from its arguments

A block program is told by its arguments where its files are: behind `--state` stands the state, and
behind each other flag stands `name=file` for every input or every output. A program reads this from
the left: what starts with `--` is a flag, and everything else belongs to the last flag and is split
at its first `=` (`Arguments.read`). A name with an `=` is cut in two there, and one that starts
with `--` is taken for a flag; the check of a graph refuses neither.

## Key results

- `Arguments.read_iff`: arguments are read back if and only if every name can be told
- `arguments_read_iff`: so it is for every command that the engine fills
- `signedNames_read`: two nodes of an accepted graph, of which only one is told what it is to be
-/

namespace BlockFlow

open Template

/-- What a block program has been told. -/
structure Arguments where
  /-- What stands behind `--state`. -/
  state : Option Path := none
  /-- For each other flag, the files behind it under their names. -/
  files : NameMap (NameMap Path) := ∅
  deriving DecidableEq

namespace Arguments

/-! ## Reading arguments -/

/-- Whether an argument is taken for a flag. -/
def isFlag (word : String) : Bool := "--".toList.isPrefixOf word.toList

/-- Splits an argument at its first `=`. -/
def split? (word : String) : Option (String × Path) :=
  match word.toList.dropWhile (· ≠ '=') with
  | [] => none
  | _ :: path => some (String.ofList (word.toList.takeWhile (· ≠ '=')), String.ofList path)

/-- The files behind a flag. -/
def behind (a : Arguments) (flag : String) : NameMap Path := (a.files.get? flag).getD ∅

/-- With these files behind a flag. -/
def put (a : Arguments) (flag : String) (files : NameMap Path) : Arguments :=
  { a with files := a.files.insert flag files }

/-- Takes a flag, behind which may stand nothing. -/
def select (a : Arguments) (flag : String) : Arguments :=
  if flag = "--state" then a else a.put flag (a.behind flag)

/-- Takes an argument that stands behind a flag. -/
def take? (a : Arguments) (flag word : String) : Option Arguments :=
  if flag = "--state" then some { a with state := some word }
  else (split? word).map (fun e => a.put flag ((a.behind flag).insert e.1 e.2))

/-- Reads the rest of the arguments, from the last flag on. What stands in front of all flags is
passed over. -/
def readFrom (flag? : Option String) (a : Arguments) : List String → Option Arguments
  | [] => some a
  | word :: words =>
    if isFlag word then readFrom (some word) (a.select word) words
    else
      match flag? with
      | none => readFrom none a words
      | some flag => (a.take? flag word).bind (fun a => readFrom (some flag) a words)

/-- What a block program is told by its arguments. -/
def read (words : List String) : Option Arguments := readFrom none {} words

/-! ## What it is to be told -/

/-- The file under each of these names. -/
def filesUnder (names : List String) (file : String → Path) : NameMap Path :=
  SortedMap.ofList (names.map (fun n => (n, file n)))

/-- What the program of a node is to be told: these files, under the declared names. -/
def ofNode (node : Node) (mode : Mode) (files : Invocation.Files) : Arguments where
  state := some files.state
  files := SortedMap.ofList
    ([("--input-schemas", filesUnder node.inputNames files.inputSchema)] ++
      (if mode.withInstances then
        [("--input-instances", filesUnder node.inputNames files.inputInstance)] else []) ++
      [("--output-schemas", filesUnder node.outputNames files.outputSchema)] ++
      (if mode.withInstances then
        [("--output-instances", filesUnder node.outputNames files.outputInstance)] else []))

/-- The arguments of the program of a node. -/
def ofCommand (node : Node) (mode : Mode) (files : Invocation.Files) : List String :=
  ["--state", files.state] ++
    Invocation.flagWords "--input-schemas" node.inputNames files.inputSchema ++
    (if mode.withInstances then
      Invocation.flagWords "--input-instances" node.inputNames files.inputInstance else []) ++
    Invocation.flagWords "--output-schemas" node.outputNames files.outputSchema ++
    (if mode.withInstances then
      Invocation.flagWords "--output-instances" node.outputNames files.outputInstance else [])

/-- A name that can be told from the arguments. -/
def Clear (name : String) : Prop := isFlag name = false ∧ '=' ∉ name.toList

instance (name : String) : Decidable (Clear name) := inferInstanceAs (Decidable (_ ∧ _))

/-! ## Clear names are read -/

theorem get?_put (a : Arguments) (flag flag' : String) (files : NameMap Path) :
    (a.put flag files).files.get? flag' = if flag = flag' then some files else a.files.get? flag' :=
  SortedMap.get?_insert _ _ _ _

@[simp] theorem behind_put (a : Arguments) (flag : String) (files : NameMap Path) :
    (a.put flag files).behind flag = files := by
  simp [behind, get?_put]

@[simp] theorem put_put (a : Arguments) (flag : String) (files files' : NameMap Path) :
    (a.put flag files).put flag files' = a.put flag files' := by
  have hfiles : ((a.put flag files).put flag files').files = (a.put flag files').files := by
    apply SortedMap.ext
    intro k
    simp only [get?_put]
    split <;> rfl
  exact congrArg (fun m => ({ state := a.state, files := m } : Arguments)) hfiles

/-- Whether an assignment is taken for a flag depends on the name alone. -/
@[simp] theorem isFlag_assignment (n : String) (path : Path) :
    isFlag (n ++ "=" ++ path) = isFlag n := by
  unfold isFlag
  simp only [String.toList_append]
  rcases n.toList with _ | ⟨c, _ | ⟨d, cs⟩⟩
  · rfl
  · simp [List.isPrefixOf]
  · simp [List.isPrefixOf]

theorem split?_assignment {n : String} (hn : '=' ∉ n.toList) (path : Path) :
    split? (n ++ "=" ++ path) = some (n, path) := by
  have hword : (n ++ "=" ++ path).toList = n.toList ++ '=' :: path.toList := by simp
  have hall : ∀ c ∈ n.toList, decide (c ≠ '=') = true := by
    intro c hc
    exact decide_eq_true (fun heq => hn (heq ▸ hc))
  unfold split?
  rw [hword, List.dropWhile_append_of_pos hall, List.takeWhile_append_of_pos hall]
  simp

/-- What is split at its first `=` has none in front of it. -/
theorem not_mem_of_split? {word n : String} {path : Path} (h : split? word = some (n, path)) :
    '=' ∉ n.toList := by
  unfold split? at h
  split at h
  · cases h
  · obtain ⟨rfl, -⟩ := Prod.mk.inj (Option.some.inj h)
    rw [String.toList_ofList]
    intro hmem
    simpa using List.mem_takeWhile_imp hmem

variable {flag : String} {names : List String} {file : String → Path} {a : Arguments}

theorem take?_assignment (hstate : flag ≠ "--state") {n : String} (hn : '=' ∉ n.toList)
    (path : Path) :
    a.take? flag (n ++ "=" ++ path) = some (a.put flag ((a.behind flag).insert n path)) := by
  rw [take?, if_neg hstate, split?_assignment hn, Option.map_some]

/-- Behind a flag, clear names are read one after the other. -/
theorem readFrom_assignments (hstate : flag ≠ "--state") (hnames : ∀ n ∈ names, Clear n)
    (a : Arguments) (files : NameMap Path) (rest : List String) :
    readFrom (some flag) (a.put flag files) (names.map (fun n => n ++ "=" ++ file n) ++ rest) =
      readFrom (some flag) (a.put flag
        ((names.map (fun n => (n, file n))).foldl (fun m e => m.insert e.1 e.2) files)) rest := by
  induction names generalizing files with
  | nil => rfl
  | cons n names ih =>
    obtain ⟨hflag, hequals⟩ := hnames n List.mem_cons_self
    have hrest := ih (fun m hm => hnames m (List.mem_cons_of_mem _ hm)) (files.insert n (file n))
    rw [List.map_cons, List.cons_append]
    simp only [readFrom, isFlag_assignment, hflag, take?_assignment hstate hequals, behind_put,
      put_put, Option.bind_some, Bool.false_eq_true, if_false]
    exact hrest

/-- A flag that has not come before is read with all that stands behind it. -/
theorem readFrom_flagWords (hflag : isFlag flag = true) (hstate : flag ≠ "--state")
    (hnew : a.files.get? flag = none) (hnames : ∀ n ∈ names, Clear n) (flag? : Option String)
    (rest : List String) :
    readFrom flag? a (Invocation.flagWords flag names file ++ rest) =
      readFrom (some flag) (a.put flag (filesUnder names file)) rest := by
  have hselect : a.select flag = a.put flag ∅ := by
    simp [select, hstate, behind, hnew]
  have hwords : Invocation.flagWords flag names file ++ rest =
      flag :: (names.map (fun n => n ++ "=" ++ file n) ++ rest) := rfl
  rw [hwords]
  simp only [readFrom, hflag, if_true, hselect]
  rw [readFrom_assignments hstate hnames]
  rfl

/-- With clear names and a state that is not taken for a flag, a program is told what it is to be
told. -/
theorem read_ofCommand {node : Node} {mode : Mode} {files : Invocation.Files}
    (hstate : isFlag files.state = false) (hin : ∀ n ∈ node.inputNames, Clear n)
    (hout : ∀ n ∈ node.outputNames, Clear n) :
    read (ofCommand node mode files) = some (ofNode node mode files) := by
  -- The state file comes first, and then the lists of the flags one by one.
  have hfirst : ∀ rest, read (["--state", files.state] ++ rest) =
      readFrom (some "--state") { state := some files.state } rest := by
    intro rest
    have hflag : isFlag "--state" = true := by decide
    simp [read, readFrom, hflag, hstate, select, take?]
  have hend : ∀ (flag? : Option String) (a : Arguments), readFrom flag? a [] = some a :=
    fun _ _ => rfl
  unfold ofCommand
  simp only [List.append_assoc]
  rw [hfirst, readFrom_flagWords (by decide) (by decide) rfl hin]
  cases mode with
  | validate =>
    simp only [Mode.withInstances, Bool.false_eq_true, if_false, List.nil_append]
    rw [readFrom_flagWords (by decide) (by decide) (by simp [get?_put]) hout, hend]
    rfl
  | evaluate =>
    simp only [Mode.withInstances, if_true]
    rw [readFrom_flagWords (by decide) (by decide) (by simp [get?_put]) hin,
      readFrom_flagWords (by decide) (by decide) (by simp [get?_put]) hout,
      ← List.append_nil (Invocation.flagWords "--output-instances" _ _),
      readFrom_flagWords (by decide) (by decide) (by simp [get?_put]) hout, hend]
    rfl

/-! ## Other names are not read -/

/-- What holds of everything that is read. -/
structure Told (a : Arguments) : Prop where
  state : ∀ s, a.state = some s → isFlag s = false
  names : ∀ flag m, a.files.get? flag = some m → ∀ n path, m.get? n = some path → '=' ∉ n.toList

theorem Told.behind (h : a.Told) {n : String} {path : Path}
    (hget : (a.behind flag).get? n = some path) : '=' ∉ n.toList := by
  unfold Arguments.behind at hget
  cases hflag : a.files.get? flag with
  | none => rw [hflag] at hget; cases hget
  | some m =>
    rw [hflag, Option.getD_some] at hget
    exact h.names flag m hflag n path hget

theorem Told.put (h : a.Told) {files : NameMap Path}
    (hfiles : ∀ n path, files.get? n = some path → '=' ∉ n.toList) : (a.put flag files).Told where
  state := h.state
  names flag' m hm := by
    rw [get?_put] at hm
    split at hm
    · obtain rfl := Option.some.inj hm
      exact hfiles
    · exact h.names flag' m hm

theorem Told.select (h : a.Told) (flag : String) : (a.select flag).Told := by
  unfold Arguments.select
  split
  · exact h
  · exact h.put (fun n path hget => h.behind hget)

theorem Told.take? {word : String} {b : Arguments} (h : a.Told) (hword : isFlag word = false)
    (htake : a.take? flag word = some b) : b.Told := by
  unfold Arguments.take? at htake
  -- A word behind `--state` is the state; any other is an assignment.
  split at htake
  · obtain rfl := Option.some.inj htake
    refine ⟨fun s hs => ?_, h.names⟩
    obtain rfl := Option.some.inj hs
    exact hword
  · obtain ⟨⟨n, path⟩, hsplit, rfl⟩ := Option.map_eq_some_iff.1 htake
    refine h.put (fun m path' hget => ?_)
    rw [SortedMap.get?_insert] at hget
    split at hget
    · next heq => exact heq ▸ not_mem_of_split? hsplit
    · exact h.behind hget

/-- Reading on keeps the flags that have come. -/
theorem contains_take? {word : String} {b : Arguments} (htake : a.take? flag word = some b)
    {f : String} (hf : (a.files.get? f).isSome = true) : (b.files.get? f).isSome = true := by
  unfold take? at htake
  split at htake
  · obtain rfl := Option.some.inj htake
    exact hf
  · obtain ⟨e, -, rfl⟩ := Option.map_eq_some_iff.1 htake
    rw [get?_put]
    split
    · rfl
    · exact hf

theorem contains_select {f : String} (hf : (a.files.get? f).isSome = true) (flag : String) :
    ((a.select flag).files.get? f).isSome = true := by
  unfold select
  split
  · exact hf
  · rw [get?_put]
    split
    · rfl
    · exact hf

/-- What comes of reading on: names without `=`, the flags of before, and every argument that is
taken for a flag. -/
theorem of_readFrom {flag? : Option String} {words : List String} {b : Arguments} (h : a.Told)
    (hread : readFrom flag? a words = some b) :
    b.Told ∧ (∀ f, (a.files.get? f).isSome = true → (b.files.get? f).isSome = true) ∧
      ∀ word ∈ words, isFlag word = true → word ≠ "--state" →
        (b.files.get? word).isSome = true := by
  induction words generalizing a flag? with
  | nil =>
    obtain rfl := Option.some.inj hread
    exact ⟨h, fun f hf => hf, fun word hword => absurd hword List.not_mem_nil⟩
  | cons w words ih =>
    rw [readFrom.eq_def] at hread
    simp only at hread
    by_cases hw : isFlag w = true
    · rw [if_pos hw] at hread
      obtain ⟨htold, hflags, hwords⟩ := ih (h.select w) hread
      refine ⟨htold, fun f hf => hflags f (contains_select hf w), fun word hword hflag hne => ?_⟩
      rcases List.mem_cons.1 hword with rfl | hword
      · apply hflags
        rw [select, if_neg hne, get?_put, if_pos rfl]
        rfl
      · exact hwords word hword hflag hne
    · rw [if_neg hw] at hread
      -- An argument that is no flag adds none.
      have hothers : ∀ word ∈ w :: words, isFlag word = true → word ∈ words := by
        intro word hword hflag
        refine (List.mem_cons.1 hword).resolve_left (fun heq => hw (heq ▸ hflag))
      cases flag? with
      | none =>
        obtain ⟨htold, hflags, hwords⟩ := ih h hread
        exact ⟨htold, hflags, fun word hword hflag => hwords word (hothers word hword hflag) hflag⟩
      | some flag =>
        obtain ⟨c, htake, hrest⟩ := Option.bind_eq_some_iff.1 hread
        obtain ⟨htold, hflags, hwords⟩ := ih (h.take? (by simpa using hw) htake) hrest
        exact ⟨htold, fun f hf => hflags f (contains_take? htake hf),
          fun word hword hflag => hwords word (hothers word hword hflag) hflag⟩

variable {node : Node} {mode : Mode} {files : Invocation.Files}

/-- The flags of a command hold no `=`. -/
theorem not_mem_of_contains_ofNode {f : String}
    (hf : ((ofNode node mode files).files.get? f).isSome = true) : '=' ∉ f.toList := by
  rw [ofNode, SortedMap.isSome_get?_ofList_iff] at hf
  have hflag : f ∈ ["--input-schemas", "--input-instances", "--output-schemas",
      "--output-instances"] := by
    cases mode
    · simp [Mode.withInstances] at hf ⊢
      rcases hf with rfl | rfl <;> simp
    · simpa [Mode.withInstances] using hf
  simp only [List.mem_cons, List.not_mem_nil, or_false] at hflag
  rcases hflag with rfl | rfl | rfl | rfl <;> decide

theorem get?_filesUnder {n : String} (hn : n ∈ names) (file : String → Path) :
    ∃ path, (filesUnder names file).get? n = some path := by
  apply Option.isSome_iff_exists.1
  rw [filesUnder, SortedMap.isSome_get?_ofList_iff, List.map_map]
  exact List.mem_map.2 ⟨n, hn, rfl⟩

theorem mem_flagWords {n : String} (hn : n ∈ names) :
    n ++ "=" ++ file n ∈ Invocation.flagWords flag names file :=
  List.mem_cons_of_mem _ (List.mem_map_of_mem hn)

/-- The schemas of a command stand under the declared names. -/
theorem get?_ofNode (node : Node) (mode : Mode) (files : Invocation.Files) :
    (ofNode node mode files).files.get? "--input-schemas" =
      some (filesUnder node.inputNames files.inputSchema) ∧
    (ofNode node mode files).files.get? "--output-schemas" =
      some (filesUnder node.outputNames files.outputSchema) := by
  unfold ofNode
  cases mode <;> constructor <;>
    refine (SortedMap.get?_ofList_eq_some_iff ?_).2 ?_ <;> simp [Mode.withInstances]

/-- A program is told what it is to be told if and only if every name is clear and the state is not
taken for a flag. -/
theorem read_iff : read (ofCommand node mode files) = some (ofNode node mode files) ↔
    (∀ n ∈ node.inputNames, Clear n) ∧ (∀ n ∈ node.outputNames, Clear n) ∧
      isFlag files.state = false := by
  constructor
  · intro h
    have hempty : ({} : Arguments).Told := ⟨nofun, nofun⟩
    obtain ⟨htold, -, hflags⟩ := of_readFrom hempty h
    obtain ⟨hin, hout⟩ := get?_ofNode node mode files
    -- An assignment among the arguments is no flag, since the flags hold no `=`.
    have hassignment : ∀ n path, n ++ "=" ++ path ∈ ofCommand node mode files →
        isFlag n = false := by
      intro n path hmem
      by_contra hflag
      have hequals : '=' ∈ (n ++ "=" ++ path).toList := by simp
      refine not_mem_of_contains_ofNode (hflags _ hmem (by simpa using hflag) ?_) hequals
      intro heq
      rw [heq] at hequals
      exact absurd hequals (by decide)
    refine ⟨fun n hn => ⟨?_, ?_⟩, fun n hn => ⟨?_, ?_⟩, htold.state _ rfl⟩
    · apply hassignment n (files.inputSchema n)
      simp [ofCommand, mem_flagWords hn]
    · obtain ⟨path, hget⟩ := get?_filesUnder hn files.inputSchema
      exact htold.names _ _ hin n path hget
    · apply hassignment n (files.outputSchema n)
      simp [ofCommand, mem_flagWords hn]
    · obtain ⟨path, hget⟩ := get?_filesUnder hn files.outputSchema
      exact htold.names _ _ hout n path hget
  · intro ⟨hin, hout, hstate⟩
    exact read_ofCommand hstate hin hout

end Arguments

/-! ## The arguments of filled commands -/

/-- The files of a command are those that its ports are bound to. -/
structure Invocation.Files.Bound (files : Invocation.Files) (b : Binding) (id : NodeId)
    (node : Node) (mode : Mode) : Prop where
  state : b.path? .input (Naming.stateIn id) = some files.state
  inputSchemas : ∀ n ∈ node.inputNames,
    b.path? .input (Naming.schemaIn id n) = some (files.inputSchema n)
  inputInstances : mode.withInstances = true → ∀ n ∈ node.inputNames,
    b.path? .input (Naming.instanceIn id n) = some (files.inputInstance n)
  outputSchemas : ∀ n ∈ node.outputNames,
    b.path? .output (Naming.schemaOut id n) = some (files.outputSchema n)
  outputInstances : mode.withInstances = true → ∀ n ∈ node.outputNames,
    b.path? .output (Naming.instanceOut id n) = some (files.outputInstance n)

/-- If the holes of a command all have files, there are files that it is about. -/
theorem Invocation.exists_bound {b : Binding} {modules : BlockModules} {id : NodeId} {node : Node}
    {mode : Mode} (hmodules : modules.Unmarked)
    (hgiven : ∀ role name, (role, name) ∈ node.givenNames id → hasReserved name = false)
    (hun : node.Unmarked) (hfilled : Filled b (pieces (command modules id node mode).toList)) :
    ∃ files : Files, files.Bound b id node mode := by
  obtain ⟨hstate, hin, hin', hout, hout'⟩ := (filled_unmarked_iff hmodules hgiven hun).1 hfilled
  have hpath : ∀ {d : Direction} {port : String}, (b.path? d port).isSome = true →
      b.path? d port = some ((b.path? d port).getD "") := by
    intro d port hsome
    obtain ⟨path, heq⟩ := Option.isSome_iff_exists.1 hsome
    rw [heq, Option.getD_some]
  -- Where a port has no path its name is not used, so any text will do.
  refine ⟨{
    state := (b.path? .input (Naming.stateIn id)).getD ""
    inputSchema := fun n => (b.path? .input (Naming.schemaIn id n)).getD ""
    inputInstance := fun n => (b.path? .input (Naming.instanceIn id n)).getD ""
    outputSchema := fun n => (b.path? .output (Naming.schemaOut id n)).getD ""
    outputInstance := fun n => (b.path? .output (Naming.instanceOut id n)).getD "" }, ?_⟩
  exact {
    state := hpath hstate
    inputSchemas := fun n hn => hpath (hin n hn)
    inputInstances := fun hmode n hn => hpath (hin' hmode n hn)
    outputSchemas := fun n hn => hpath (hout n hn)
    outputInstances := fun hmode n hn => hpath (hout' hmode n hn) }

/-- Below an absolute directory, the state is not taken for a flag. -/
theorem Arguments.isFlag_statePath {out : Path} (hout : Path.isAbsolute out = true)
    (id : NodeId) (kind : String) : isFlag (Naming.statePath out id kind) = false := by
  have hslash : (Naming.statePath out id kind).toList.head? = some '/' := by
    have hout := of_decide_eq_true hout
    have hne : out.toList ≠ [] := fun hnil => by rw [hnil] at hout; cases hout
    unfold Naming.statePath Path.join
    split
    · next h => exact of_decide_eq_true h
    · split <;> simp [List.head?_append, hout]
  unfold isFlag
  cases hpath : (Naming.statePath out id kind).toList with
  | nil => rfl
  | cons c cs =>
    rw [hpath] at hslash
    obtain rfl := Option.some.inj hslash
    rfl

/-- If the engine can fill the command of a process task, a shell reads in it the interpreter, the
program and arguments for the files that the ports are bound to. The program can tell from these
arguments what it is to be told if and only if no declared name holds an `=` or is taken for a flag,
and neither is the path of the state, which is so in every absolute directory. -/
theorem arguments_read_iff {g : Graph} {mode : Mode} {config : Config} {out : Path}
    {tasks : TaskGraph Work} {plan : Plan} (hcompile : g.compile mode config out = .ok tasks)
    (hplan : tasks.plan = .ok plan) (hmodules : config.modules.Unmarked) {i : Nat}
    {t : Task Work} (ht : tasks.tasks[i]? = some t) (hrole : t.role = .process)
    (scratch : Path) (context : RunContext) {text : String}
    (hrender : (Execution.bindRun t (plan.inputs[i]?.getD ∅) scratch context).renderCommand =
      .ok text) :
    ∃ node files args, g.node? t.node = some node ∧
      files.Bound (Execution.bindRun t (plan.inputs[i]?.getD ∅) scratch context).binding t.node
        node mode ∧
      Shell.words text = some
        (config.modules.interpreter :: config.modules.programPath node.kind mode.name :: args) ∧
      (Arguments.read args = some (Arguments.ofNode node mode files) ↔
        (∀ n ∈ node.inputNames, Arguments.Clear n) ∧
          (∀ n ∈ node.outputNames, Arguments.Clear n) ∧ Arguments.isFlag files.state = false) ∧
      (Path.isAbsolute out = true → Arguments.isFlag files.state = false) := by
  obtain ⟨haccepted, rfl⟩ := Graph.of_compile hcompile
  have haccounts := TaskGraph.accounts_of_plan hplan
  obtain ⟨id, node, hnode, rfl | rfl⟩ := Graph.mem_tasks.1 (List.mem_of_getElem? ht)
  · cases hrole
  · have hgiven := haccepted.unreserved id node hnode
    have hfilled := TaskRun.isOk_renderCommand_iff.1 ⟨text, hrender⟩
    have hcommand : (Execution.bindRun (g.processTask mode config.modules out id node)
        (plan.inputs[i]?.getD ∅) scratch context).command =
          Invocation.command config.modules id node mode := rfl
    have hrender := TaskRun.render_of_renderCommand hrender
    rw [hcommand] at hfilled hrender
    have hun := (haccounts.within ht scratch context).unmarked_of_filled hmodules hgiven hfilled
    obtain ⟨files, hbound⟩ := Invocation.exists_bound hmodules hgiven hun hfilled
    have hwords := Says.words_of_render (Invocation.says_command hmodules hgiven hun hbound.state
      hbound.inputSchemas hbound.inputInstances hbound.outputSchemas hbound.outputInstances) hrender
    refine ⟨node, files, Arguments.ofCommand node mode files, hnode, hbound, hwords,
      Arguments.read_iff, fun hout => ?_⟩
    -- The state is read where the node's own state task publishes it.
    have hstate := bound_state haccepted rfl haccounts ht hnode
    have heq : files.state = Naming.statePath out id node.kind :=
      Option.some.inj (hbound.state.symm.trans hstate)
    rw [heq]
    exact Arguments.isFlag_statePath hout id node.kind

/-! ## Names with a flag or a sign -/

namespace SignedNames

/-- A node whose outputs have names that are taken for something else. -/
def writer : Node where
  kind := "k"
  outputs := SortedMap.ofList [("--x", []), ("y=z", [])]

/-- A node with clear names. -/
def reader : Node where
  kind := "k"
  inputs := SortedMap.ofList [("i", .null)]
  outputs := SortedMap.ofList [("o", [])]

/-- The second node reads an output of the first one. -/
def graph : Graph where
  nodes := SortedMap.ofList [("a", writer), ("b", reader)]
  edges := [⟨"a", "y=z", "b", "i"⟩]

def tasks : TaskGraph Work where
  name := "evaluate"
  mode := .evaluate
  maxConcurrency := 4
  tasks := graph.tasks .evaluate {} "/out"

theorem unmarked_modules : ({} : Config).modules.Unmarked :=
  ⟨by decide, by decide, by decide, by decide⟩

/-- The command of a node of the graph can be filled. -/
theorem exists_render {plan : Plan} (hplan : tasks.plan = .ok plan) {i : Nat} {id : NodeId}
    {node : Node} (hnode : graph.node? id = some node)
    (ht : tasks.tasks[i]? = some (graph.processTask .evaluate {} "/out" id node))
    (hwired : (graph.processTask .evaluate {} "/out" id node).inputPorts.values.all
      Option.isSome = true) (hun : node.Unmarked) (scratch : Path) (context : RunContext) :
    ∃ text, (Execution.bindRun (graph.processTask .evaluate {} "/out" id node)
      (plan.inputs[i]?.getD ∅) scratch context).renderCommand = .ok text := by
  have hcompile : graph.compile .evaluate {} "/out" = .ok tasks := rfl
  have hgiven := (Graph.of_compile hcompile).1.unreserved id node hnode
  have hdeclares := (TaskGraph.accounts_of_plan hplan).declares ht
    (fun port ref? hport => List.all_eq_true.1 hwired ref?
      (List.mem_map_of_mem (SortedMap.mem_toList.2 hport))) scratch context
  exact TaskRun.isOk_renderCommand_iff.2
    ((Invocation.filled_command_iff unmarked_modules hgiven hdeclares).2 hun)

end SignedNames

open SignedNames in
/-- Both commands of the graph are filled, but only the second program is told what it is to be
told. -/
theorem signedNames_read : SignedNames.graph.compile .evaluate {} "/out" = .ok SignedNames.tasks ∧
    ∃ plan, SignedNames.tasks.plan = .ok plan ∧ ∀ scratch context,
      (∃ text files args, (Execution.bindRun (graph.processTask .evaluate {} "/out" "a" writer)
          (plan.inputs[1]?.getD ∅) scratch context).renderCommand = .ok text ∧
        Shell.words text = some ("node" ::
          "node_modules/@underlay/pipeline-runtime/lib/k/evaluate.js" :: args) ∧
        files.Bound (Execution.bindRun (graph.processTask .evaluate {} "/out" "a" writer)
          (plan.inputs[1]?.getD ∅) scratch context).binding "a" writer .evaluate ∧
        Arguments.read args ≠ some (Arguments.ofNode writer .evaluate files)) ∧
      ∃ text files args, (Execution.bindRun (graph.processTask .evaluate {} "/out" "b" reader)
          (plan.inputs[3]?.getD ∅) scratch context).renderCommand = .ok text ∧
        Shell.words text = some ("node" ::
          "node_modules/@underlay/pipeline-runtime/lib/k/evaluate.js" :: args) ∧
        files.Bound (Execution.bindRun (graph.processTask .evaluate {} "/out" "b" reader)
          (plan.inputs[3]?.getD ∅) scratch context).binding "b" reader .evaluate ∧
        Arguments.read args = some (Arguments.ofNode reader .evaluate files) := by
  have hcompile : graph.compile .evaluate {} "/out" = .ok SignedNames.tasks := rfl
  obtain ⟨plan, hplan⟩ : ∃ plan, SignedNames.tasks.plan = .ok plan := ⟨_, rfl⟩
  refine ⟨hcompile, plan, hplan, fun scratch context => ⟨?_, ?_⟩⟩
  · have ht : SignedNames.tasks.tasks[1]? =
        some (graph.processTask .evaluate {} "/out" "a" writer) := rfl
    obtain ⟨text, hrender⟩ := exists_render hplan rfl ht (by decide +kernel)
      ⟨by decide, by decide, by decide⟩ scratch context
    obtain ⟨node, files, args, hnode, hbound, hwords, hread, -⟩ :=
      arguments_read_iff hcompile hplan unmarked_modules ht rfl scratch context hrender
    obtain rfl : writer = node := Option.some.inj hnode
    refine ⟨text, files, args, hrender, hwords, hbound, fun htold => ?_⟩
    obtain ⟨-, hout, -⟩ := hread.1 htold
    exact absurd (hout "y=z" (by decide)) (by decide)
  · have ht : SignedNames.tasks.tasks[3]? =
        some (graph.processTask .evaluate {} "/out" "b" reader) := rfl
    obtain ⟨text, hrender⟩ := exists_render hplan rfl ht (by decide +kernel)
      ⟨by decide, by decide, by decide⟩ scratch context
    obtain ⟨node, files, args, hnode, hbound, hwords, hread, hstate⟩ :=
      arguments_read_iff hcompile hplan unmarked_modules ht rfl scratch context hrender
    obtain rfl : reader = node := Option.some.inj hnode
    refine ⟨text, files, args, hrender, hwords, hbound, hread.2 ⟨by decide, by decide, ?_⟩⟩
    exact hstate (by decide)

end BlockFlow
