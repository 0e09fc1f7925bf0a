import BlockFlow.Proofs.Graph.Wiring
import BlockFlow.Proofs.Plan.Soundness
import BlockFlow.Proofs.Template.Words
import BlockFlow.Engine.Execution

/-!
# Filling the command of a block program

The command of a node has a hole for each port of its process task, so filling it works
out as long as no name brings a marker of its own. Reserved characters do not keep
markers out: the check refuses a closing brace in a name, but no opening one.

## Key results

- `Invocation.filled_command_iff`: the holes of a command all have files if and only if
  neither the kind nor the name of an input or output has a marker
- `command_rendered_iff`: so it is for the command of every task that the engine binds
- `markedKind_not_rendered`: an accepted graph with a command that cannot be filled
-/

namespace BlockFlow

open Template

/-- Neither the kind of a node nor the name of an input or output has a marker; the id,
which stands in holes only, may have one. -/
structure Node.Unmarked (n : Node) : Prop where
  kind : hasMarker n.kind.toList = false
  inputs : ∀ i ∈ n.inputNames, hasMarker i.toList = false
  outputs : ∀ o ∈ n.outputNames, hasMarker o.toList = false

/-- No part of a configuration that stands in commands has a marker. -/
structure BlockModules.Unmarked (m : BlockModules) : Prop where
  directory : hasMarker m.directory.toList = false
  package : hasMarker m.package.toList = false
  interpreter : hasMarker m.interpreter.toList = false
  extension : hasMarker m.extension.toList = false

/-! ## The path of a program -/

theorem hasMarker_join {a b : Path} (ha : hasMarker a.toList = false)
    (hb : hasMarker b.toList = false) : hasMarker (Path.join a b).toList = false := by
  unfold Path.join
  split
  · exact hb
  · split
    · next h =>
      rw [Bool.or_eq_true, decide_eq_true_eq] at h
      rcases h with rfl | h
      · simpa using hb
      · -- The slash at the end of `a` is a seam.
        obtain ⟨front, hfront⟩ := List.getLast?_eq_some_iff.1 (of_decide_eq_true h)
        rw [String.toList_append, hfront, List.append_assoc, List.singleton_append,
          hasMarker_seam rfl, hb, Bool.or_false]
        rw [hfront, hasMarker_seam rfl, Bool.or_eq_false_iff] at ha
        exact ha.1
    · rw [String.toList_append, String.toList_append, List.append_assoc]
      show hasMarker (a.toList ++ '/' :: b.toList) = false
      rw [hasMarker_seam rfl, ha, hb]
      rfl

namespace BlockModules

variable {m : BlockModules} {kind : String}

theorem hasMarker_programPath (hm : m.Unmarked) (hkind : hasMarker kind.toList = false)
    (mode : Mode) : hasMarker (m.programPath kind mode.name).toList = false := by
  refine hasMarker_join (hasMarker_join (hasMarker_join hm.directory hm.package) hkind) ?_
  rw [String.toList_append, String.toList_append, List.append_assoc]
  show hasMarker (mode.name.toList ++ '.' :: m.extension.toList) = false
  rw [hasMarker_seam rfl, hm.extension]
  cases mode <;> decide

theorem isAbsolute_programName (mode : Mode) (extension : String) :
    Path.isAbsolute (mode.name ++ "." ++ extension) = false := by
  cases mode <;> simp [Path.isAbsolute, Mode.name]

/-- In front of a kind with a marker stands a text without one, which is empty or ends
with a slash; behind it stands a slash. -/
theorem toList_programPath (hm : m.Unmarked) (hkind : hasMarker kind.toList = true)
    (hslash : '/' ∉ kind.toList) (mode : Mode) :
    ∃ front rest, (m.programPath kind mode.name).toList = front ++ kind.toList ++ '/' :: rest ∧
      hasMarker front = false ∧ (front = [] ∨ ∃ f, front = f ++ ['/']) := by
  have hne : kind.toList ≠ [] := fun h => by rw [h] at hkind; cases hkind
  have habs : Path.isAbsolute kind = false := by
    rw [Path.isAbsolute, decide_eq_false_iff_not]
    exact fun h => hslash (List.mem_of_mem_head? h)
  obtain ⟨front, hmodule, hfront, hend⟩ : ∃ front,
      (m.modulePath kind).toList = front ++ kind.toList ∧ hasMarker front = false ∧
        (front = [] ∨ ∃ f, front = f ++ ['/']) := by
    have hpackage : hasMarker m.packagePath.toList = false :=
      hasMarker_join hm.directory hm.package
    unfold modulePath Path.join
    rw [habs, if_neg Bool.false_ne_true]
    split
    · next h =>
      rw [Bool.or_eq_true, decide_eq_true_eq] at h
      refine ⟨_, String.toList_append, hpackage, ?_⟩
      rcases h with h | h
      · exact .inl (by rw [h]; rfl)
      · obtain ⟨f, hf⟩ := List.getLast?_eq_some_iff.1 (of_decide_eq_true h)
        exact .inr ⟨f, hf⟩
    · refine ⟨m.packagePath.toList ++ ['/'], ?_, ?_, .inr ⟨_, rfl⟩⟩
      · rw [String.toList_append, String.toList_append]
        rfl
      · rw [hasMarker_seam rfl, hpackage]
        rfl
  -- The path of the module ends with the kind, so a slash is put behind it.
  have hopen : (m.modulePath kind = "" || Path.endsWithSlash (m.modulePath kind)) = false := by
    rw [Bool.or_eq_false_iff, decide_eq_false_iff_not, Path.endsWithSlash,
      decide_eq_false_iff_not, hmodule, List.getLast?_append_of_ne_nil _ hne]
    refine ⟨fun h => ?_, fun h => hslash (List.mem_of_getLast? h)⟩
    rw [h] at hmodule
    exact hne (List.append_eq_nil_iff.1 hmodule.symm).2
  refine ⟨front, (mode.name ++ "." ++ m.extension).toList, ?_, hfront, hend⟩
  rw [programPath, Path.join, isAbsolute_programName, if_neg Bool.false_ne_true, hopen,
    if_neg Bool.false_ne_true, String.toList_append, String.toList_append, hmodule,
    List.append_assoc]
  rfl

end BlockModules

/-! ## The holes of a command -/

namespace Invocation

theorem toList_inputPlaceholder (port : String) :
    (Naming.inputPlaceholder port).toList = holeText .input port.toList := by
  simp [Naming.inputPlaceholder, holeText, Direction.letter]

theorem toList_outputPlaceholder (port : String) :
    (Naming.outputPlaceholder port).toList = holeText .output port.toList := by
  simp [Naming.outputPlaceholder, holeText, Direction.letter]

variable {d : Direction} {text : String} {names : List String} {port : String → String}
  {placeholder : String → String}

theorem toList_flag
    (hplaceholder : ∀ n, (placeholder n).toList = holeText d (port n).toList) :
    (flag text names placeholder).toList =
      [' '].intercalate (text.toList ::
        names.map (fun n => assignmentChars d n (port n).toList)) := by
  rw [flag, String.toList_intercalate, List.map_cons, List.map_map]
  congr 2
  refine List.map_congr_left (fun n _ => ?_)
  simp [assignment, assignmentChars, hplaceholder]

private theorem whole_flag_words (htext : hasMarker text.toList = false)
    (hnames : ∀ n ∈ names, '}' ∉ n.toList ∧ '}' ∉ (port n).toList) :
    ∀ w ∈ text.toList :: names.map (fun n => assignmentChars d n (port n).toList), Whole w := by
  intro w hw
  rcases List.mem_cons.1 hw with rfl | hw
  · exact whole_of_unmarked htext
  · obtain ⟨n, hn, rfl⟩ := List.mem_map.1 hw
    exact whole_assignmentChars (hnames n hn).1 (hnames n hn).2

/-- The holes of a flag are those of its assignments, whatever follows after a blank. -/
theorem flag_holes (text : String) (htext : hasMarker text.toList = false)
    (hplaceholder : ∀ n, (placeholder n).toList = holeText d (port n).toList)
    (hnames : ∀ n ∈ names, '}' ∉ n.toList ∧ '}' ∉ (port n).toList) (b : Binding) :
    Whole (flag text names placeholder).toList ∧
      (Filled b (pieces (flag text names placeholder).toList) ↔
        ∀ n ∈ names, Filled b (pieces (assignmentChars d n (port n).toList))) := by
  have hwords := whole_flag_words (d := d) htext hnames
  rw [toList_flag hplaceholder]
  refine ⟨whole_intercalate hwords, ?_⟩
  rw [filled_intercalate hwords, List.forall_mem_cons, List.forall_mem_map,
    pieces_of_unmarked htext]
  exact and_iff_right (filled_plain b _)

/-- The holes of the part with the state. -/
private theorem pieces_state {id : NodeId} (hid : '}' ∉ id.toList) (rest : List Char) :
    pieces (("--state " ++ Naming.inputPlaceholder (Naming.stateIn id)).toList ++ rest) =
      "--state ".toList.map .plain ++
        .hole .input (Naming.stateIn id).toList :: pieces rest := by
  have hport : '}' ∉ (Naming.stateIn id).toList := by simp [Naming.stateIn, hid]
  rw [String.toList_append, toList_inputPlaceholder]
  have htext : ("--state ".toList ++ holeText .input (Naming.stateIn id).toList) ++ rest =
      "--state".toList ++ ' ' :: (markerChars .input ++
        ((Naming.stateIn id).toList ++ '}' :: rest)) := by
    simp [holeText, markerChars]
  rw [htext, pieces_seam rfl (by decide), pieces_marker hport]
  rfl

private theorem whole_state {id : NodeId} (hid : '}' ∉ id.toList) :
    Whole ("--state " ++ Naming.inputPlaceholder (Naming.stateIn id)).toList := by
  intro rest
  have hnil := pieces_state hid []
  rw [List.append_nil] at hnil
  rw [pieces_state hid, hnil, pieces_blank, pieces]
  simp

private theorem filled_state {b : Binding} {id : NodeId} (hid : '}' ∉ id.toList) :
    Filled b (pieces ("--state " ++ Naming.inputPlaceholder (Naming.stateIn id)).toList) ↔
      (b.path? .input (Naming.stateIn id)).isSome = true := by
  have hnil := pieces_state hid []
  rw [List.append_nil] at hnil
  rw [hnil, filled_append, filled_hole, pieces, String.ofList_toList]
  exact ⟨fun h => h.2.1, fun h => ⟨filled_plain _ _, h, filled_nil b⟩⟩

variable {id : NodeId} {node : Node} {modules : BlockModules} {mode : Mode}

/-- With a kind without markers, the holes of a command are those of the state and of
the assignments. -/
theorem filled_command {b : Binding} (hmodules : modules.Unmarked)
    (hkind : hasMarker node.kind.toList = false) (hid : '}' ∉ id.toList)
    (hinputs : ∀ n ∈ node.inputNames, '}' ∉ n.toList)
    (houtputs : ∀ n ∈ node.outputNames, '}' ∉ n.toList) :
    Filled b (pieces (command modules id node mode).toList) ↔
      (b.path? .input (Naming.stateIn id)).isSome = true ∧
      (∀ n ∈ node.inputNames,
        Filled b (pieces (assignmentChars .input n (Naming.schemaIn id n).toList))) ∧
      (mode.withInstances = true → ∀ n ∈ node.inputNames,
        Filled b (pieces (assignmentChars .input n (Naming.instanceIn id n).toList))) ∧
      (∀ n ∈ node.outputNames,
        Filled b (pieces (assignmentChars .output n (Naming.schemaOut id n).toList))) ∧
      (mode.withInstances = true → ∀ n ∈ node.outputNames,
        Filled b (pieces (assignmentChars .output n (Naming.instanceOut id n).toList))) := by
  have hinterpreter : hasMarker (Shell.quote modules.interpreter).toList = false := by
    rw [hasMarker_quote]; exact hmodules.interpreter
  have hprogram : hasMarker (Shell.quote (modules.programPath node.kind mode.name)).toList =
      false := by
    rw [hasMarker_quote]; exact BlockModules.hasMarker_programPath hmodules hkind mode
  have hschemaIn : ∀ n ∈ node.inputNames, '}' ∉ n.toList ∧
      '}' ∉ (Naming.schemaIn id n).toList := fun n hn => by
    simp [Naming.schemaIn, hid, hinputs n hn]
  have hinstanceIn : ∀ n ∈ node.inputNames, '}' ∉ n.toList ∧
      '}' ∉ (Naming.instanceIn id n).toList := fun n hn => by
    simp [Naming.instanceIn, hid, hinputs n hn]
  have hschemaOut : ∀ n ∈ node.outputNames, '}' ∉ n.toList ∧
      '}' ∉ (Naming.schemaOut id n).toList := fun n hn => by
    simp [Naming.schemaOut, hid, houtputs n hn]
  have hinstanceOut : ∀ n ∈ node.outputNames, '}' ∉ n.toList ∧
      '}' ∉ (Naming.instanceOut id n).toList := fun n hn => by
    simp [Naming.instanceOut, hid, houtputs n hn]
  have hin := fun (f : String → String) n => toList_inputPlaceholder (f n)
  have hout := fun (f : String → String) n => toList_outputPlaceholder (f n)
  -- Each flag is whole, and is filled if and only if its assignments are.
  obtain ⟨whole₁, filled₁⟩ :=
    flag_holes "--input-schemas" (by decide) (hin _) hschemaIn b
  obtain ⟨whole₂, filled₂⟩ :=
    flag_holes "--input-instances" (by decide) (hin _) hinstanceIn b
  obtain ⟨whole₃, filled₃⟩ :=
    flag_holes "--output-schemas" (by decide) (hout _) hschemaOut b
  obtain ⟨whole₄, filled₄⟩ :=
    flag_holes "--output-instances" (by decide) (hout _) hinstanceOut b
  have hblank : " ".toList = [' '] := rfl
  rw [command, String.toList_intercalate, hblank, filled_intercalate, List.forall_mem_map]
  · cases mode with
    | validate =>
      simp [-String.toList_append, parts, Mode.withInstances, filled_state hid, filled₁,
        filled₃, pieces_of_unmarked hinterpreter, pieces_of_unmarked hprogram, filled_plain]
    | evaluate =>
      simp [-String.toList_append, parts, Mode.withInstances, filled_state hid, filled₁,
        filled₂, filled₃, filled₄, pieces_of_unmarked hinterpreter,
        pieces_of_unmarked hprogram, filled_plain]
  · -- No part of the command cuts a hole in two.
    rw [List.forall_mem_map]
    have hstate := whole_state hid
    have h₁ := whole_of_unmarked hinterpreter
    have h₂ := whole_of_unmarked hprogram
    cases mode with
    | validate =>
      simp [-String.toList_append, parts, Mode.withInstances, h₁, h₂, hstate, whole₁, whole₃]
    | evaluate =>
      simp [-String.toList_append, parts, Mode.withInstances, h₁, h₂, hstate, whole₁, whole₂,
        whole₃, whole₄]

private theorem flatMap_quoteChar_slash (cs : List Char) :
    ('/' :: cs).flatMap Shell.quoteChar = '/' :: cs.flatMap Shell.quoteChar := rfl

/-- A marker in the kind takes over the hole for the state, together with the slash
behind the kind. -/
theorem hole_of_marked_kind (id : NodeId) (mode : Mode) (hmodules : modules.Unmarked)
    (hkind : hasMarker node.kind.toList = true) (hslash : '/' ∉ node.kind.toList)
    (hbrace : '}' ∉ node.kind.toList) :
    ∃ d port, .hole d port ∈ pieces (command modules id node mode).toList ∧ '/' ∈ port := by
  have hinterpreter : hasMarker (Shell.quote modules.interpreter).toList = false := by
    rw [hasMarker_quote]; exact hmodules.interpreter
  obtain ⟨front, rest, hpath, hfront, hend⟩ :=
    BlockModules.toList_programPath hmodules hkind hslash mode
  have hmarked : hasMarker (modules.programPath node.kind mode.name).toList = true := by
    obtain ⟨a, d, b, hk⟩ := hasMarker_iff.1 hkind
    exact hasMarker_iff.2 ⟨front ++ a, d, b ++ '/' :: rest, by rw [hpath, hk]; simp⟩
  -- The command: the interpreter, the path up to the kind, the kind, and the others.
  obtain ⟨more, hcommand, hmore⟩ : ∃ more, (command modules id node mode).toList =
      (Shell.quote modules.interpreter).toList ++ ' ' ::
        ('\'' :: front.flatMap Shell.quoteChar ++
          (node.kind.toList.flatMap Shell.quoteChar ++ '/' :: more)) ∧ '}' ∈ more := by
    have hquoted := quote_of_hasMarker hmarked
    rw [hpath, List.flatMap_append, List.flatMap_append, flatMap_quoteChar_slash] at hquoted
    refine ⟨rest.flatMap Shell.quoteChar ++ '\'' :: ' ' :: [' '].intercalate
      (((parts modules id node mode).drop 2).map String.toList), ?_, ?_⟩
    · rw [command, String.toList_intercalate]
      simp [parts, hquoted]
    · refine List.mem_append_right _ (List.mem_cons_of_mem _ (List.mem_cons_of_mem _ ?_))
      simp [parts, toList_inputPlaceholder, holeText]
  -- Right before the kind stands a seam: the opening quote, or a slash of the path.
  obtain ⟨a, c, hopen, hc, ha⟩ : ∃ a c, '\'' :: front.flatMap Shell.quoteChar = a ++ [c] ∧
      isSeam c = true ∧ hasMarker a = false := by
    rcases hend with rfl | ⟨f, rfl⟩
    · exact ⟨[], '\'', rfl, rfl, rfl⟩
    · refine ⟨'\'' :: f.flatMap Shell.quoteChar, '/', by simp [Shell.quoteChar], rfl, ?_⟩
      rw [hasMarker_seam rfl, Bool.or_eq_false_iff] at hfront
      show hasMarker ([] ++ '\'' :: f.flatMap Shell.quoteChar) = false
      rw [hasMarker_seam rfl, hasMarker_flatMap_quoteChar, hfront.1]
      rfl
  -- The brace that closes the hole is the next one, and the slash stands before it.
  obtain ⟨before, after, rfl, hbefore⟩ := List.eq_append_cons_of_mem hmore
  have hkind' : hasMarker (node.kind.toList.flatMap Shell.quoteChar) = true := by
    rwa [hasMarker_flatMap_quoteChar]
  obtain ⟨x, d, u, -, hpieces⟩ :=
    pieces_marked hkind' (by rwa [mem_flatMap_quoteChar (by decide)])
  refine ⟨d, u ++ '/' :: before, ?_, List.mem_append_right _ List.mem_cons_self⟩
  rw [hcommand, pieces_seam rfl hinterpreter, hopen, List.append_assoc, List.singleton_append,
    pieces_seam hc ha]
  have hhole := hpieces ('/' :: before) after (by simpa using hbefore)
  rw [List.cons_append] at hhole
  rw [hhole]
  simp

variable {b : Binding}

/-- No file is bound but those of the declared ports. -/
structure Within (b : Binding) (id : NodeId) (node : Node) (mode : Mode) : Prop where
  inputs : ∀ p, (b.path? .input p).isSome = true → p = Naming.stateIn id ∨
    ∃ n ∈ node.inputNames, p = Naming.schemaIn id n ∨
      mode.withInstances = true ∧ p = Naming.instanceIn id n
  outputs : ∀ p, (b.path? .output p).isSome = true →
    ∃ n ∈ node.outputNames, p = Naming.schemaOut id n ∨
      mode.withInstances = true ∧ p = Naming.instanceOut id n

/-- The files that are bound are those of the declared ports. -/
structure Declares (b : Binding) (id : NodeId) (node : Node) (mode : Mode) : Prop where
  inputs : ∀ p, (b.path? .input p).isSome = true ↔ p = Naming.stateIn id ∨
    ∃ n ∈ node.inputNames, p = Naming.schemaIn id n ∨
      mode.withInstances = true ∧ p = Naming.instanceIn id n
  outputs : ∀ p, (b.path? .output p).isSome = true ↔
    ∃ n ∈ node.outputNames, p = Naming.schemaOut id n ∨
      mode.withInstances = true ∧ p = Naming.instanceOut id n

theorem Declares.within (h : Declares b id node mode) : Within b id node mode :=
  ⟨fun p => (h.inputs p).1, fun p => (h.outputs p).1⟩

/-- Whatever the direction, a port with a file is one of the declared ones. -/
theorem Within.port_cases (h : Within b id node mode) {d : Direction} {p : String}
    (hp : (b.path? d p).isSome = true) : p = Naming.stateIn id ∨
      (∃ n ∈ node.inputNames, p = Naming.schemaIn id n ∨ p = Naming.instanceIn id n) ∨
      ∃ n ∈ node.outputNames, p = Naming.schemaOut id n ∨ p = Naming.instanceOut id n := by
  cases d with
  | input =>
    exact (h.inputs p hp).imp_right fun ⟨n, hn, hcase⟩ => .inl ⟨n, hn, hcase.imp_right And.right⟩
  | output =>
    obtain ⟨n, hn, hcase⟩ := h.outputs p hp
    exact .inr (.inr ⟨n, hn, hcase.imp_right And.right⟩)

/-- No declared port has a slash in its name. -/
theorem Within.no_slash (h : Within b id node mode)
    (hgiven : ∀ role name, (role, name) ∈ node.givenNames id → hasReserved name = false)
    {d : Direction} {p : String} (hp : (b.path? d p).isSome = true) : '/' ∉ p.toList := by
  have hno := fun role name hmem =>
    Graph.not_mem_of_unreserved (c := '/') (hgiven role name hmem) rfl
  have hid := hno .nodeId id (by simp [Node.givenNames])
  have hin := fun n (hn : n ∈ node.inputNames) => hno .input n (by simp [Node.givenNames, hn])
  have hout := fun n (hn : n ∈ node.outputNames) => hno .output n (by simp [Node.givenNames, hn])
  rcases h.port_cases hp with rfl | ⟨n, hn, rfl | rfl⟩ | ⟨n, hn, rfl | rfl⟩
  · simp [Naming.stateIn, hid]
  · simp [Naming.schemaIn, hid, hin n hn]
  · simp [Naming.instanceIn, hid, hin n hn]
  · simp [Naming.schemaOut, hid, hout n hn]
  · simp [Naming.instanceOut, hid, hout n hn]

/-- A port with the ending of input schemas is the port of an input's schema. -/
theorem Within.of_schemaIn (h : Within b id node mode) (d : Direction) (u : List Char)
    (hp : (b.path? d (String.ofList (u ++ ".input.schema".toList))).isSome = true) :
    ∃ n ∈ node.inputNames, u = (id.toList ++ ['-']) ++ n.toList := by
  -- Read from the end, the names of other ports differ at once.
  rcases h.port_cases hp with heq | ⟨n, hn, heq | heq⟩ | ⟨n, hn, heq | heq⟩ <;>
    replace heq := congrArg (fun s => s.toList.reverse) heq
  · simp [Naming.stateIn] at heq
  · refine ⟨n, hn, List.reverse_injective ?_⟩
    simpa [Naming.schemaIn] using heq
  · simp [Naming.instanceIn] at heq
  · simp [Naming.schemaOut] at heq
  · simp [Naming.instanceOut] at heq

/-- A port with the ending of output schemas is the port of an output's schema. -/
theorem Within.of_schemaOut (h : Within b id node mode) (d : Direction) (u : List Char)
    (hp : (b.path? d (String.ofList (u ++ ".output.schema".toList))).isSome = true) :
    ∃ n ∈ node.outputNames, u = (id.toList ++ ['-']) ++ n.toList := by
  rcases h.port_cases hp with heq | ⟨n, hn, heq | heq⟩ | ⟨n, hn, heq | heq⟩ <;>
    replace heq := congrArg (fun s => s.toList.reverse) heq
  · simp [Naming.stateIn] at heq
  · simp [Naming.schemaIn] at heq
  · simp [Naming.instanceIn] at heq
  · refine ⟨n, hn, List.reverse_injective ?_⟩
    simpa [Naming.schemaOut] using heq
  · simp [Naming.instanceOut] at heq

/-- Names without reserved characters have no closing brace. -/
theorem no_brace
    (hgiven : ∀ role name, (role, name) ∈ node.givenNames id → hasReserved name = false) :
    '}' ∉ id.toList ∧ (∀ n ∈ node.inputNames, '}' ∉ n.toList) ∧
      ∀ n ∈ node.outputNames, '}' ∉ n.toList := by
  have hno := fun role name hmem =>
    Graph.not_mem_of_unreserved (c := '}') (hgiven role name hmem) rfl
  exact ⟨hno .nodeId id (by simp [Node.givenNames]),
    fun n hn => hno .input n (by simp [Node.givenNames, hn]),
    fun n hn => hno .output n (by simp [Node.givenNames, hn])⟩

/-- If no file is bound but those of the declared ports, the holes of a command have files only
where no marker comes from elsewhere. -/
theorem Within.unmarked_of_filled (hmodules : modules.Unmarked)
    (hgiven : ∀ role name, (role, name) ∈ node.givenNames id → hasReserved name = false)
    (h : Within b id node mode)
    (hfilled : Filled b (pieces (command modules id node mode).toList)) : node.Unmarked := by
  obtain ⟨hid, hin, hout⟩ := no_brace hgiven
  have hkindMem : (NameRole.nodeKind, node.kind) ∈ node.givenNames id := by
    simp [Node.givenNames]
  have hkindNo := fun c hc =>
    Graph.not_mem_of_unreserved (c := c) (hgiven _ _ hkindMem) hc
  cases hkind : hasMarker node.kind.toList with
  | true =>
    obtain ⟨d, port, hhole, hslash⟩ := hole_of_marked_kind id mode hmodules
      hkind (hkindNo '/' rfl) (hkindNo '}' rfl)
    -- The marker in the kind swallows a slash, and no port has one.
    have hport := h.no_slash hgiven (hfilled d port hhole)
    rw [String.toList_ofList] at hport
    exact absurd hslash hport
  | false =>
    rw [filled_command hmodules hkind hid hin hout] at hfilled
    obtain ⟨-, hinputs, -, houtputs, -⟩ := hfilled
    have hstem : '}' ∉ id.toList ++ ['-'] := by simpa using hid
    refine ⟨hkind, fun i hi => ?_, fun o ho => ?_⟩
    · by_contra hmarker
      obtain ⟨n, hn, hunfilled⟩ := exists_unfilled (d := .input) (b := b) h.of_schemaIn hin
        hstem (by decide) hi (by simpa using hmarker)
      refine hunfilled ?_
      have := hinputs n hn
      simpa [Naming.schemaIn] using this
    · by_contra hmarker
      obtain ⟨n, hn, hunfilled⟩ := exists_unfilled (d := .output) (b := b) h.of_schemaOut hout
        hstem (by decide) ho (by simpa using hmarker)
      refine hunfilled ?_
      have := houtputs n hn
      simpa [Naming.schemaOut] using this

/-- Where no marker comes from elsewhere, the holes of a command are the declared ports. -/
theorem filled_unmarked_iff (hmodules : modules.Unmarked)
    (hgiven : ∀ role name, (role, name) ∈ node.givenNames id → hasReserved name = false)
    (hun : node.Unmarked) :
    Filled b (pieces (command modules id node mode).toList) ↔
      (b.path? .input (Naming.stateIn id)).isSome = true ∧
      (∀ n ∈ node.inputNames, (b.path? .input (Naming.schemaIn id n)).isSome = true) ∧
      (mode.withInstances = true → ∀ n ∈ node.inputNames,
        (b.path? .input (Naming.instanceIn id n)).isSome = true) ∧
      (∀ n ∈ node.outputNames, (b.path? .output (Naming.schemaOut id n)).isSome = true) ∧
      (mode.withInstances = true → ∀ n ∈ node.outputNames,
        (b.path? .output (Naming.instanceOut id n)).isSome = true) := by
  obtain ⟨hid, hin, hout⟩ := no_brace hgiven
  rw [filled_command hmodules hun.kind hid hin hout]
  refine and_congr_right fun _ => and_congr (forall₂_congr fun n hn => ?_)
    (and_congr (forall₃_congr fun _ n hn => ?_)
      (and_congr (forall₂_congr fun n hn => ?_) (forall₃_congr fun _ n hn => ?_)))
  · rw [filled_assignment_of_unmarked (hun.inputs n hn)
      (by simp [Naming.schemaIn, hid, hin n hn]), String.ofList_toList]
  · rw [filled_assignment_of_unmarked (hun.inputs n hn)
      (by simp [Naming.instanceIn, hid, hin n hn]), String.ofList_toList]
  · rw [filled_assignment_of_unmarked (hun.outputs n hn)
      (by simp [Naming.schemaOut, hid, hout n hn]), String.ofList_toList]
  · rw [filled_assignment_of_unmarked (hun.outputs n hn)
      (by simp [Naming.instanceOut, hid, hout n hn]), String.ofList_toList]

/-- The holes of a command all have files if and only if no marker comes from elsewhere,
where the files are those of the declared ports. -/
theorem filled_command_iff (hmodules : modules.Unmarked)
    (hgiven : ∀ role name, (role, name) ∈ node.givenNames id → hasReserved name = false)
    (h : Declares b id node mode) :
    Filled b (pieces (command modules id node mode).toList) ↔ node.Unmarked := by
  refine ⟨h.within.unmarked_of_filled hmodules hgiven, fun hun => ?_⟩
  rw [filled_unmarked_iff hmodules hgiven hun]
  exact ⟨(h.inputs _).2 (.inl rfl), fun n hn => (h.inputs _).2 (.inr ⟨n, hn, .inl rfl⟩),
    fun hinst n hn => (h.inputs _).2 (.inr ⟨n, hn, .inr ⟨hinst, rfl⟩⟩),
    fun n hn => (h.outputs _).2 ⟨n, hn, .inl rfl⟩,
    fun hinst n hn => (h.outputs _).2 ⟨n, hn, .inr ⟨hinst, rfl⟩⟩⟩

end Invocation

/-! ## The tasks of a graph -/

namespace Graph

variable (g : Graph) (mode : Mode) (modules : BlockModules) (out : Path) (id : NodeId)
  (node : Node)

theorem isSome_inputPorts (p : String) :
    ((g.processTask mode modules out id node).inputPorts.get? p).isSome = true ↔
      p = Naming.stateIn id ∨ ∃ n ∈ node.inputNames, p = Naming.schemaIn id n ∨
        mode.withInstances = true ∧ p = Naming.instanceIn id n := by
  rw [processTask, SortedMap.isSome_get?_ofList_iff, List.map_cons, List.mem_cons, map_portsFor,
    mem_portsFor]

theorem isSome_outputPorts (p : String) :
    ((g.processTask mode modules out id node).outputPorts.get? p).isSome = true ↔
      ∃ n ∈ node.outputNames, p = Naming.schemaOut id n ∨
        mode.withInstances = true ∧ p = Naming.instanceOut id n := by
  rw [processTask, SortedMap.isSome_get?_ofList_iff, map_portsFor, mem_portsFor]

end Graph

theorem TaskRun.isOk_renderCommand_iff {run : TaskRun} :
    (∃ command, run.renderCommand = .ok command) ↔
      Filled run.binding (pieces run.command.toList) := by
  rw [← isOk_render_iff, renderCommand]
  cases hrender : Template.render run.binding run.command with
  | ok text => simp
  | error e => simp

/-- A task of which every input port is wired is bound to a file at each of its ports. -/
theorem Plan.Accounts.declares {g : Graph} {mode : Mode} {modules : BlockModules} {out : Path}
    {id : NodeId} {node : Node} {tasks : TaskGraph Work} {plan : Plan} (h : plan.Accounts tasks)
    {i : Nat} (hi : tasks.tasks[i]? = some (g.processTask mode modules out id node))
    (hwired : ∀ port ref?,
      (g.processTask mode modules out id node).inputPorts.get? port = some ref? →
        ref?.isSome = true) (scratch : Path) (context : RunContext) :
    Invocation.Declares (Execution.bindRun (g.processTask mode modules out id node)
      (plan.inputs[i]?.getD ∅) scratch context).binding id node mode := by
  refine ⟨fun p => ?_, fun p => ?_⟩
  · rw [← Graph.isSome_inputPorts g mode modules out id node p]
    show ((plan.inputs[i]?.getD ∅).get? p).join.isSome = true ↔ _
    rw [h.inputs i _ hi p]
    cases hport : (g.processTask mode modules out id node).inputPorts.get? p with
    | none => exact Iff.rfl
    | some ref? =>
      obtain ⟨ref, rfl⟩ := Option.isSome_iff_exists.1 (hwired p ref? hport)
      obtain ⟨source, hsource⟩ := Option.isSome_iff_exists.1 (h.resolved i _ p ref hi hport)
      simp [hsource]
  · rw [← Graph.isSome_outputPorts g mode modules out id node p]
    show ((SortedMap.mapWithKey _ _).get? p).isSome = true ↔ _
    rw [SortedMap.get?_mapWithKey, Option.isSome_map]

/-- The command of a process task all of whose ports are wired can be filled if and only
if neither the kind of its node nor the name of an input or output has a marker. The
check of a graph refuses a closing brace in these, but no marker. -/
theorem command_rendered_iff {g : Graph} {mode : Mode} {config : Config} {out : Path}
    {tasks : TaskGraph Work} {plan : Plan} (hcompile : g.compile mode config out = .ok tasks)
    (hplan : tasks.plan = .ok plan) (hmodules : config.modules.Unmarked) {i : Nat}
    {t : Task Work} (ht : tasks.tasks[i]? = some t) (hrole : t.role = .process)
    (hwired : ∀ port ref?, t.inputPorts.get? port = some ref? → ref?.isSome = true)
    (scratch : Path) (context : RunContext) :
    ∃ node, g.node? t.node = some node ∧
      ((∃ command, (Execution.bindRun t (plan.inputs[i]?.getD ∅) scratch context).renderCommand =
        .ok command) ↔ node.Unmarked) := by
  obtain ⟨haccepted, rfl⟩ := Graph.of_compile hcompile
  obtain ⟨id, node, hnode, rfl | rfl⟩ := Graph.mem_tasks.1 (List.mem_of_getElem? ht)
  · cases hrole
  · refine ⟨node, hnode, ?_⟩
    have hdeclares := (TaskGraph.accounts_of_plan hplan).declares ht hwired scratch context
    have hiff := Invocation.filled_command_iff hmodules (haccepted.unreserved id node hnode)
      hdeclares
    have hcommand : (Execution.bindRun (g.processTask mode config.modules out id node)
        (plan.inputs[i]?.getD ∅) scratch context).command =
          Invocation.command config.modules id node mode := rfl
    rw [TaskRun.isOk_renderCommand_iff, hcommand]
    exact hiff

/-! ## A kind with a marker -/

namespace MarkedKind

/-- Two nodes, of which the second one reads an output of the first one and has a marker in
its kind. -/
def graph : Graph where
  nodes := SortedMap.ofList [
    ("a", { kind := "k", outputs := SortedMap.ofList [("o", [])] }),
    ("b", { kind := "\x7bi:k", inputs := SortedMap.ofList [("x", .null)] })]
  edges := [⟨"a", "o", "b", "x"⟩]

def tasks : TaskGraph Work where
  name := "validate"
  mode := .validate
  maxConcurrency := 4
  tasks := graph.tasks .validate {} "/out"

theorem unmarked_modules : ({} : Config).modules.Unmarked :=
  ⟨by decide, by decide, by decide, by decide⟩

/-- Whether a process task at a position has no port that nothing feeds. -/
def isWired (i : Nat) : Bool :=
  tasks.tasks[i]?.any (fun t => t.role = .process && t.inputPorts.values.all Option.isSome)

theorem wired_of_isWired {i : Nat} (h : isWired i = true) : ∃ t, tasks.tasks[i]? = some t ∧
    t.role = .process ∧
      ∀ port ref?, t.inputPorts.get? port = some ref? → ref?.isSome = true := by
  obtain ⟨t, ht, hwired⟩ := (Option.any_eq_true _ _).1 h
  rw [Bool.and_eq_true, decide_eq_true_eq, List.all_eq_true] at hwired
  refine ⟨t, ht, hwired.1, fun port ref? hport => hwired.2 ref? ?_⟩
  exact List.mem_map_of_mem (f := (·.2)) (SortedMap.mem_toList.2 hport)

end MarkedKind

/-- The graph is accepted, and the command of its first node can be filled, but not that of
the second node. -/
theorem markedKind_not_rendered :
    MarkedKind.graph.compile .validate {} "/out" = .ok MarkedKind.tasks ∧
    ∃ plan t u, MarkedKind.tasks.plan = .ok plan ∧
      MarkedKind.tasks.tasks[1]? = some t ∧ MarkedKind.tasks.tasks[3]? = some u ∧
      t.name = "k-a" ∧ u.name = "\x7bi:k-b" ∧ ∀ scratch context,
        (∃ command, (Execution.bindRun t (plan.inputs[1]?.getD ∅) scratch context).renderCommand =
          .ok command) ∧
        ¬∃ command, (Execution.bindRun u (plan.inputs[3]?.getD ∅) scratch context).renderCommand =
          .ok command := by
  have hcompile : MarkedKind.graph.compile .validate {} "/out" = .ok MarkedKind.tasks := rfl
  obtain ⟨plan, hplan⟩ : ∃ plan, MarkedKind.tasks.plan = .ok plan := ⟨_, rfl⟩
  obtain ⟨t, ht, hrole, hwired⟩ := MarkedKind.wired_of_isWired (i := 1) (by decide +kernel)
  obtain ⟨u, hu, hrole', hwired'⟩ := MarkedKind.wired_of_isWired (i := 3) (by decide +kernel)
  refine ⟨hcompile, plan, t, u, hplan, ht, hu, ?_, ?_, fun scratch context => ⟨?_, ?_⟩⟩
  · obtain rfl := Option.some.inj ht; rfl
  · obtain rfl := Option.some.inj hu; rfl
  · obtain ⟨node, hnode, hiff⟩ := command_rendered_iff hcompile hplan
      MarkedKind.unmarked_modules ht hrole hwired scratch context
    obtain rfl := Option.some.inj ht
    obtain rfl := Option.some.inj hnode
    exact hiff.2 ⟨by decide, by decide, by decide⟩
  · obtain ⟨node, hnode, hiff⟩ := command_rendered_iff hcompile hplan
      MarkedKind.unmarked_modules hu hrole' hwired' scratch context
    obtain rfl := Option.some.inj hu
    obtain rfl := Option.some.inj hnode
    exact fun h => absurd (hiff.1 h).kind (by decide)

end BlockFlow
