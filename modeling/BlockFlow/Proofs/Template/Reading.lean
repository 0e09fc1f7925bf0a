import BlockFlow.Proofs.Shell.Splitting
import BlockFlow.Proofs.Template.Command

/-!
# What a shell reads in a filled command

Filled with its files, the command of a block program is read as the words that its parts stand
for, one after the other: quoting gives every name and path back, and no text from the graph gets
out of its quotes. Names with markers could do that, but with them a command cannot be filled.

## Key results

- `Template.Says.intercalate`: filled parts with blanks between them are read one after the other
- `Invocation.says_command`: what is read in a filled command
-/

namespace BlockFlow

namespace Template

variable {b : Binding}

/-! ## Filled texts -/

theorem fillPieces_append {ps qs : List Piece} {s t : List Char} (hp : fillPieces b ps = .ok s)
    (hq : fillPieces b qs = .ok t) : fillPieces b (ps ++ qs) = .ok (s ++ t) := by
  induction ps generalizing s with
  | nil =>
    obtain rfl := Except.ok.inj hp
    exact hq
  | cons p ps ih =>
    rw [fillPieces] at hp
    -- Both the piece and those behind it have been filled.
    cases hpiece : fillPiece b p with
    | error e => rw [hpiece] at hp; cases hp
    | ok text =>
      cases hrest : fillPieces b ps with
      | error e => rw [hpiece, hrest] at hp; cases hp
      | ok rest =>
        rw [hpiece, hrest] at hp
        obtain rfl := Except.ok.inj hp
        rw [List.cons_append, fillPieces, hpiece, ih hrest]
        exact congrArg Except.ok (List.append_assoc _ _ _).symm

theorem fillPieces_plain (b : Binding) (cs : List Char) :
    fillPieces b (cs.map .plain) = .ok cs := by
  induction cs with
  | nil => rfl
  | cons c cs ih =>
    rw [List.map_cons, fillPieces, ih]
    rfl

theorem fillPieces_hole {d : Direction} {port : List Char} {path : Path}
    (h : b.path? d (String.ofList port) = some path) :
    fillPieces b [.hole d port] = .ok (Shell.quote path).toList := by
  rw [fillPieces, fillPiece, h]
  exact congrArg Except.ok (List.append_nil _)

/-! ## Read texts -/

/-- A text that, filled and between blanks, is read as these words. -/
structure Says (b : Binding) (cs : List Char) (ws : List (List Char)) : Prop where
  whole : Whole cs
  filled : ∃ text, fillPieces b (pieces cs) = .ok text ∧ Shell.ReadsAll text ws

theorem says_of_unmarked {cs : List Char} {ws : List (List Char)} (h : hasMarker cs = false)
    (hreads : Shell.ReadsAll cs ws) : Says b cs ws where
  whole := whole_of_unmarked h
  filled := ⟨cs, by rw [pieces_of_unmarked h, fillPieces_plain], hreads⟩

theorem says_quote {w : String} (h : hasMarker w.toList = false) :
    Says b (Shell.quote w).toList [w.toList] :=
  says_of_unmarked (by rwa [hasMarker_quote]) (Shell.reads_quote w).readsAll

/-- A hole is read as the path of its file. -/
theorem says_hole {d : Direction} {port : List Char} {path : Path} (hport : '}' ∉ port)
    (hpath : b.path? d (String.ofList port) = some path) :
    Says b (holeText d port) [path.toList] where
  whole := by
    have hmarked : hasMarker (markerChars d ++ port) = true := hasMarker_of_append (a := []) d port
    have hbrace : '}' ∉ markerChars d ++ port := by
      cases d <;> simp [markerChars, Direction.letter, hport]
    exact whole_of_marked hmarked hbrace
  filled := by
    have hpieces : pieces (holeText d port) = [.hole d port] := by
      have hmarker : pieces (markerChars d ++ (port ++ '}' :: [])) = .hole d port :: pieces [] :=
        pieces_marker hport
      rw [pieces] at hmarker
      exact hmarker
    exact ⟨_, by rw [hpieces, fillPieces_hole hpath], (Shell.reads_quote path).readsAll⟩

/-- An assignment is read as the name and the path of the file. -/
theorem says_assignment {d : Direction} {name : String} {port : List Char} {path : Path}
    (hmarker : hasMarker name.toList = false) (hname : '}' ∉ name.toList) (hport : '}' ∉ port)
    (hpath : b.path? d (String.ofList port) = some path) :
    Says b (assignmentChars d name port) [name.toList ++ '=' :: path.toList] where
  whole := whole_assignmentChars hname hport
  filled := by
    have hquoted : hasMarker (Shell.quote name).toList = false := by rwa [hasMarker_quote]
    have hpieces : pieces (assignmentChars d name port) =
        ((Shell.quote name).toList ++ ['=']).map .plain ++ [.hole d port] := by
      have hhole : holeText d port = markerChars d ++ (port ++ '}' :: []) := rfl
      rw [assignmentChars, pieces_seam rfl hquoted, hhole, pieces_marker hport, pieces]
    have hfill := fillPieces_append
      (fillPieces_plain b ((Shell.quote name).toList ++ ['='])) (fillPieces_hole hpath)
    rw [List.append_assoc, List.singleton_append] at hfill
    exact ⟨_, by rw [hpieces, hfill], (Shell.reads_assignment name path).readsAll⟩

/-- Parts with blanks between them are read one after the other. -/
theorem Says.intercalate {css : List (List Char)} {wss : List (List (List Char))}
    (h : List.Forall₂ (Says b) css wss) (hne : css ≠ []) :
    Says b ([' '].intercalate css) wss.flatten := by
  induction h with
  | nil => exact absurd rfl hne
  | @cons cs ws css wss hfirst hrest ih =>
    -- A blank stands between two texts, not behind the last.
    cases hrest with
    | nil => simpa using hfirst
    | @cons cs' ws' css wss hnext hothers =>
      have hmore := ih (List.cons_ne_nil _ _)
      rw [List.intercalate_cons_cons, List.append_assoc, List.singleton_append, List.flatten_cons]
      refine ⟨hfirst.whole.blank hmore.whole, ?_⟩
      obtain ⟨text, hfill, hreads⟩ := hfirst.filled
      obtain ⟨text', hfill', hreads'⟩ := hmore.filled
      refine ⟨text ++ ' ' :: text', ?_, hreads.blank hreads'⟩
      rw [hfirst.whole]
      exact fillPieces_append hfill (fillPieces_append (fillPieces_plain b [' ']) hfill')

/-- What is read in a filled template. -/
theorem Says.words_of_render {template text : String} {ws : List String}
    (h : Says b template.toList (ws.map String.toList)) (hrender : render b template = .ok text) :
    Shell.words text = some ws := by
  obtain ⟨cs, hfill, hreads⟩ := h.filled
  rw [render, hfill] at hrender
  obtain rfl := Except.ok.inj hrender
  exact Shell.ReadsAll.words_eq (by rwa [String.toList_ofList])

end Template

open Template

/-! ## Commands -/

namespace Invocation

/-- The files that a command is about: the state, and for every input and every output the schema
and the instance. -/
structure Files where
  state : Path
  inputSchema : String → Path
  inputInstance : String → Path
  outputSchema : String → Path
  outputInstance : String → Path

/-- A flag and its arguments. -/
def flagWords (text : String) (names : List String) (file : String → Path) : List String :=
  text :: names.map (fun n => n ++ "=" ++ file n)

/-- The words of the command for a node. -/
def words (modules : BlockModules) (node : Node) (mode : Mode) (files : Files) : List String :=
  [modules.interpreter, modules.programPath node.kind mode.name, "--state", files.state] ++
    flagWords "--input-schemas" node.inputNames files.inputSchema ++
    (if mode.withInstances then
      flagWords "--input-instances" node.inputNames files.inputInstance else []) ++
    flagWords "--output-schemas" node.outputNames files.outputSchema ++
    (if mode.withInstances then
      flagWords "--output-instances" node.outputNames files.outputInstance else [])

variable {b : Binding} {d : Direction} {names : List String} {port : String → String}
  {placeholder : String → String}

/-- A flag is read as the flag and its arguments. -/
theorem says_flag (text : String) (file : String → Path) (htext : hasMarker text.toList = false)
    (hquote : Shell.quote text = text)
    (hplaceholder : ∀ n, (placeholder n).toList = holeText d (port n).toList)
    (hnames : ∀ n ∈ names, hasMarker n.toList = false ∧ '}' ∉ n.toList ∧ '}' ∉ (port n).toList ∧
      b.path? d (port n) = some (file n)) :
    Says b (flag text names placeholder).toList
      ((flagWords text names file).map String.toList) := by
  have hwords : (flagWords text names file).map String.toList =
      ([text.toList] :: names.map fun n => [n.toList ++ '=' :: (file n).toList]).flatten := by
    rw [flagWords, List.flatten_cons, ← List.flatMap_def, ← List.map_eq_flatMap]
    simp
  have hflag : Says b text.toList [text.toList] := by
    have hsays := says_quote (b := b) htext
    rwa [hquote] at hsays
  rw [hwords, toList_flag hplaceholder]
  refine Says.intercalate (.cons hflag ?_) (List.cons_ne_nil _ _)
  rw [List.forall₂_map_left_iff, List.forall₂_map_right_iff]
  refine List.forall₂_same.2 (fun n hn => ?_)
  obtain ⟨hmarker, hname, hport, hpath⟩ := hnames n hn
  exact says_assignment hmarker hname hport (by rwa [String.ofList_toList])

private theorem says_state {id : NodeId} {path : Path} (hid : '}' ∉ id.toList)
    (hpath : b.path? .input (Naming.stateIn id) = some path) :
    Says b ("--state " ++ Naming.inputPlaceholder (Naming.stateIn id)).toList
      ["--state".toList, path.toList] := by
  have htext : ("--state " ++ Naming.inputPlaceholder (Naming.stateIn id)).toList =
      [' '].intercalate ["--state".toList, holeText .input (Naming.stateIn id).toList] := by
    rw [String.toList_append, toList_inputPlaceholder, List.intercalate_cons_cons,
      List.intercalate_singleton]
    rfl
  have hport : '}' ∉ (Naming.stateIn id).toList := by simp [Naming.stateIn, hid]
  have hflag : Says b (Shell.quote "--state").toList ["--state".toList] := says_quote (by decide)
  have hhole := says_hole (d := .input) (b := b) hport (by rwa [String.ofList_toList])
  rw [htext]
  exact Says.intercalate (.cons hflag (.cons hhole .nil)) (List.cons_ne_nil _ _)

variable {modules : BlockModules} {id : NodeId} {node : Node} {mode : Mode} {files : Files}

/-- Where no marker comes from elsewhere, a command filled with these files is read as its words. -/
theorem says_command (hmodules : modules.Unmarked)
    (hgiven : ∀ role name, (role, name) ∈ node.givenNames id → hasReserved name = false)
    (hun : node.Unmarked) (hstate : b.path? .input (Naming.stateIn id) = some files.state)
    (hschemaIn : ∀ n ∈ node.inputNames,
      b.path? .input (Naming.schemaIn id n) = some (files.inputSchema n))
    (hinstanceIn : mode.withInstances = true → ∀ n ∈ node.inputNames,
      b.path? .input (Naming.instanceIn id n) = some (files.inputInstance n))
    (hschemaOut : ∀ n ∈ node.outputNames,
      b.path? .output (Naming.schemaOut id n) = some (files.outputSchema n))
    (hinstanceOut : mode.withInstances = true → ∀ n ∈ node.outputNames,
      b.path? .output (Naming.instanceOut id n) = some (files.outputInstance n)) :
    Says b (command modules id node mode).toList
      ((words modules node mode files).map String.toList) := by
  obtain ⟨hid, hin, hout⟩ := no_brace hgiven
  have hplain : ∀ (f : String → String) n, (Naming.inputPlaceholder (f n)).toList =
      holeText .input (f n).toList := fun f n => toList_inputPlaceholder (f n)
  have hplain' : ∀ (f : String → String) n, (Naming.outputPlaceholder (f n)).toList =
      holeText .output (f n).toList := fun f n => toList_outputPlaceholder (f n)
  -- Every part says its words, and blanks keep the parts apart.
  have hinterpreter : Says b _ _ := says_quote hmodules.interpreter
  have hprogram : Says b _ _ :=
    says_quote (BlockModules.hasMarker_programPath hmodules hun.kind mode)
  have hstate := says_state hid hstate
  have hinSchemas := says_flag (b := b) "--input-schemas" files.inputSchema (by decide)
    (by decide) (hplain (Naming.schemaIn id)) (fun n hn =>
      ⟨hun.inputs n hn, hin n hn, by simp [Naming.schemaIn, hid, hin n hn], hschemaIn n hn⟩)
  have houtSchemas := says_flag (b := b) "--output-schemas" files.outputSchema (by decide)
    (by decide) (hplain' (Naming.schemaOut id)) (fun n hn =>
      ⟨hun.outputs n hn, hout n hn, by simp [Naming.schemaOut, hid, hout n hn],
        hschemaOut n hn⟩)
  rw [command, String.toList_intercalate]
  cases mode with
  | validate =>
    have hsays := Says.intercalate (.cons hinterpreter (.cons hprogram (.cons hstate
      (.cons hinSchemas (.cons houtSchemas .nil))))) (List.cons_ne_nil _ _)
    simpa [-String.toList_append, parts, words, Mode.withInstances] using hsays
  | evaluate =>
    have hinInstances := says_flag (b := b) "--input-instances" files.inputInstance (by decide)
      (by decide) (hplain (Naming.instanceIn id)) (fun n hn =>
        ⟨hun.inputs n hn, hin n hn, by simp [Naming.instanceIn, hid, hin n hn],
          hinstanceIn rfl n hn⟩)
    have houtInstances := says_flag (b := b) "--output-instances" files.outputInstance (by decide)
      (by decide) (hplain' (Naming.instanceOut id)) (fun n hn =>
        ⟨hun.outputs n hn, hout n hn, by simp [Naming.instanceOut, hid, hout n hn],
          hinstanceOut rfl n hn⟩)
    have hsays := Says.intercalate (.cons hinterpreter (.cons hprogram (.cons hstate
      (.cons hinSchemas (.cons hinInstances (.cons houtSchemas (.cons houtInstances .nil)))))))
      (List.cons_ne_nil _ _)
    simpa [-String.toList_append, parts, words, Mode.withInstances] using hsays

end Invocation

end BlockFlow
