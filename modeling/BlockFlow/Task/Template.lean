import BlockFlow.SortedMap
import BlockFlow.Path
import BlockFlow.Shell.Quote

/-! # Command templates

A template is text with holes.  Read from the left, a hole starts at the first `{i:` or `{o:` and
ends at the first brace that closes after it; a marker that no brace closes is ordinary text, and
so is everything else.  `pieces` splits a template once, and filling the holes never looks at the
filled-in text again. -/

namespace BlockFlow

/-- Whether a hole is for an input or for an output. -/
inductive Direction where
  | input
  | output
  deriving DecidableEq, Inhabited, Repr

/-- The letter of a direction. -/
def Direction.letter : Direction → Char
  | .input => 'i'
  | .output => 'o'

namespace Template

/-- A part of a template. -/
inductive Piece where
  /-- A character that stands for itself. -/
  | plain (c : Char)
  /-- A hole for the file at a port. -/
  | hole (direction : Direction) (port : List Char)
  deriving DecidableEq, Inhabited, Repr

/-- The direction of the marker at the front of a text, and what follows the marker. -/
def marker? : List Char → Option (Direction × List Char)
  | '{' :: 'i' :: ':' :: rest => some (.input, rest)
  | '{' :: 'o' :: ':' :: rest => some (.output, rest)
  | _ => none

theorem length_of_marker? {cs rest : List Char} {d : Direction} (h : marker? cs = some (d, rest)) :
    cs.length = rest.length + 3 := by
  unfold marker? at h
  split at h <;> simp at h <;> obtain ⟨-, rfl⟩ := h <;> simp

/-- The text up to the first closing brace, and the text after that brace. -/
def untilBrace : List Char → Option (List Char × List Char)
  | [] => none
  | c :: cs => if c = '}' then some ([], cs) else (untilBrace cs).map (fun r => (c :: r.1, r.2))

theorem eq_of_untilBrace {cs port rest : List Char} (h : untilBrace cs = some (port, rest)) :
    cs = port ++ '}' :: rest ∧ '}' ∉ port := by
  induction cs generalizing port with
  | nil => simp [untilBrace] at h
  | cons c cs ih =>
    rw [untilBrace] at h
    split at h
    · next hc => simp at h; obtain ⟨rfl, rfl⟩ := h; simp [hc]
    · next hc =>
      obtain ⟨⟨p, r⟩, hr, heq⟩ := Option.map_eq_some_iff.1 h
      simp at heq; obtain ⟨rfl, rfl⟩ := heq
      obtain ⟨rfl, hp⟩ := ih hr
      exact ⟨by simp, by simp [hp]; exact fun e => hc e.symm⟩

/-- The pieces of a template. -/
def pieces (cs : List Char) : List Piece :=
  match cs with
  | [] => []
  | c :: tail =>
    match _hm : marker? (c :: tail) with
    | none => .plain c :: pieces tail
    | some (d, rest) =>
      match _hb : untilBrace rest with
      -- No brace closes any more, so that no later marker begins a hole either.
      | none => (c :: tail).map .plain
      | some (port, after) => .hole d port :: pieces after
termination_by cs.length
decreasing_by
  · simp
  · have := length_of_marker? _hm
    have := (eq_of_untilBrace _hb).1
    simp_all
    omega

/-- The text of a hole. -/
def holeText (d : Direction) (port : List Char) : List Char :=
  '{' :: d.letter :: ':' :: (port ++ ['}'])

/-- The text of a piece. -/
def Piece.chars : Piece → List Char
  | .plain c => [c]
  | .hole d port => holeText d port

/-- The files at the ports of a task. -/
structure Binding where
  /-- The file at each input port; `none` for a port that nothing feeds. -/
  inputs : NameMap (Option Path)
  outputs : NameMap Path

/-- The file at a port. -/
def Binding.path? (b : Binding) : Direction → String → Option Path
  | .input, port => (b.inputs.get? port).join
  | .output, port => b.outputs.get? port

/-- Fills one piece, or says which hole has no file. -/
def fillPiece (b : Binding) : Piece → Except String (List Char)
  | .plain c => .ok [c]
  | .hole d port =>
    match b.path? d (String.ofList port) with
    | some path => .ok (Shell.quote path).toList
    | none => .error (String.ofList (holeText d port))

/-- Fills pieces from the left. -/
def fillPieces (b : Binding) : List Piece → Except String (List Char)
  | [] => .ok []
  | p :: ps => do
    let text ← fillPiece b p
    return text ++ (← fillPieces b ps)

/-- The command of a template: every hole replaced by the quoted path of its file, everything else
as it stands.  The error is the text of the first hole without a file. -/
def render (b : Binding) (template : String) : Except String String := do
  return String.ofList (← fillPieces b (pieces template.toList))

end Template

end BlockFlow
