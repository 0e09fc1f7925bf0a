import BlockFlow.Shell.Builtin.Basic
import BlockFlow.Shell.Utilities.Output

/-! # Builtin commands that write or test -/

namespace BlockFlow.Shell.Builtin

/-- Writes bytes to the standard output, and ends with a status unless that fails. -/
def output (bytes : Bytes) (status : Nat) : Sh Flow := do
  match ← write 1 bytes with
  | .ok () => finish status
  | .error _ => do
    complain (((← get).command.getD "") ++ ": I/O error")
    finish 1

/-- Writes its arguments on a line, escapes replaced. -/
def echo : Builtin := fun args => do
  let newline := args.head? ≠ some (bytesOf "-n")
  let args := if newline then args else args.drop 1
  let line := (args.intersperse [0x20]).flatten
  let (out, stop) := Printf.unescape (line.length + 1) line
  output (if newline && !stop then out ++ [0x0A] else out) 0

/-- Writes its arguments by a format. -/
def printf : Builtin := fun args => do
  let (_, operands) ← plainSwitches [] args
  match operands with
  | [] => refuse 2 "usage: printf format [arg ...]"
  | fmt :: args => do
    let p := Printf.formatted fmt args
    p.complaints.forM complain
    output p.output p.status

/-- Tests a condition.  A closing bracket may be the beginning of a word. -/
def test : Builtin := fun args => do
  let bracketed := (← get).command = some "["
  if bracketed && args.getLast?.bind (·.head?) ≠ some 0x5D then refuse 2 "missing ]"
  match ← Utilities.condition (if bracketed then args.dropLast else args) with
  | .ok n => finish n
  | .error e => refuse 2 e.reason

end BlockFlow.Shell.Builtin
