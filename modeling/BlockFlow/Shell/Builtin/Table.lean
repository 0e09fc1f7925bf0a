import BlockFlow.Shell.Builtin.Jobs
import BlockFlow.Shell.Builtin.Output
import BlockFlow.Shell.Builtin.Parameters
import BlockFlow.Shell.Builtin.Places
import BlockFlow.Shell.Builtin.Variables

/-! # The builtin commands by name

A failure of a special builtin command ends the shell, and assignments before it stay.  The commands
`.`, `command`, `eval`, `exec`, `hash` and `type` have names here and are defined where commands are
run. -/

namespace BlockFlow.Shell.Builtin

/-- Limits are not kept here. -/
def ulimit : Builtin := fun args => do
  let (given, _) ← plainSwitches "HSacdflmnpqrstvw".toList args
  if !given.contains 'a' then writeText 1 "unlimited\n"
  finish 0

/-- No time is counted. -/
def times : Builtin := fun _ => do
  writeText 1 "0m0.000000s 0m0.000000s\n0m0.000000s 0m0.000000s\n"
  finish 0

/-- The special builtin commands. -/
def special : List (String × Builtin) := [
  (":", nothing 0), ("break", ofLoop .escape), ("continue", ofLoop .repeat_), ("exit", exit),
  ("export", export_), ("local", local_), ("readonly", readonly), ("return", return_),
  ("set", set_), ("shift", shift), ("times", times), ("trap", trap), ("unset", unset)]

/-- The other builtin commands. -/
def ordinary : List (String × Builtin) := [
  ("[", test), ("alias", alias_), ("bg", resume), ("cd", cd), ("chdir", cd), ("echo", echo),
  ("false", nothing 1), ("fg", resume), ("getopts", getopts), ("jobs", jobs), ("kill", kill),
  ("printf", printf), ("pwd", pwd), ("read", read), ("test", test), ("true", nothing 0),
  ("ulimit", ulimit), ("umask", umask), ("unalias", unalias), ("wait", wait)]

/-- The names of all special builtin commands. -/
def specialNames : List String := [".", "eval", "exec"] ++ special.map (·.1)

/-- The names of all other builtin commands. -/
def ordinaryNames : List String := ["command", "hash", "type"] ++ ordinary.map (·.1)

end BlockFlow.Shell.Builtin
