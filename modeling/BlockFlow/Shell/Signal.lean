/-! # Signals -/

namespace BlockFlow.Shell

/-- A signal that a command can send. -/
structure Signal where
  name : String
  number : Nat
  /-- What is written about a command that the signal has killed. -/
  description : String
  /-- Whether it ends a process that does not expect it. -/
  endsProcess : Bool := true
  deriving DecidableEq, Inhabited, Repr

namespace Signal

/-- The signals with a meaning of their own, by their numbers. -/
def common : List Signal := [
  ⟨"HUP", 1, "Hangup", true⟩, ⟨"INT", 2, "", true⟩, ⟨"QUIT", 3, "Quit", true⟩,
  ⟨"ILL", 4, "Illegal instruction", true⟩, ⟨"TRAP", 5, "Trace/breakpoint trap", true⟩,
  ⟨"ABRT", 6, "Aborted", true⟩, ⟨"BUS", 7, "Bus error", true⟩,
  ⟨"FPE", 8, "Floating point exception", true⟩, ⟨"KILL", 9, "Killed", true⟩,
  ⟨"USR1", 10, "User defined signal 1", true⟩, ⟨"SEGV", 11, "Segmentation fault", true⟩,
  ⟨"USR2", 12, "User defined signal 2", true⟩, ⟨"PIPE", 13, "", true⟩,
  ⟨"ALRM", 14, "Alarm clock", true⟩, ⟨"TERM", 15, "Terminated", true⟩,
  ⟨"16", 16, "Stack fault", true⟩, ⟨"CHLD", 17, "", false⟩, ⟨"CONT", 18, "", false⟩,
  ⟨"STOP", 19, "", false⟩, ⟨"TSTP", 20, "", false⟩, ⟨"TTIN", 21, "", false⟩,
  ⟨"TTOU", 22, "", false⟩, ⟨"URG", 23, "", false⟩, ⟨"XCPU", 24, "CPU time limit exceeded", true⟩,
  ⟨"XFSZ", 25, "File size limit exceeded", true⟩, ⟨"VTALRM", 26, "Virtual timer expired", true⟩,
  ⟨"PROF", 27, "Profiling timer expired", true⟩, ⟨"WINCH", 28, "", false⟩,
  ⟨"IO", 29, "I/O possible", true⟩, ⟨"PWR", 30, "Power failure", true⟩,
  ⟨"SYS", 31, "Bad system call", true⟩, ⟨"32", 32, "", true⟩, ⟨"33", 33, "", true⟩]

/-- The number of the first signal without a meaning of its own. -/
def firstFree : Nat := 34

/-- The number of the last signal. -/
def greatest : Nat := 64

/-- A signal without a meaning of its own, named by its distance from the nearer end. -/
def free (number : Nat) : Signal :=
  let up := number - firstFree
  let down := greatest - number
  let name :=
    if up = 0 then "RTMIN" else if down = 0 then "RTMAX"
    else if up ≤ 15 then "RTMIN+" ++ toString up else "RTMAX-" ++ toString down
  ⟨name, number, "Real-time signal " ++ toString up, true⟩

/-- All signals, by their numbers. -/
def all : List Signal :=
  common ++ (List.range (greatest + 1 - firstFree)).map (fun n => free (firstFree + n))

/-- The signal that ends a command unless another one is asked for. -/
def terminate : Signal := ⟨"TERM", 15, "Terminated", true⟩

/-- The number of the signal that ends a process which writes to a pipe that nobody reads. -/
def brokenPipe : Nat := 13

/-- The number of the signal that ends a process whose arithmetic the machine cannot do. -/
def arithmeticFault : Nat := 8

/-- The signal of this number. -/
def ofNumber? (n : Nat) : Option Signal := all.find? (fun g => g.number = n)

/-- The signal of this name, in any case. -/
def find? (s : String) : Option Signal := all.find? (fun g => g.name = s.toUpper)

end Signal

end BlockFlow.Shell
