/-! # Processes that wait for each other

A `Process σ α` runs on a shared state of type `σ` until it ends, pauses or starts another process.
A pause ends when its condition on the state holds, or when its time is over.  A `Thread` is a
process whose result nobody sees.  `Thread.runAll` lets threads take turns, each one up to its next
pause, and moves a clock on when all of them wait for time to pass.

`Process.bind` goes on with a result; its laws are those of a monad. -/

namespace BlockFlow.Shell

/-- What is left of a process that has no result. -/
inductive Thread (σ : Type) where
  /-- Nothing is left. -/
  | done (s : σ)
  /-- Waits until the condition holds, or for so long if a time is given. -/
  | pause (s : σ) (time : Option Nat) (ready : σ → Bool) (next : σ → Thread σ)
  /-- Starts another thread, which begins after a delay. -/
  | spawn (s : σ) (delay : Nat) (child next : σ → Thread σ)

/-- What is left of a process that ends with a result. -/
inductive Process (σ α : Type) where
  /-- Nothing is left. -/
  | done (s : σ) (a : α)
  /-- Waits until the condition holds, or for so long if a time is given. -/
  | pause (s : σ) (time : Option Nat) (ready : σ → Bool) (next : σ → Process σ α)
  /-- Starts a thread, which begins after a delay. -/
  | spawn (s : σ) (delay : Nat) (child : σ → Thread σ) (next : σ → Process σ α)

namespace Process

variable {σ α β γ : Type}

/-- Goes on with a result. -/
@[specialize] def bind : Process σ α → (α → σ → Process σ β) → Process σ β
  | done s a, f => f a s
  | pause s time ready next, f => pause s time ready (fun s => (next s).bind f)
  | spawn s delay child next, f => spawn s delay child (fun s => (next s).bind f)

/-- The process as a thread; `finish` sees its result. -/
def thread (finish : α → σ → σ) : Process σ α → Thread σ
  | done s a => .done (finish a s)
  | pause s time ready next => .pause s time ready (fun s => (next s).thread finish)
  | spawn s delay child next => .spawn s delay child (fun s => (next s).thread finish)

theorem bind_done (p : Process σ α) : p.bind (fun a s => done s a) = p := by
  induction p with
  | done s a => rfl
  | pause s time ready next ih => simp only [bind, ih]
  | spawn s delay child next ih => simp only [bind, ih]

theorem bind_assoc (p : Process σ α) (f : α → σ → Process σ β) (g : β → σ → Process σ γ) :
    (p.bind f).bind g = p.bind (fun a s => (f a s).bind g) := by
  induction p with
  | done s a => rfl
  | pause s time ready next ih => simp only [bind, ih]
  | spawn s delay child next ih => simp only [bind, ih]

end Process

/-- A thread that waits. -/
structure Waiting (σ : Type) where
  /-- When it goes on at the latest. -/
  until_ : Option Nat
  /-- Whether it can go on before that. -/
  ready : σ → Bool
  next : σ → Thread σ

namespace Thread

variable {σ : Type}

/-- Lets a thread run until it ends or pauses; the threads that wait then come after `waiting`. -/
def advance (clock : Nat) (waiting : List (Waiting σ)) : Thread σ → σ × List (Waiting σ)
  | done s => (s, waiting)
  | pause s time ready next => (s, waiting ++ [⟨time.map (clock + ·), ready, next⟩])
  | spawn s delay child next =>
    (next s).advance clock (waiting ++ [⟨some (clock + delay), fun _ => false, child⟩])

/-- The earliest time at which a thread goes on in any case. -/
def earliest (waiting : List (Waiting σ)) : Option Nat :=
  waiting.foldl (fun t w =>
    match t, w.until_ with
    | some t, some u => some (min t u)
    | none, u => u
    | t, none => t) none

/-- Takes out the first thread that can go on at a time. -/
def pick (clock : Nat) (s : σ) : List (Waiting σ) → Option (Waiting σ × List (Waiting σ))
  | [] => none
  | w :: ws =>
    if w.ready s || (w.until_.any (· ≤ clock)) then some (w, ws)
    else (pick clock s ws).map (fun r => (r.1, w :: r.2))

/-- Lets threads take turns, so many times at most, until all of them have ended or none can go
on. -/
def runAll : Nat → Nat → σ → List (Waiting σ) → σ
  | 0, _, s, _ => s
  | turns + 1, clock, s, waiting =>
    match pick clock s waiting with
    | some (w, waiting) =>
      let (s, waiting) := (w.next s).advance clock waiting
      runAll turns clock s waiting
    | none =>
      match earliest waiting with
      | some later => runAll turns (max clock later) s waiting
      | none => s

end Thread

end BlockFlow.Shell
