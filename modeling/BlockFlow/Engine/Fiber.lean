/-! # Computations in atomic steps

A `Fiber σ α` is a computation on a shared state of type `σ` that proceeds in atomic steps and ends
with an `α`.  Between two steps other fibers may change the state.  Every fiber ends after finitely
many steps, whatever the others do.

`run` takes all steps at once; its laws say how it passes through the operations. -/

namespace BlockFlow

/-- A computation on a shared state that can be interrupted between its steps. -/
inductive Fiber (σ : Type) (α : Type) : Type 1 where
  /-- Nothing is left to do. -/
  | done (a : α)
  /-- One step changes the state and decides how to go on. -/
  | step {β : Type} (act : σ → σ × β) (next : β → Fiber σ α)

namespace Fiber

variable {σ τ α β : Type}

/-- Goes on with `f` after the end. -/
def bind : Fiber σ α → (α → Fiber σ β) → Fiber σ β
  | done a, f => f a
  | step act next, f => step act (fun b => (next b).bind f)

instance : Monad (Fiber σ) where
  pure := done
  bind := bind

/-- One step. -/
def act (f : σ → σ × α) : Fiber σ α := step f done

/-- One step that only looks. -/
def look (f : σ → α) : Fiber σ α := act (fun s => (s, f s))

/-- One step that only changes the state. -/
def change (f : σ → σ) : Fiber σ Unit := act (fun s => (f s, ()))

/-- One step that does nothing. -/
def idle : Fiber σ Unit := change id

/-- One step that may fail, and then changes nothing. -/
def attempt {ε : Type} (f : σ → Except ε (σ × α)) : Fiber σ (Except ε α) :=
  act fun s =>
    match f s with
    | .ok (s, a) => (s, .ok a)
    | .error e => (s, .error e)

/-- A fiber on a part of the state. -/
def onPart (get : τ → σ) (put : τ → σ → τ) : Fiber σ α → Fiber τ α
  | done a => done a
  | step act next =>
    step (fun t => let r := act (get t); (put t r.1, r.2)) (fun b => (next b).onPart get put)

/-- Takes all steps, without interruption. -/
def run : Fiber σ α → σ → σ × α
  | done a, s => (s, a)
  | step act next, s => let r := act s; (next r.2).run r.1

/-- Whether nothing is left to do. -/
def isDone : Fiber σ α → Bool
  | done _ => true
  | step _ _ => false

@[simp] theorem run_pure (a : α) (s : σ) : (pure a : Fiber σ α).run s = (s, a) := rfl

@[simp] theorem run_act (f : σ → σ × α) (s : σ) : (act f).run s = f s := rfl

theorem run_bind (p : Fiber σ α) (f : α → Fiber σ β) (s : σ) :
    (p >>= f).run s = (f (p.run s).2).run (p.run s).1 := by
  show (p.bind f).run s = _
  induction p generalizing s with
  | done a => rfl
  | step act next ih => exact ih (act s).2 (act s).1

theorem bind_assoc' {γ : Type} (p : Fiber σ α) (f : α → Fiber σ β) (g : β → Fiber σ γ) :
    (p.bind f).bind g = p.bind (fun a => (f a).bind g) := by
  induction p with
  | done a => rfl
  | step act next ih => simp only [bind, ih]

theorem bind_done (p : Fiber σ α) : p.bind done = p := by
  induction p with
  | done a => rfl
  | step act next ih => simp only [bind, ih]

instance : LawfulMonad (Fiber σ) :=
  LawfulMonad.mk' _ (fun p => bind_done p) (fun _ _ => rfl) (fun p f g => bind_assoc' p f g)

end Fiber

end BlockFlow
