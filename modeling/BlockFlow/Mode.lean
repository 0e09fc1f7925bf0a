import BlockFlow.Json.Decoder

/-! # The two modes of a run -/

namespace BlockFlow

/-- A validating run works on schemas only; an evaluating run also moves data instances. -/
inductive Mode where
  | validate
  | evaluate
  deriving DecidableEq, Inhabited, Repr

namespace Mode

/-- The name of the run, which is also the block program that it calls. -/
def name : Mode → String
  | .validate => "validate"
  | .evaluate => "evaluate"

/-- Whether instances are moved. -/
def withInstances : Mode → Bool
  | .validate => false
  | .evaluate => true

/-- Reads a mode by its name. -/
def decoder : Decoder Mode :=
  Decoder.variant ([.validate, .evaluate].map (fun m => (m.name, m)))

end Mode

end BlockFlow
