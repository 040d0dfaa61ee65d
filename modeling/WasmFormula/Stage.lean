/-!
# Compilation stages

A compilation passes through its stages in a fixed order and may fail at any of them. `failed` is the
last stage in the order and is entered by failing only.
-/

namespace WasmFormula

/-- The stages of a compilation. -/
inductive Stage where
  | idle
  | lowering
  | assembling
  | validating
  | emitting
  | done
  | failed
  deriving DecidableEq

namespace Stage

/-- The position of a stage in the order. -/
def rank : Stage → Nat
  | .idle => 0
  | .lowering => 1
  | .assembling => 2
  | .validating => 3
  | .emitting => 4
  | .done => 5
  | .failed => 6

instance : LT Stage := ⟨fun a b => a.rank < b.rank⟩
instance (a b : Stage) : Decidable (a < b) := inferInstanceAs (Decidable (a.rank < b.rank))

/-- The name of a stage. -/
def name : Stage → String
  | .idle => "idle"
  | .lowering => "lowering"
  | .assembling => "assembling"
  | .validating => "validating"
  | .emitting => "emitting"
  | .done => "done"
  | .failed => "failed"

/-- All stages in order. -/
def all : List Stage := [.idle, .lowering, .assembling, .validating, .emitting, .done, .failed]

/-- The stage of a name. -/
def ofName? (name : String) : Option Stage := all.find? fun s => s.name == name

end Stage

end WasmFormula
