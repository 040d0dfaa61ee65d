/-!
# The functions formulas may call

The transcendental functions that compiled formulas call by name. Each works on binary64 numbers and
has one or two operands.
-/

namespace WasmFormula

/-- A function that a runtime module provides. -/
structure MathFunction where
  name : String
  arity : Nat
  deriving DecidableEq

namespace MathFunction

/-- The linkage table: the functions that formulas may call, in the order in which the bridge runtime
provides them. -/
def table : List MathFunction :=
  [⟨"sin", 1⟩, ⟨"cos", 1⟩, ⟨"tan", 1⟩, ⟨"exp", 1⟩, ⟨"log", 1⟩, ⟨"log1p", 1⟩, ⟨"expm1", 1⟩,
    ⟨"asin", 1⟩, ⟨"acos", 1⟩, ⟨"atan", 1⟩, ⟨"sinh", 1⟩, ⟨"cosh", 1⟩, ⟨"tanh", 1⟩, ⟨"asinh", 1⟩,
    ⟨"acosh", 1⟩, ⟨"atanh", 1⟩, ⟨"pow", 2⟩]

/-- The function of a name. -/
def find? (name : String) : Option MathFunction := table.find? fun f => f.name == name

end MathFunction

end WasmFormula
