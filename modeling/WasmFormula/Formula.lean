import WasmFormula.Number.Text

/-!
# Formulas

A formula is a tree of named symbols, literals and operators. Operators are looked up by name;
a name that is not known gives an `other` operator, which can be written and compared but not
compiled. `Formula.text` writes a formula in infix form, and `Formula.numEq` compares two formulas with
numerical equality on the literals.
-/

namespace WasmFormula

/-- The operators with one operand. -/
inductive UnaryOperator where
  | neg
  | identity
  | sqrt
  | sin
  | cos
  | tan
  | asin
  | acos
  | atan
  | sinh
  | cosh
  | tanh
  | asinh
  | acosh
  | atanh
  | exp
  | ln
  | other (name : String)
  deriving DecidableEq

namespace UnaryOperator

/-- The operator of a name. -/
def ofName : String → UnaryOperator
  | "-" => .neg
  | "+" => .identity
  | "sqrt" => .sqrt
  | "sin" => .sin
  | "cos" => .cos
  | "tan" => .tan
  | "asin" => .asin
  | "acos" => .acos
  | "atan" => .atan
  | "sinh" => .sinh
  | "cosh" => .cosh
  | "tanh" => .tanh
  | "asinh" => .asinh
  | "acosh" => .acosh
  | "atanh" => .atanh
  | "exp" => .exp
  | "ln" => .ln
  | name => .other name

/-- The name of an operator. -/
def name : UnaryOperator → String
  | .neg => "-"
  | .identity => "+"
  | .sqrt => "sqrt"
  | .sin => "sin"
  | .cos => "cos"
  | .tan => "tan"
  | .asin => "asin"
  | .acos => "acos"
  | .atan => "atan"
  | .sinh => "sinh"
  | .cosh => "cosh"
  | .tanh => "tanh"
  | .asinh => "asinh"
  | .acosh => "acosh"
  | .atanh => "atanh"
  | .exp => "exp"
  | .ln => "ln"
  | .other name => name

/-- The operator found under a name bears that name. -/
@[simp]
theorem name_ofName (s : String) : (ofName s).name = s := by
  unfold ofName
  split <;> rfl

end UnaryOperator

/-- The operators with two operands. -/
inductive BinaryOperator where
  | add
  | sub
  | mul
  | div
  | pow
  | other (name : String)
  deriving DecidableEq

namespace BinaryOperator

/-- The operator of a name. -/
def ofName : String → BinaryOperator
  | "+" => .add
  | "-" => .sub
  | "*" => .mul
  | "/" => .div
  | "pow" => .pow
  | name => .other name

/-- The name of an operator. -/
def name : BinaryOperator → String
  | .add => "+"
  | .sub => "-"
  | .mul => "*"
  | .div => "/"
  | .pow => "pow"
  | .other name => name

/-- The operator found under a name bears that name. -/
@[simp]
theorem name_ofName (s : String) : (ofName s).name = s := by
  unfold ofName
  split <;> rfl

end BinaryOperator

/-- A formula. -/
inductive Formula where
  | symbol (name : String)
  | literal (value : F64)
  | unary (op : UnaryOperator) (operand : Formula)
  | binary (op : BinaryOperator) (left right : Formula)
  deriving DecidableEq

namespace Formula

/-- The square root of a formula. -/
def sqrt (e : Formula) : Formula := .unary .sqrt e

/-- The sine of a formula. -/
def sin (e : Formula) : Formula := .unary .sin e

/-- The cosine of a formula. -/
def cos (e : Formula) : Formula := .unary .cos e

/-- The exponential of a formula. -/
def exp (e : Formula) : Formula := .unary .exp e

/-- The natural logarithm of a formula. -/
def ln (e : Formula) : Formula := .unary .ln e

/-- A formula raised to the power of another. -/
def pow (base exponent : Formula) : Formula := .binary .pow base exponent

instance : Neg Formula := ⟨.unary .neg⟩
instance : Add Formula := ⟨.binary .add⟩
instance : Sub Formula := ⟨.binary .sub⟩
instance : Mul Formula := ⟨.binary .mul⟩
instance : Div Formula := ⟨.binary .div⟩
instance : Coe F64 Formula := ⟨.literal⟩

/-- Literals inside a formula are positional, and a whole number has no point. -/
def literalStyle : DecimalStyle := { wholeSuffix := "", positional := none }

/-- The formula in infix form. The four arithmetic operators are parenthesised, the signs stand
directly before their operand, and all other operators are written as functions. -/
def text : Formula → String
  | .symbol name => name
  | .literal value => value.text literalStyle
  | .unary op operand =>
    match op with
    | .neg | .identity => op.name ++ operand.text
    | _ => op.name ++ "(" ++ operand.text ++ ")"
  | .binary op left right =>
    match op with
    | .pow | .other _ => op.name ++ "(" ++ left.text ++ ", " ++ right.text ++ ")"
    | _ => "(" ++ left.text ++ " " ++ op.name ++ " " ++ right.text ++ ")"

/-- Two formulas have the same shape, operators and symbols, and numerically equal literals. -/
def numEq : Formula → Formula → Bool
  | .symbol m, .symbol n => m == n
  | .literal x, .literal y => x.numEq y
  | .unary p x, .unary q y => decide (p = q) && x.numEq y
  | .binary p x₁ x₂, .binary q y₁ y₂ => decide (p = q) && x₁.numEq y₁ && x₂.numEq y₂
  | _, _ => false

end Formula

end WasmFormula
