import WasmFormula.Validity.Context

/-!
# Typing of function bodies

A body is well typed if every operation finds operands of the right types on the stack and every block
leaves exactly its results. `Typing.step` follows one operation through the nested blocks it stands
in. After an operation that never returns, the rest of its block may take any operands from below
what is on the stack; such an operand has no known type. A local variable without a default value has
to be set, in the block where it is read or before it, ahead of being read.
-/

namespace WasmFormula

/-- What is known of a value on the stack. -/
inductive Operand where
  /-- Nothing is known, since the code cannot be reached. -/
  | unknown
  /-- The value would be a reference, perhaps to a known kind of thing. -/
  | reference (kind : Option AbstractHeap)
  | value (type : ValType)
  deriving DecidableEq

namespace Operand

/-- The operand may stand for a value of the type. -/
def fits (space : TypeSpace) (operand : Operand) (type : ValType) : Bool :=
  match operand, type with
  | .unknown, _ => true
  | .reference none, .ref _ => true
  | .reference (some kind), .ref type =>
    space.refBelow ⟨false, .abstract (space.isShared type.heap) kind⟩ type
  | .reference _, _ => false
  | .value t, type => space.isSubtype t type

/-- The operand as a reference, if it may be one. -/
def asReference? : Operand → Option Operand
  | .unknown => some (.reference none)
  | .reference kind => some (.reference kind)
  | .value (.ref type) => some (.value (.ref type))
  | .value _ => none

/-- The operand without null. -/
def nonNull : Operand → Operand
  | .value (.ref type) => .value (.ref { type with nullable := false })
  | operand => operand

/-- The reference as one to another kind of thing. Null stays null. -/
def converted (kind : AbstractHeap) : Operand → Operand
  | .value (.ref type) => .value (.ref ⟨type.nullable, .abstract false kind⟩)
  | _ => .reference (some kind)

end Operand

/-- What opened a block. -/
inductive BlockKind where
  | plain
  | loop
  | ifThen
  deriving DecidableEq

/-- A block that is being typed: its signature and the values on the stack since it was opened, top
first. -/
structure Frame where
  kind : BlockKind
  signature : FuncType
  stack : List Operand
  /-- The rest of the block cannot be reached. -/
  dead : Bool
  /-- The local variables without a default value that have been set. -/
  assigned : List Nat

namespace Frame

/-- A block at its start, with its parameters on the stack. -/
def opened (kind : BlockKind) (signature : FuncType) (assigned : List Nat) : Frame :=
  { kind, signature, stack := signature.params.reverse.map .value, dead := false, assigned }

/-- Take the value on top. -/
def popAny (f : Frame) : Option (Operand × Frame) :=
  match f.stack with
  | operand :: stack => some (operand, { f with stack })
  | [] => if f.dead then some (.unknown, f) else none

/-- Take a value of the given type. -/
def pop (space : TypeSpace) (f : Frame) (type : ValType) : Option Frame :=
  match f.popAny with
  | some (operand, f) => if operand.fits space type then some f else none
  | none => none

/-- Take a reference. -/
def popReference (f : Frame) : Option (Operand × Frame) :=
  match f.popAny with
  | some (operand, f) => operand.asReference?.map fun operand => (operand, f)
  | none => none

/-- Take a reference to a kind of thing. -/
def popReferenceTo (space : TypeSpace) (f : Frame) (kind : AbstractHeap) :
    Option (Operand × Frame) :=
  match f.popReference with
  | some (operand, f) =>
    if operand.fits space (Context.nullRef kind) then some (operand, f) else none
  | none => none

/-- Take values of the given types, the first of them on top. -/
def popTopFirst (space : TypeSpace) (f : Frame) : List ValType → Option Frame
  | [] => some f
  | type :: rest =>
    match f.pop space type with
    | some f => f.popTopFirst space rest
    | none => none

/-- Take values of the given types, the last of them on top. -/
def popAll (space : TypeSpace) (f : Frame) (types : List ValType) : Option Frame :=
  f.popTopFirst space types.reverse

/-- Take `count` values of one type. -/
def popMany (space : TypeSpace) (f : Frame) (count : Nat) (type : ValType) : Option Frame :=
  if count ≤ f.stack.length ∨ f.dead then
    if (f.stack.take count).all fun operand => operand.fits space type then
      some { f with stack := f.stack.drop count }
    else none
  else none

/-- Put a value on the stack. -/
def push (f : Frame) (operand : Operand) : Frame := { f with stack := operand :: f.stack }

/-- Put values of the given types on the stack, the last of them on top. -/
def pushAll (f : Frame) (types : List ValType) : Frame :=
  { f with stack := types.reverse.map .value ++ f.stack }

/-- Take the parameters of a signature and put its results on the stack. -/
def apply (space : TypeSpace) (f : Frame) (signature : FuncType) : Option Frame :=
  (f.popAll space signature.params).map (·.pushAll signature.results)

/-- Take values of the given types and put values of exactly these types in their place. -/
def retype (space : TypeSpace) (f : Frame) (types : List ValType) : Option Frame :=
  f.apply space ⟨types, types⟩

/-- Nothing after this point of the block can be reached. -/
def abandon (f : Frame) : Frame := { f with stack := [], dead := true }

/-- Note that a local variable is set. -/
def assign (f : Frame) (i : Nat) : Frame := { f with assigned := i :: f.assigned }

/-- The types that a branch to the block takes along. -/
def labelTypes (f : Frame) : List ValType :=
  match f.kind with
  | .loop => f.signature.params
  | _ => f.signature.results

/-- The block leaves exactly its results. -/
def closes (space : TypeSpace) (f : Frame) : Bool :=
  match f.popAll space f.signature.results with
  | some f => f.stack.isEmpty
  | none => false

end Frame

/-- The function whose body is typed: the types of its local variables and of its results. -/
structure Typing where
  context : Context
  locals : Array ValType
  results : List ValType

namespace Typing

variable (typing : Typing)

/-- The types of the module. -/
def space : TypeSpace := typing.context.space

/-- Open a block whose parameters are taken from the block around it. -/
def enter (kind : BlockKind) (signature : Option FuncType) (f : Frame) (outer : List Frame) :
    Option (List Frame) := do
  let signature ← signature
  let f ← f.popAll typing.space signature.params
  some (Frame.opened kind signature f.assigned :: f :: outer)

/-- The first list of types may stand for the second. -/
def listBelow (types above : List ValType) : Bool :=
  types.length == above.length && TypeSpace.allBelow typing.space.isSubtype types above

/-- Leave the function with the results of another one. -/
def tailCall (signature : Option FuncType) (f : Frame) : Option Frame := do
  let signature ← signature
  if typing.listBelow signature.results typing.results then
    let f ← f.popAll typing.space signature.params
    some f.abandon
  else none

/-- The types that a branch to a label takes along. -/
def label? (frames : List Frame) (label : Nat) : Option (List ValType) :=
  frames[label]?.map Frame.labelTypes

/-- Every label of a branch table takes as many values as the default one, of the types on the
stack. -/
def labelsAgree (frames : List Frame) (f : Frame) (labels : List Nat) (default : List ValType) :
    Bool :=
  labels.all fun label =>
    match label? frames label with
    | some types => types.length == default.length && (f.popAll typing.space types).isSome
    | none => false

/-- A catch clause branches to a label that takes along what is caught. -/
def clauseAllowed (frames : List Frame) : CatchClause → Bool
  | .tagged tag label =>
    match typing.context.tag? tag, label? frames label with
    | some t, some types => typing.listBelow t.params types
    | _, _ => false
  | .taggedRef tag label =>
    match typing.context.tag? tag, label? frames label with
    | some t, some types =>
      typing.listBelow (t.params ++ [.ref ⟨false, .abstract false .exn⟩]) types
    | _, _ => false
  | .all label => label? frames label == some []
  | .allRef label =>
    match label? frames label with
    | some types => typing.listBelow [.ref ⟨false, .abstract false .exn⟩] types
    | none => false

/-- The type that a selection without a stated type leaves: that of both its operands, which may not
be references. -/
def selected? : Operand → Operand → Option Operand
  | .reference _, _ | .value (.ref _), _ => none
  | _, .reference _ | _, .value (.ref _) => none
  | .unknown, operand => some operand
  | operand, .unknown => some operand
  | .value t, .value s => if t = s then some (.value t) else none

/-- The type of a local variable that may be read. -/
def readable? (f : Frame) (i : Nat) : Option ValType :=
  match typing.locals[i]? with
  | some t => if t.isDefaultable ∨ i ∈ f.assigned then some t else none
  | none => none

/-- Set a local variable, whose new value has been taken from the stack. -/
def setLocal (f : Frame) (i : Nat) (type : ValType) : Frame :=
  if type.isDefaultable then f else f.assign i

/-- Branch on a cast: the source and target types with canonical positions, the types that the branch
takes along besides the reference, and the type it expects of the reference. The target type has to
lie below the source type. -/
def castBranch? (frames : List Frame) (label : Nat) (source target : RefType) :
    Option (RefType × RefType × List ValType × ValType) := do
  let source ← typing.space.resolveRefType? source
  let target ← typing.space.resolveRefType? target
  let types ← label? frames label
  let last ← types.getLast?
  if typing.space.refBelow target source then some (source, target, types.dropLast, last) else none

/-- The type of the references of the first type that a cast to the second does not accept. -/
def difference (source target : RefType) : RefType :=
  if target.nullable then { source with nullable := false } else source

/-- The block after an operation that neither opens nor closes a block; `none` if the operation is not
allowed. -/
def stepInside (f : Frame) (outer : List Frame) (op : Op) : Option Frame :=
  match op with
  | .unreachable => some f.abandon
  | .throw tag => do
    let t ← typing.context.tag? tag
    let f ← f.popAll typing.space t.params
    some f.abandon
  | .throwRef => do
    let f ← f.pop typing.space (Context.nullRef .exn)
    some f.abandon
  | .br label => do
    let types ← label? (f :: outer) label
    let f ← f.popAll typing.space types
    some f.abandon
  | .brIf label => do
    let types ← label? (f :: outer) label
    let f ← f.pop typing.space .i32
    f.retype typing.space types
  | .brTable labels default => do
    let types ← label? (f :: outer) default
    let f ← f.pop typing.space .i32
    if typing.labelsAgree (f :: outer) f labels types then
      let f ← f.popAll typing.space types
      some f.abandon
    else none
  | .brOnNull label => do
    let types ← label? (f :: outer) label
    let (operand, f) ← f.popReference
    let f ← f.retype typing.space types
    some (f.push operand.nonNull)
  | .brOnNonNull label => do
    let types ← label? (f :: outer) label
    match types.getLast? with
    | some (.ref type) =>
      let f ← f.pop typing.space (.ref { type with nullable := true })
      f.retype typing.space types.dropLast
    | _ => none
  | .brOnCast label source target => do
    let (source, target, types, last) ← typing.castBranch? (f :: outer) label source target
    if typing.space.isSubtype (.ref target) last then
      let f ← f.pop typing.space (.ref source)
      let f ← f.retype typing.space types
      some (f.push (.value (.ref (difference source target))))
    else none
  | .brOnCastFail label source target => do
    let (source, target, types, last) ← typing.castBranch? (f :: outer) label source target
    if typing.space.isSubtype (.ref (difference source target)) last then
      let f ← f.pop typing.space (.ref source)
      let f ← f.retype typing.space types
      some (f.push (.value (.ref target)))
    else none
  | .ret => do
    let f ← f.popAll typing.space typing.results
    some f.abandon
  | .retCall g => typing.tailCall (typing.context.function? g) f
  | .retCallIndirect typeIndex table => do
    let f ← f.pop typing.space .i32
    typing.tailCall (typing.context.indirectSignature? typeIndex table) f
  | .retCallRef i => do
    let self ← typing.space.refTo? true i
    let f ← f.pop typing.space self
    typing.tailCall (typing.space.func? i) f
  | .drop => do
    let (_, f) ← f.popAny
    some f
  | .select (some t) => do
    let t ← typing.space.resolve? t
    f.apply typing.space ⟨[t, t, .i32], [t]⟩
  | .select none => do
    let f ← f.pop typing.space .i32
    let (s, f) ← f.popAny
    let (t, f) ← f.popAny
    let operand ← selected? s t
    some (f.push operand)
  | .localGet i => do
    let t ← typing.readable? f i
    some (f.pushAll [t])
  | .localSet i => do
    let t ← typing.locals[i]?
    let f ← f.pop typing.space t
    some (setLocal f i t)
  | .localTee i => do
    let t ← typing.locals[i]?
    let f ← f.apply typing.space ⟨[t], [t]⟩
    some (setLocal f i t)
  | .refIsNull => do
    let (_, f) ← f.popReference
    some (f.pushAll [.i32])
  | .refAsNonNull => do
    let (operand, f) ← f.popReference
    some (f.push operand.nonNull)
  | .externalConvertAny => do
    let (operand, f) ← f.popReferenceTo typing.space .any
    some (f.push (operand.converted .external))
  | .anyConvertExternal => do
    let (operand, f) ← f.popReferenceTo typing.space .external
    some (f.push (operand.converted .any))
  | .arrayNewFixed i length => do
    let t ← typing.space.array? i
    let self ← typing.space.refTo? false i
    let f ← f.popMany typing.space length t.storage.unpacked
    some (f.pushAll [self])
  | op => do
    let signature ← typing.context.signature? op
    f.apply typing.space signature

/-- The blocks after an operation, innermost first; `none` if the operation is not allowed. When the
body itself is closed there are no blocks left, and nothing may follow. -/
def step : List Frame → Op → Option (List Frame)
  | [], _ => none
  | f :: outer, op =>
    match op with
    | .block t => typing.enter .plain (typing.context.blockSignature? t) f outer
    | .loop t => typing.enter .loop (typing.context.blockSignature? t) f outer
    | .ifThen t => do
      let f ← f.pop typing.space .i32
      typing.enter .ifThen (typing.context.blockSignature? t) f outer
    | .tryTable t clauses => do
      let frames ← typing.enter .plain (typing.context.blockSignature? t) f outer
      if clauses.all (typing.clauseAllowed (f :: outer)) then some frames else none
    | .otherwise =>
      match outer with
      | g :: rest =>
        if f.kind = .ifThen ∧ f.closes typing.space then
          some (Frame.opened .plain f.signature g.assigned :: g :: rest)
        else none
      | [] => none
    | .finish =>
      if f.closes typing.space ∧
          (f.kind = .ifThen → typing.listBelow f.signature.params f.signature.results) then
        match outer with
        | [] => some []
        | g :: rest => some (g.pushAll f.signature.results :: rest)
      else none
    | op => (typing.stepInside f outer op).map (· :: outer)

/-- The blocks after a list of operations. -/
def run : List Frame → List Op → Option (List Frame)
  | frames, [] => some frames
  | frames, op :: rest =>
    match typing.step frames op with
    | some frames => run frames rest
    | none => none

/-- The operations, the last of which is the end of the body, leave exactly the results. The local
variables of `assigned` have values from the start. -/
def accepts (assigned : List Nat) (ops : List Op) : Bool :=
  match typing.run [Frame.opened .plain ⟨[], typing.results⟩ assigned] ops with
  | some frames => frames.isEmpty
  | none => false

end Typing

/-- The greatest number of local variables of a function. -/
def maxLocals : Nat := 50000

/-- The types of the declared local variables, run by run. -/
def Body.localTypes? (context : Context) (body : Body) : Option (List (Nat × ValType)) :=
  body.locals.mapM fun run => (context.space.resolve? run.2).map fun type => (run.1, type)

/-- A body is allowed for a function type: it does not have too many local variables and leaves the
results. The parameters have values from the start. -/
def Body.hasType (context : Context) (body : Body) (type : FuncType) : Bool :=
  let declared := body.locals.foldl (fun n run => n + run.1) 0
  decide (type.params.length + declared ≤ maxLocals) &&
    match body.localTypes? context with
    | some runs =>
      let locals := type.params ++ runs.flatMap fun run => List.replicate run.1 run.2
      Typing.accepts { context, locals := locals.toArray, results := type.results }
        (List.range type.params.length) body.ops
    | none => false

namespace Context

/-- The operation may stand in a constant expression. Conversions between references to things inside
and outside of the module may not. -/
def isConstant (context : Context) : Op → Bool
  | .i32Const _ | .i64Const _ | .f32Const _ | .f64Const _ | .v128Const _ => true
  | .refNull _ | .refFunc _ | .refI31 => true
  | .structNew _ | .structNewDefault _ => true
  | .arrayNew _ | .arrayNewDefault _ | .arrayNewFixed .. => true
  | .finish => true
  | .globalGet i =>
    match context.globals[i]? with
    | some g => !g.isMutable
    | none => false
  | .numeric code => code ∈ [0x6a, 0x6b, 0x6c, 0x7c, 0x7d, 0x7e]
  | _ => false

/-- A constant expression has the given type. -/
def constantHasType (context : Context) (ops : List Op) (type : ValType) : Bool :=
  ops.all context.isConstant && Typing.accepts { context, locals := #[], results := [type] } [] ops

end Context

end WasmFormula
