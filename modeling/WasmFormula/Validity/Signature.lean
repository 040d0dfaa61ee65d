import WasmFormula.Binary.TypeDefinition

/-!
# Signatures of stack operations

The operands and results of the operations that are known by their opcode: operations on numbers,
conversions, vector operations, and loads and stores.
-/

namespace WasmFormula

/-- The operands and results of the operations on plain numbers, by opcode. -/
def numericSignature? (code : Nat) : Option FuncType :=
  let unary (t r : ValType) : FuncType := ⟨[t], [r]⟩
  let binary (t r : ValType) : FuncType := ⟨[t, t], [r]⟩
  if code < 0x45 then none
  else if code = 0x45 then some (unary .i32 .i32)
  else if code ≤ 0x4f then some (binary .i32 .i32)
  else if code = 0x50 then some (unary .i64 .i32)
  else if code ≤ 0x5a then some (binary .i64 .i32)
  else if code ≤ 0x60 then some (binary .f32 .i32)
  else if code ≤ 0x66 then some (binary .f64 .i32)
  else if code ≤ 0x69 then some (unary .i32 .i32)
  else if code ≤ 0x78 then some (binary .i32 .i32)
  else if code ≤ 0x7b then some (unary .i64 .i64)
  else if code ≤ 0x8a then some (binary .i64 .i64)
  else if code ≤ 0x91 then some (unary .f32 .f32)
  else if code ≤ 0x98 then some (binary .f32 .f32)
  else if code ≤ 0x9f then some (unary .f64 .f64)
  else if code ≤ 0xa6 then some (binary .f64 .f64)
  else if code = 0xa7 then some (unary .i64 .i32)
  else if code ≤ 0xa9 then some (unary .f32 .i32)
  else if code ≤ 0xab then some (unary .f64 .i32)
  else if code ≤ 0xad then some (unary .i32 .i64)
  else if code ≤ 0xaf then some (unary .f32 .i64)
  else if code ≤ 0xb1 then some (unary .f64 .i64)
  else if code ≤ 0xb3 then some (unary .i32 .f32)
  else if code ≤ 0xb5 then some (unary .i64 .f32)
  else if code = 0xb6 then some (unary .f64 .f32)
  else if code ≤ 0xb8 then some (unary .i32 .f64)
  else if code ≤ 0xba then some (unary .i64 .f64)
  else if code = 0xbb then some (unary .f32 .f64)
  else if code = 0xbc then some (unary .f32 .i32)
  else if code = 0xbd then some (unary .f64 .i64)
  else if code = 0xbe then some (unary .i32 .f32)
  else if code = 0xbf then some (unary .i64 .f64)
  else if code ≤ 0xc1 then some (unary .i32 .i32)
  else if code ≤ 0xc4 then some (unary .i64 .i64)
  else none

/-- The operands and results of the saturating conversions, by their number. -/
def truncateSignature? (code : Nat) : Option FuncType :=
  if code ≤ 1 then some ⟨[.f32], [.i32]⟩
  else if code ≤ 3 then some ⟨[.f64], [.i32]⟩
  else if code ≤ 5 then some ⟨[.f32], [.i64]⟩
  else if code ≤ 7 then some ⟨[.f64], [.i64]⟩
  else none

/-! ## Vector operations -/

/-- The number lies in one of the ranges, which are given by their first and last numbers. -/
def inRanges (ranges : List (Nat × Nat)) (n : Nat) : Bool :=
  ranges.any fun (first, last) => decide (first ≤ n ∧ n ≤ last)

/-- The numbers of the operations from one vector to one vector. -/
def vectorUnary : List (Nat × Nat) :=
  [(0x4d, 0x4d), (0x5e, 0x62), (0x67, 0x6a), (0x74, 0x75), (0x7a, 0x7a), (0x7c, 0x81),
    (0x87, 0x8a), (0x94, 0x94), (0xa0, 0xa1), (0xa7, 0xaa), (0xc0, 0xc1), (0xc7, 0xca),
    (0xe0, 0xe1), (0xe3, 0xe3), (0xec, 0xed), (0xef, 0xef), (0xf8, 0xff), (0x101, 0x104)]

/-- The numbers of the operations from two vectors to one vector. -/
def vectorBinary : List (Nat × Nat) :=
  [(0x0e, 0x0e), (0x23, 0x4c), (0x4e, 0x51), (0x65, 0x66), (0x6e, 0x73), (0x76, 0x79),
    (0x7b, 0x7b), (0x82, 0x82), (0x85, 0x86), (0x8e, 0x93), (0x95, 0x99), (0x9b, 0x9f),
    (0xae, 0xae), (0xb1, 0xb1), (0xb5, 0xba), (0xbc, 0xbf), (0xce, 0xce), (0xd1, 0xd1),
    (0xd5, 0xdf), (0xe4, 0xeb), (0xf0, 0xf7), (0x100, 0x100), (0x10d, 0x112)]

/-- The numbers of the operations from three vectors to one vector. -/
def vectorTernary : List (Nat × Nat) := [(0x52, 0x52), (0x105, 0x10c), (0x113, 0x113)]

/-- The numbers of the operations from one vector to an integer. -/
def vectorTests : List (Nat × Nat) :=
  [(0x53, 0x53), (0x63, 0x64), (0x83, 0x84), (0xa3, 0xa4), (0xc3, 0xc4)]

/-- The numbers of the operations that shift all lanes of a vector. -/
def vectorShifts : List (Nat × Nat) :=
  [(0x6b, 0x6d), (0x8b, 0x8d), (0xab, 0xad), (0xcb, 0xcd)]

/-- The operands and results of the vector operations without immediate operands, by their number. -/
def vectorSignature? (code : Nat) : Option FuncType :=
  if inRanges vectorUnary code then some ⟨[.v128], [.v128]⟩
  else if inRanges vectorBinary code then some ⟨[.v128, .v128], [.v128]⟩
  else if inRanges vectorTernary code then some ⟨[.v128, .v128, .v128], [.v128]⟩
  else if inRanges vectorTests code then some ⟨[.v128], [.i32]⟩
  else if inRanges vectorShifts code then some ⟨[.v128, .i32], [.v128]⟩
  else if inRanges [(0x0f, 0x11)] code then some ⟨[.i32], [.v128]⟩
  else if code = 0x12 then some ⟨[.i64], [.v128]⟩
  else if code = 0x13 then some ⟨[.f32], [.v128]⟩
  else if code = 0x14 then some ⟨[.f64], [.v128]⟩
  else none

/-- The operands and results of the operations that read or replace a lane, by their number. -/
def laneSignature? (code : Nat) : Option FuncType :=
  let reads (t : ValType) : FuncType := ⟨[.v128], [t]⟩
  let replaces (t : ValType) : FuncType := ⟨[.v128, t], [.v128]⟩
  match code with
  | 0x15 | 0x16 | 0x18 | 0x19 | 0x1b => some (reads .i32)
  | 0x17 | 0x1a | 0x1c => some (replaces .i32)
  | 0x1d => some (reads .i64)
  | 0x1e => some (replaces .i64)
  | 0x1f => some (reads .f32)
  | 0x20 => some (replaces .f32)
  | 0x21 => some (reads .f64)
  | 0x22 => some (replaces .f64)
  | _ => none

/-! ## Loads and stores -/

/-- An operation on a memory: the exponent of the number of bytes it moves, and its operands after the
address and its results. -/
structure AccessKind where
  sizeLog2 : Nat
  operands : List ValType
  results : List ValType

namespace AccessKind

/-- A load of a value of the type from `2 ^ sizeLog2` bytes. -/
def load (type : ValType) (sizeLog2 : Nat) : AccessKind := ⟨sizeLog2, [], [type]⟩

/-- A store of a value of the type to `2 ^ sizeLog2` bytes. -/
def store (type : ValType) (sizeLog2 : Nat) : AccessKind := ⟨sizeLog2, [type], []⟩

/-- The operands, with the address first, and the results. -/
def signature (kind : AccessKind) : FuncType := ⟨.i32 :: kind.operands, kind.results⟩

/-- The load or store of an opcode. -/
def ofOpcode? (code : Nat) : Option AccessKind :=
  match code with
  | 0x28 => some (load .i32 2)
  | 0x29 => some (load .i64 3)
  | 0x2a => some (load .f32 2)
  | 0x2b => some (load .f64 3)
  | 0x2c | 0x2d => some (load .i32 0)
  | 0x2e | 0x2f => some (load .i32 1)
  | 0x30 | 0x31 => some (load .i64 0)
  | 0x32 | 0x33 => some (load .i64 1)
  | 0x34 | 0x35 => some (load .i64 2)
  | 0x36 => some (store .i32 2)
  | 0x37 => some (store .i64 3)
  | 0x38 => some (store .f32 2)
  | 0x39 => some (store .f64 3)
  | 0x3a => some (store .i32 0)
  | 0x3b => some (store .i32 1)
  | 0x3c => some (store .i64 0)
  | 0x3d => some (store .i64 1)
  | 0x3e => some (store .i64 2)
  | _ => none

/-- The load or store of the number of a vector operation. Up to `0x0a`, the operation loads a whole
vector, loads half a vector and widens it, or loads one lane and repeats it. -/
def ofVector? (code : Nat) : Option AccessKind :=
  match code with
  | 0x00 => some (load .v128 4)
  | 0x01 | 0x02 | 0x03 | 0x04 | 0x05 | 0x06 => some (load .v128 3)
  | 0x07 => some (load .v128 0)
  | 0x08 => some (load .v128 1)
  | 0x09 => some (load .v128 2)
  | 0x0a => some (load .v128 3)
  | 0x0b => some (store .v128 4)
  | 0x5c => some (load .v128 2)
  | 0x5d => some (load .v128 3)
  | _ => none

/-- The load or store of one lane, by the number of the vector operation. -/
def ofVectorLane? (code : Nat) : Option AccessKind :=
  if 0x54 ≤ code ∧ code ≤ 0x57 then some ⟨code - 0x54, [.v128], [.v128]⟩
  else if 0x58 ≤ code ∧ code ≤ 0x5b then some ⟨code - 0x58, [.v128], []⟩
  else none

/-- The widths in which atomic operations come, in the order of their numbers: the type of the value
and the exponent of the number of bytes. -/
def atomicWidths : List (ValType × Nat) :=
  [(.i32, 2), (.i64, 3), (.i32, 0), (.i32, 1), (.i64, 0), (.i64, 1), (.i64, 2)]

/-- The atomic operation of a number: notifying, waiting, loads, stores, updates, and updates that
depend on the present value. -/
def ofAtomic? (code : Nat) : Option AccessKind :=
  let width (n : Nat) : Option (ValType × Nat) := atomicWidths[n % 7]?
  if code = 0x00 then some ⟨2, [.i32], [.i32]⟩
  else if code = 0x01 then some ⟨2, [.i32, .i64], [.i32]⟩
  else if code = 0x02 then some ⟨3, [.i64, .i64], [.i32]⟩
  else if code < 0x10 then none
  else if code ≤ 0x16 then (width (code - 0x10)).map fun (t, size) => load t size
  else if code ≤ 0x1d then (width (code - 0x17)).map fun (t, size) => store t size
  else if code ≤ 0x47 then (width (code - 0x1e)).map fun (t, size) => ⟨size, [t], [t]⟩
  else if code ≤ 0x4e then (width (code - 0x48)).map fun (t, size) => ⟨size, [t, t], [t]⟩
  else none

end AccessKind

end WasmFormula
