import WasmFormula.Binary.Leb

/-!
# Reading binary modules

A reader takes an item off the front of a byte string, or finds the flaw that makes this impossible.
`Reader.entries` reads a counted list that must fill its bytes exactly and keeps what was read before
a flaw, so that a caller can act on the entries in the order in which they stand.
-/

namespace WasmFormula

/-- A reader of one item. -/
abbrev Reader (α : Type) := StateT Bytes (Except Flaw) α

namespace Reader

variable {α : Type}

/-- Give up with a flaw. -/
def fail (flaw : Flaw) : Reader α := fun _ => .error flaw

/-- The next byte. -/
def byte : Reader UInt8
  | [] => .error .ended
  | b :: rest => .ok (b, rest)

/-- The next byte, which is left where it is. -/
def peek : Reader UInt8
  | [] => .error .ended
  | b :: rest => .ok (b, b :: rest)

/-- An unsigned number of 32 bits. -/
def u32 : Reader Nat := Leb.readUnsigned 32

/-- An unsigned number of 64 bits. -/
def u64 : Reader Nat := Leb.readUnsigned 64

/-- A signed number of the given width. -/
def signed (width : Nat) : Reader Int := Leb.readSigned width

/-- The next `n` bytes. -/
def take (n : Nat) : Reader Bytes := fun bytes =>
  match bytes.split n with
  | some parts => .ok parts
  | none => .error .ended

/-- Bytes with their number before them. -/
def sized : Reader Bytes := do
  let n ← u32
  take n

/-- The greatest number of bytes of a name. -/
def maxNameLength : Nat := 100000

/-- A name: UTF-8 with its number of bytes before it. -/
def name : Reader String := do
  let n ← u32
  if maxNameLength < n then fail (.nameTooLong n)
  else
    let raw ← take n
    match String.fromUTF8? ⟨raw.toArray⟩ with
    | some s => pure s
    | none => fail .nameNotText

/-- The loop of `count`: `n` items, in front of which stand those of `done`, last first. -/
def countLoop (item : Reader α) : Nat → List α → Bytes → Except Flaw (List α × Bytes)
  | 0, done, bytes => .ok (done.reverse, bytes)
  | n + 1, done, bytes =>
    match item bytes with
    | .ok (a, rest) => countLoop item n (a :: done) rest
    | .error flaw => .error flaw

/-- Exactly `n` items. -/
def count (n : Nat) (item : Reader α) : Reader (List α) := countLoop item n []

/-- A list with its length before it. -/
def list (item : Reader α) : Reader (List α) := do
  let n ← u32
  count n item

/-- A list with its length before it, which may not be above `limit`. -/
def listUpTo (limit : Nat) (item : Reader α) : Reader (List α) := do
  let n ← u32
  if limit < n then fail (.tooMany n) else count n item

/-- The item that all of the bytes make up. -/
def whole (item : Reader α) (bytes : Bytes) : Except Flaw α :=
  match item bytes with
  | .ok (a, []) => .ok a
  | .ok (_, _ :: _) => .error .leftover
  | .error flaw => .error flaw

/-- The loop of `entries`: `n` items up to the end of the bytes, after those of `done`, last first. -/
def entriesLoop (item : Reader α) : Nat → List α → Bytes → List α × Option Flaw
  | 0, done, [] => (done.reverse, none)
  | 0, done, _ :: _ => (done.reverse, some .leftover)
  | n + 1, done, bytes =>
    match item bytes with
    | .ok (a, rest) => entriesLoop item n (a :: done) rest
    | .error flaw => (done.reverse, some flaw)

/-- The entries of a counted list that makes up all of the bytes: those before the first flaw, and
that flaw if there is one. -/
def entries (item : Reader α) (bytes : Bytes) : List α × Option Flaw :=
  match u32 bytes with
  | .ok (n, rest) => entriesLoop item n [] rest
  | .error flaw => ([], some flaw)

/-- The entries of a counted list without flaws that makes up all of the bytes. -/
def allEntries (item : Reader α) (bytes : Bytes) : Except Flaw (List α) :=
  match entries item bytes with
  | (items, none) => .ok items
  | (_, some flaw) => .error flaw

end Reader

end WasmFormula
