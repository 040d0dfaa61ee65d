import WasmFormula.Proofs.TypeExtension

/-!
# More functions

`Context.Extends` says that one context has more types and functions than another and is the same
otherwise. Every operation that has a signature in the smaller context has the same signature in the
larger one (`Extends.signature`).
-/

namespace WasmFormula.Context

/-- The second context has the types and functions of the first, at the same indices, and perhaps
more. All other things are the same. -/
structure Extends (context after : Context) : Prop where
  space : context.space.Extends after.space
  functions : context.functions <+: after.functions
  tables : after.tables = context.tables
  memories : after.memories = context.memories
  globals : after.globals = context.globals
  tags : after.tags = context.tags
  elements : after.elements = context.elements
  dataCount : after.dataCount = context.dataCount
  referenced : ∀ f ∈ context.referenced, f ∈ after.referenced

namespace Extends

variable {context after : Context} (h : context.Extends after)
include h

/-- A function keeps its type. -/
theorem function (i : Nat) : Keeps (context.function? i) (after.function? i) :=
  (Keeps.getElem h.functions i).bind h.space.funcAt

/-- A tag keeps its type. -/
theorem tag (i : Nat) : Keeps (context.tag? i) (after.tag? i) := by
  rw [tag?, tag?, h.tags]
  exact (Keeps.refl _).bind h.space.funcAt

/-- A block keeps its signature. -/
theorem blockSignature (t : BlockType) :
    Keeps (context.blockSignature? t) (after.blockSignature? t) := by
  cases t with
  | empty => exact .refl _
  | value t => exact (h.space.resolve t).map _
  | indexed i => exact h.space.func i

/-- An indirect call keeps its signature. -/
theorem indirectSignature (typeIndex table : Nat) :
    Keeps (context.indirectSignature? typeIndex table)
      (after.indirectSignature? typeIndex table) := by
  rw [indirectSignature?, indirectSignature?, h.tables]
  exact (Keeps.refl _).bind fun t => .ite h.space.refBelow (h.space.func typeIndex)

/-- A data segment stays. -/
theorem hasData {segment : Nat} (hd : context.hasData segment) : after.hasData segment := by
  rw [Context.hasData] at hd ⊢
  rwa [h.dataCount]

/-- References that may be copied from an element segment still may. -/
theorem takesSegment {segment : Nat} {t : FieldType} (ht : context.takesSegment segment t) :
    after.takesSegment segment t := by
  rw [Context.takesSegment] at ht ⊢
  rw [h.elements]
  split at ht
  · exact h.space.refBelow ht
  · cases ht

/-- The field of a structure stays. -/
theorem field (typeIndex i : Nat) : Keeps (context.field? typeIndex i) (after.field? typeIndex i) :=
  (h.space.struct typeIndex).bind fun _ => .refl _

/-! ## Signatures -/

/-- An operation on a memory keeps its signature. -/
theorem memorySignature (op : Op) :
    Keeps (context.memorySignature? op) (after.memorySignature? op) := by
  -- memory operations depend on nothing that there is more of
  unfold memorySignature? accessSignature? atomicSignature? Context.hasData
  rw [h.memories, h.dataCount]
  exact .refl _

/-- An operation on a table keeps its signature. -/
theorem tableSignature (op : Op) : Keeps (context.tableSignature? op) (after.tableSignature? op) := by
  unfold tableSignature?
  rw [h.tables, h.elements]
  cases op with
  | tableInit segment table =>
      exact (Keeps.refl _).bind fun t => (Keeps.refl _).bind fun s =>
        .ite h.space.refBelow (.refl _)
  | tableCopy target source =>
      exact (Keeps.refl _).bind fun t => (Keeps.refl _).bind fun s =>
        .ite h.space.refBelow (.refl _)
  | _ => exact .refl _

/-- An operation on references keeps its signature. -/
theorem refSignature (op : Op) : Keeps (context.refSignature? op) (after.refSignature? op) := by
  cases op with
  | refNull heap => exact (h.space.resolveRefType _).bind fun _ => .refl _
  | refFunc f => exact (Keeps.getElem h.functions f).bind fun _ => .ite (h.referenced f) (.refl _)
  | refTest type =>
      exact (h.space.resolveHeap _).bind fun heap => (h.space.top heap).bind fun _ => .refl _
  | refCast type =>
      exact (h.space.resolveHeap _).bind fun heap => (h.space.top heap).bind fun _ => .refl _
  | _ => exact .refl _

/-- An operation on structures keeps its signature. -/
theorem structSignature (op : Op) :
    Keeps (context.structSignature? op) (after.structSignature? op) := by
  cases op with
  | structNew i | structNewDefault i =>
      exact (h.space.struct i).bind fun _ => (h.space.refTo _ i).bind fun _ => .refl _
  | structGet extension i field =>
      exact (h.field i field).bind fun _ => (h.space.refTo _ i).bind fun _ => .refl _
  | structSet i field =>
      exact (h.field i field).bind fun _ => (h.space.refTo _ i).bind fun _ => .refl _
  | _ => exact .refl _

/-- An operation on arrays keeps its signature. -/
theorem arraySignature (op : Op) : Keeps (context.arraySignature? op) (after.arraySignature? op) := by
  cases op with
  | arrayNew i | arrayNewDefault i | arraySet i | arrayFill i =>
      exact (h.space.array i).bind fun _ => (h.space.refTo _ i).bind fun _ => .refl _
  | arrayGet extension i =>
      exact (h.space.array i).bind fun _ => (h.space.refTo _ i).bind fun _ => .refl _
  | arrayNewData i segment =>
      exact (h.space.array i).bind fun _ => (h.space.refTo _ i).bind fun _ =>
        .ite (And.imp_right h.hasData) (.refl _)
  | arrayInitData i segment =>
      exact (h.space.array i).bind fun _ => (h.space.refTo _ i).bind fun _ =>
        .ite (And.imp_right (And.imp_right h.hasData)) (.refl _)
  | arrayNewElem i segment =>
      exact (h.space.array i).bind fun _ => (h.space.refTo _ i).bind fun _ =>
        .ite h.takesSegment (.refl _)
  | arrayInitElem i segment =>
      exact (h.space.array i).bind fun _ => (h.space.refTo _ i).bind fun _ =>
        .ite (And.imp_right h.takesSegment) (.refl _)
  | arrayCopy target source =>
      exact (h.space.array target).bind fun _ => (h.space.array source).bind fun _ =>
        (h.space.refTo _ target).bind fun _ => (h.space.refTo _ source).bind fun _ =>
          .ite (And.imp_right h.space.storageBelow) (.refl _)
  | _ => exact .refl _

/-- What an operation takes and leaves does not change. -/
theorem signature (op : Op) : Keeps (context.signature? op) (after.signature? op) := by
  have hmemory := h.memorySignature op
  have htable := h.tableSignature op
  have href := h.refSignature op
  have hstruct := h.structSignature op
  have harray := h.arraySignature op
  cases op with
  | call f => exact h.function f
  | callIndirect typeIndex table =>
      exact (h.indirectSignature typeIndex table).bind fun _ => .refl _
  | callRef i => exact (h.space.func i).bind fun _ => (h.space.refTo _ i).bind fun _ => .refl _
  | globalGet i | globalSet i =>
      unfold signature?
      rw [h.globals]
      exact .refl _
  | access | vectorAccess | vectorLaneAccess | atomic | memorySize | memoryGrow | memoryInit
  | dataDrop | memoryCopy | memoryFill => exact hmemory.or_none
  | tableGet | tableSet | tableInit | elemDrop | tableCopy | tableGrow | tableSize | tableFill =>
      exact htable.or_none
  | refNull | refFunc | refTest | refCast => exact href.or_none
  | structNew | structNewDefault | structGet | structSet => exact hstruct.or_none
  | arrayNew | arrayNewDefault | arrayNewData | arrayNewElem | arrayGet | arraySet | arrayFill
  | arrayCopy | arrayInitData | arrayInitElem => exact harray
  | _ => exact .refl _

end Extends

end WasmFormula.Context
