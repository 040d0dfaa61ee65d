import WasmFormula.Proofs.ContextExtension
import WasmFormula.Validity.Typing

/-!
# Typing with more types and functions

A body that is well typed in a context is well typed in every context that extends it, and so are
constant expressions (`hasType`, `constantHasType`). What one operation does to the blocks is kept
(`step`), and with it what a whole body does (`run`).
-/

namespace WasmFormula

/-! ## Blocks -/

namespace Frame

variable {space after : TypeSpace} (h : space.Extends after)
include h

/-- An operand still fits a type. -/
theorem fits_of_extends {operand : Operand} {type : ValType} (hfits : operand.fits space type) :
    operand.fits after type := by
  cases operand with
  | unknown => rfl
  | value t => exact h.isSubtype hfits
  | reference kind =>
      cases kind with
      | none => cases type <;> exact hfits
      | some kind =>
          cases type with
          | ref type =>
              simp only [Operand.fits] at hfits ⊢
              rw [h.isShared_eq]
              exact h.refBelow hfits
          | _ => cases hfits

/-- An operand is taken from the stack as before. -/
theorem keeps_pop (f : Frame) (type : ValType) : Keeps (f.pop space type) (f.pop after type) := by
  unfold pop
  split
  · exact .ite (fits_of_extends h) (.refl _)
  · exact .refl _

/-- A reference is taken from the stack as before. -/
theorem keeps_popReferenceTo (f : Frame) (kind : AbstractHeap) :
    Keeps (f.popReferenceTo space kind) (f.popReferenceTo after kind) := by
  unfold popReferenceTo
  split
  · exact .ite (fits_of_extends h) (.refl _)
  · exact .refl _

/-- Operands are taken from the stack, the topmost first, as before. -/
theorem keeps_popTopFirst (f : Frame) (types : List ValType) :
    Keeps (f.popTopFirst space types) (f.popTopFirst after types) := by
  induction types generalizing f with
  | nil => exact .refl _
  | cons type rest ih =>
      intro result hresult
      rw [popTopFirst] at hresult ⊢
      split at hresult
      · rename_i next hnext
        rw [keeps_pop h f type next hnext]
        exact ih next result hresult
      · cases hresult

/-- Operands are taken from the stack as before. -/
theorem keeps_popAll (f : Frame) (types : List ValType) :
    Keeps (f.popAll space types) (f.popAll after types) :=
  keeps_popTopFirst h f types.reverse

/-- Operands of one type are taken from the stack as before. -/
theorem keeps_popMany (f : Frame) (count : Nat) (type : ValType) :
    Keeps (f.popMany space count type) (f.popMany after count type) := by
  refine .ite id (.ite (fun hall => ?_) (.refl _))
  rw [List.all_eq_true] at hall ⊢
  exact fun operand hoperand => fits_of_extends h (hall operand hoperand)

/-- A signature is applied as before. -/
theorem keeps_apply (f : Frame) (signature : FuncType) :
    Keeps (f.apply space signature) (f.apply after signature) :=
  (keeps_popAll h f signature.params).map _

/-- The operands on the stack are given types as before. -/
theorem keeps_retype (f : Frame) (types : List ValType) :
    Keeps (f.retype space types) (f.retype after types) :=
  keeps_apply h f ⟨types, types⟩

/-- A frame still closes. -/
theorem closes_of_extends {f : Frame} (hcloses : f.closes space) : f.closes after := by
  rw [closes] at hcloses ⊢
  split at hcloses
  · rename_i rest hrest
    rw [keeps_popAll h f _ rest hrest]
    exact hcloses
  · cases hcloses

end Frame

/-! ## Operations -/

namespace Typing

/-- The same function in a context with more types and functions. -/
structure Extends (typing after : Typing) : Prop where
  context : typing.context.Extends after.context
  locals : after.locals = typing.locals
  results : after.results = typing.results

namespace Extends

variable {typing after : Typing} (h : typing.Extends after)
include h

/-- The types of the context are extended. -/
theorem space : typing.space.Extends after.space := h.context.space

/-- A block is entered as before. -/
theorem enter (kind : BlockKind) {signature other : Option FuncType}
    (hsignature : Keeps signature other) (f : Frame) (outer : List Frame) :
    Keeps (typing.enter kind signature f outer) (after.enter kind other f outer) :=
  hsignature.bind fun _ => (Frame.keeps_popAll h.space f _).bind fun _ => .refl _

/-- A list of types stays below another. -/
theorem listBelow {types above : List ValType} (hbelow : typing.listBelow types above) :
    after.listBelow types above := by
  rw [Typing.listBelow, Bool.and_eq_true] at hbelow ⊢
  exact ⟨hbelow.1, TypeSpace.allBelow_of_imp (fun _ _ => h.space.isSubtype) hbelow.2⟩

/-- A tail call is checked as before. -/
theorem tailCall {signature other : Option FuncType} (hsignature : Keeps signature other)
    (f : Frame) :
    Keeps (typing.tailCall signature f) (after.tailCall other f) := by
  refine hsignature.bind fun signature => ?_
  rw [h.results]
  exact .ite h.listBelow ((Frame.keeps_popAll h.space f _).bind fun _ => .refl _)

/-- The labels of a branch table still agree. -/
theorem labelsAgree {frames : List Frame} {f : Frame} {labels : List Nat} {default : List ValType}
    (hagree : typing.labelsAgree frames f labels default) :
    after.labelsAgree frames f labels default := by
  rw [Typing.labelsAgree, List.all_eq_true] at hagree ⊢
  intro label hlabel
  have hone := hagree label hlabel
  split
  · rename_i types htypes
    rw [htypes] at hone
    simp only [Bool.and_eq_true] at hone ⊢
    exact ⟨hone.1, (Frame.keeps_popAll h.space f types).isSome hone.2⟩
  · rename_i hnone
    rw [hnone] at hone
    cases hone

/-- A branch on a cast is checked as before. -/
theorem castBranch (frames : List Frame) (label : Nat) (source target : RefType) :
    Keeps (typing.castBranch? frames label source target)
      (after.castBranch? frames label source target) :=
  (h.space.resolveRefType source).bind fun _ => (h.space.resolveRefType target).bind fun _ =>
    (Keeps.refl _).bind fun _ => (Keeps.refl _).bind fun _ => .ite h.space.refBelow (.refl _)

/-- A catch clause is still allowed. -/
theorem clauseAllowed {frames : List Frame} {clause : CatchClause}
    (hallowed : typing.clauseAllowed frames clause) : after.clauseAllowed frames clause := by
  cases clause with
  | tagged tag label | taggedRef tag label =>
      simp only [Typing.clauseAllowed] at hallowed ⊢
      split at hallowed
      · rename_i t types ht htypes
        rw [h.context.tag tag t ht, htypes]
        exact h.listBelow hallowed
      · cases hallowed
  | all label => exact hallowed
  | allRef label =>
      simp only [Typing.clauseAllowed] at hallowed ⊢
      split at hallowed
      · exact h.listBelow hallowed
      · cases hallowed

/-- A local that can be read still can. -/
theorem readable (f : Frame) (i : Nat) : Keeps (typing.readable? f i) (after.readable? f i) := by
  rw [readable?, readable?, h.locals]
  exact .refl _

/-- What an operation inside a block does is kept. -/
theorem stepInside (f : Frame) (outer : List Frame) (op : Op) :
    Keeps (typing.stepInside f outer op) (after.stepInside f outer op) := by
  have hpop := Frame.keeps_pop h.space
  have hpopAll := Frame.keeps_popAll h.space
  have hretype := Frame.keeps_retype h.space
  have happly := Frame.keeps_apply h.space
  have hdefault : Keeps ((typing.context.signature? op).bind (f.apply typing.space))
      ((after.context.signature? op).bind (f.apply after.space)) :=
    (h.context.signature op).bind (happly f)
  cases op with
  | throw tag => exact (h.context.tag tag).bind fun _ => (hpopAll f _).bind fun _ => .refl _
  | throwRef => exact (hpop f _).bind fun _ => .refl _
  | br label => exact (Keeps.refl _).bind fun _ => (hpopAll f _).bind fun _ => .refl _
  | brIf label => exact (Keeps.refl _).bind fun _ => (hpop f _).bind fun _ => hretype _ _
  | brTable labels default =>
      exact (Keeps.refl _).bind fun _ => (hpop f _).bind fun _ =>
        .ite h.labelsAgree ((hpopAll _ _).bind fun _ => .refl _)
  | brOnNull label =>
      exact (Keeps.refl _).bind fun _ => (Keeps.refl _).bind fun _ =>
        (hretype _ _).bind fun _ => .refl _
  | brOnNonNull label =>
      refine (Keeps.refl _).bind fun types => ?_
      split
      · exact (hpop f _).bind fun _ => hretype _ _
      · exact .refl _
  | brOnCast label source target =>
      refine (h.castBranch _ label source target).bind fun _ => ?_
      exact .ite h.space.isSubtype ((hpop _ _).bind fun _ => (hretype _ _).bind fun _ => .refl _)
  | brOnCastFail label source target =>
      refine (h.castBranch _ label source target).bind fun _ => ?_
      exact .ite h.space.isSubtype ((hpop _ _).bind fun _ => (hretype _ _).bind fun _ => .refl _)
  | ret =>
      unfold Typing.stepInside
      rw [h.results]
      exact (hpopAll f _).bind fun _ => .refl _
  | retCall g => exact h.tailCall (h.context.function g) f
  | retCallIndirect typeIndex table =>
      exact (hpop f _).bind fun _ => h.tailCall (h.context.indirectSignature typeIndex table) _
  | retCallRef i =>
      exact (h.space.refTo _ i).bind fun _ => (hpop f _).bind fun _ => h.tailCall (h.space.func i) _
  | select t =>
      cases t with
      | some t => exact (h.space.resolve t).bind fun _ => happly f _
      | none => exact (hpop f _).bind fun _ => .refl _
  | localGet i => exact (h.readable f i).bind fun _ => .refl _
  | localSet i =>
      unfold Typing.stepInside
      rw [h.locals]
      exact (Keeps.refl _).bind fun _ => (hpop f _).bind fun _ => .refl _
  | localTee i =>
      unfold Typing.stepInside
      rw [h.locals]
      exact (Keeps.refl _).bind fun _ => (happly f _).bind fun _ => .refl _
  | externalConvertAny | anyConvertExternal =>
      exact (Frame.keeps_popReferenceTo h.space f _).bind fun _ => .refl _
  | arrayNewFixed i length =>
      exact (h.space.array i).bind fun _ => (h.space.refTo _ i).bind fun _ =>
        (Frame.keeps_popMany h.space f _ _).bind fun _ => .refl _
  | unreachable | drop | refIsNull | refAsNonNull => exact .refl _
  | _ => exact hdefault

/-- What an operation does to the blocks is kept. -/
theorem step (frames : List Frame) (op : Op) :
    Keeps (typing.step frames op) (after.step frames op) := by
  cases frames with
  | nil => exact .refl _
  | cons f outer =>
      have hdefault : Keeps ((typing.stepInside f outer op).map (· :: outer))
          ((after.stepInside f outer op).map (· :: outer)) :=
        (h.stepInside f outer op).map _
      have hcloses : f.closes typing.space → f.closes after.space :=
        Frame.closes_of_extends h.space
      cases op with
      | block t => exact h.enter .plain (h.context.blockSignature t) f outer
      | loop t => exact h.enter .loop (h.context.blockSignature t) f outer
      | ifThen t =>
          exact (Frame.keeps_pop h.space f _).bind fun f =>
            h.enter .ifThen (h.context.blockSignature t) f outer
      | tryTable t clauses =>
          refine (h.enter .plain (h.context.blockSignature t) f outer).bind fun _ => .ite ?_ (.refl _)
          intro hall
          rw [List.all_eq_true] at hall ⊢
          exact fun clause hclause => h.clauseAllowed (hall clause hclause)
      | otherwise =>
          cases outer with
          | nil => exact .refl _
          | cons g rest => exact .ite (And.imp_right hcloses) (.refl _)
      | finish => exact .ite (And.imp hcloses fun hif hkind => h.listBelow (hif hkind)) (.refl _)
      | _ => exact hdefault

/-- What a list of operations does to the blocks is kept. -/
theorem run (frames : List Frame) (ops : List Op) :
    Keeps (typing.run frames ops) (after.run frames ops) := by
  induction ops generalizing frames with
  | nil => exact .refl _
  | cons op rest ih =>
      intro result hresult
      rw [Typing.run] at hresult ⊢
      split at hresult
      · rename_i next hnext
        rw [h.step frames op next hnext]
        exact ih next result hresult
      · cases hresult

/-- A body that is accepted still is. -/
theorem accepts {assigned : List Nat} {ops : List Op} (haccepts : typing.accepts assigned ops) :
    after.accepts assigned ops := by
  rw [Typing.accepts] at haccepts ⊢
  rw [h.results]
  split at haccepts
  · rename_i frames hframes
    rw [h.run _ ops frames hframes]
    exact haccepts
  · cases haccepts

end Extends

end Typing

/-! ## Bodies and constant expressions -/

namespace Context.Extends

variable {context after : Context} (h : context.Extends after)
include h

/-- A function is checked in the larger context as in the smaller one. -/
theorem typing (locals : Array ValType) (results : List ValType) :
    Typing.Extends ⟨context, locals, results⟩ ⟨after, locals, results⟩ :=
  ⟨h, rfl, rfl⟩

/-- A body keeps its type. -/
theorem hasType {body : Body} {type : FuncType} (hbody : body.hasType context type) :
    body.hasType after type := by
  have hlocals : Keeps (body.localTypes? context) (body.localTypes? after) := by
    refine Keeps.mapM (fun run => ?_) body.locals
    exact (h.space.resolve run.2).map _
  rw [Body.hasType, Bool.and_eq_true] at hbody ⊢
  refine ⟨hbody.1, ?_⟩
  have hrest := hbody.2
  split at hrest
  · rename_i runs hruns
    rw [hlocals runs hruns]
    exact (h.typing _ _).accepts hrest
  · cases hrest

/-- The same operations are constant. -/
theorem isConstant_eq (op : Op) : after.isConstant op = context.isConstant op := by
  unfold isConstant
  rw [h.globals]

/-- A constant expression keeps its type. -/
theorem constantHasType {ops : List Op} {type : ValType} (hops : context.constantHasType ops type) :
    after.constantHasType ops type := by
  rw [Context.constantHasType, Bool.and_eq_true, List.all_eq_true] at hops ⊢
  refine ⟨fun op hop => ?_, (h.typing _ _).accepts hops.2⟩
  rw [h.isConstant_eq]
  exact hops.1 op hop

end Context.Extends

end WasmFormula
