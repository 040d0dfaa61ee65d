import WasmFormula.Proofs.Definedness
import WasmFormula.Proofs.Lowering

/-!
# The order in which symbols get their slots

Lowering visits the nodes of a formula in evaluation order, `Formula.nodes`, up to the first unknown
operator, and gives each symbol that it meets on the way a slot (`table_eq`). The table afterwards
has its old names in front and then the new ones in the order in which they were first met
(`names_internAll`). So the program of a formula over any table is the one over the empty table with
other slots (`mapM_relocate_flatten`). `lower_effect` states all that lowering does.
-/

namespace WasmFormula

/-! ## Giving slots to many names -/

/-- The names that are not among the known ones, each once, in the order of their first
occurrences. -/
def newNames (known names : List String) : List String := (names.filter (· ∉ known)).eraseDups

/-- A name that is known is not new. -/
theorem newNames_cons_of_mem {known : List String} {name : String} (h : name ∈ known)
    (names : List String) : newNames known (name :: names) = newNames known names := by
  rw [newNames, List.filter_cons_of_neg (by simpa using h), newNames]

/-- A name that is not known is new once, and known from then on. -/
theorem newNames_cons_of_not_mem {known : List String} {name : String} (h : name ∉ known)
    (names : List String) :
    newNames known (name :: names) = name :: newNames (known ++ [name]) names := by
  rw [newNames, List.filter_cons_of_pos (by simpa using h), List.eraseDups_cons, List.filter_filter,
    newNames]
  refine congrArg (fun names => name :: List.eraseDups names) (List.filter_congr fun other _ => ?_)
  rw [Bool.eq_iff_iff]
  simp [and_comm]

namespace SymbolTable

variable {t : SymbolTable} {name : String} {s : Slot}

/-- The table after all of the names were given their slots, one after the other. -/
def internAll (t : SymbolTable) (names : List String) : SymbolTable :=
  names.foldl (fun t name => (t.intern name).2) t

/-- Two rows of names are interned one after the other. -/
theorem internAll_append (t : SymbolTable) (names others : List String) :
    t.internAll (names ++ others) = (t.internAll names).internAll others :=
  List.foldl_append

/-- The names that were not in the table follow those that were, in the order in which they first
came. -/
theorem names_internAll (t : SymbolTable) (names : List String) :
    (t.internAll names).names.toList = t.names.toList ++ newNames t.names.toList names := by
  induction names generalizing t with
  | nil => simp [internAll, newNames]
  | cons name names ih =>
      show ((t.intern name).2.internAll names).names.toList = _
      rw [ih, names_intern]
      by_cases hmem : name ∈ t.names.toList
      · rw [if_pos hmem, newNames_cons_of_mem hmem]
      · rw [if_neg hmem, newNames_cons_of_not_mem hmem, List.append_assoc]
        rfl

/-- No symbol loses its slot. -/
theorem slot_internAll_of_slot (h : t.slot? name = some s) (names : List String) :
    (t.internAll names).slot? name = some s := by
  induction names generalizing t with
  | nil => exact h
  | cons other names ih => exact ih (slot_intern_of_slot h)

end SymbolTable

/-! ## Nodes in evaluation order -/

namespace Formula

/-- A node of a formula, without its operands. -/
inductive Node where
  | symbol (name : String)
  | literal (value : F64)
  | unary (op : UnaryOperator)
  | binary (op : BinaryOperator)
  deriving DecidableEq

namespace Node

/-- The name of a symbol. -/
def symbol? : Node → Option String
  | .symbol name => some name
  | _ => none

/-- The name of an operator that is not known. -/
def unknown? : Node → Option String
  | .unary op => op.unknown?
  | .binary op => op.unknown?
  | .symbol _ | .literal _ => none

/-- The symbols before the first unknown operator. -/
def reachedSymbols (nodes : List Node) : List String :=
  (nodes.takeWhile fun node => node.unknown?.isNone).filterMap symbol?

/-- Nodes that are known are all reached, and then those that follow, as far as these go. -/
theorem reachedSymbols_append_of_known {nodes : List Node}
    (h : ∀ node ∈ nodes, node.unknown? = none) (others : List Node) :
    reachedSymbols (nodes ++ others) = nodes.filterMap symbol? ++ reachedSymbols others := by
  have hall : ∀ node ∈ nodes, node.unknown?.isNone = true := by
    intro node hnode
    rw [h node hnode]
    rfl
  rw [reachedSymbols, List.takeWhile_append_of_pos hall, List.filterMap_append, reachedSymbols]

/-- Nothing is reached after an unknown operator. -/
theorem reachedSymbols_append_of_unknown {nodes : List Node} {node : Node} (hmem : node ∈ nodes)
    {op : String} (hop : node.unknown? = some op) (others : List Node) :
    reachedSymbols (nodes ++ others) = reachedSymbols nodes := by
  induction nodes with
  | nil => cases hmem
  | cons first nodes ih =>
      simp only [reachedSymbols, List.cons_append, List.takeWhile_cons]
      cases hfirst : first.unknown? with
      | some other => rfl
      | none =>
          have hne : node ≠ first := by
            rintro rfl
            rw [hfirst] at hop
            cases hop
          have hrest := ih ((List.mem_cons.1 hmem).resolve_left hne)
          rw [reachedSymbols, reachedSymbols] at hrest
          simp only [Option.isNone_none, if_true, List.filterMap_cons, hrest]

/-- An operator is no symbol, whether it is known or not. -/
theorem reachedSymbols_singleton {node : Node} (h : node.symbol? = none) :
    reachedSymbols [node] = [] := by
  cases hop : node.unknown? <;> simp [reachedSymbols, hop, h]

end Node

/-- The nodes, operands before operators and left before right. -/
def nodes : Formula → List Node
  | .symbol name => [.symbol name]
  | .literal value => [.literal value]
  | .unary op operand => operand.nodes ++ [.unary op]
  | .binary op left right => left.nodes ++ right.nodes ++ [.binary op]

/-- The symbols of a formula are those among its nodes. -/
theorem filterMap_nodes (e : Formula) : e.nodes.filterMap Node.symbol? = e.symbols := by
  induction e with
  | symbol | literal => rfl
  | unary op operand ih => simp [nodes, symbols, Node.symbol?, ih]
  | binary op left right ihleft ihright => simp [nodes, symbols, Node.symbol?, ihleft, ihright]

/-- The first unknown operator is the first among the nodes. -/
theorem findSome_nodes (e : Formula) : e.nodes.findSome? Node.unknown? = e.firstUnknown? := by
  induction e with
  | symbol | literal => rfl
  | unary op operand ih =>
      simp [nodes, firstUnknown?, Node.unknown?, List.findSome?_append, ih]
  | binary op left right ihleft ihright =>
      simp [nodes, firstUnknown?, Node.unknown?, List.findSome?_append, ihleft, ihright]

/-- A formula is known exactly if all of its nodes are. -/
theorem firstUnknown_eq_none_iff {e : Formula} :
    e.firstUnknown? = none ↔ ∀ node ∈ e.nodes, node.unknown? = none := by
  rw [← findSome_nodes, List.findSome?_eq_none_iff]

/-! ## The table that lowering leaves -/

/-- The symbols that lowering comes to. -/
def reachedSymbols (e : Formula) : List String := Node.reachedSymbols e.nodes

/-- All symbols of a known formula are reached, and what follows as well. -/
theorem reachedSymbols_append {e : Formula} (h : e.firstUnknown? = none) (others : List Node) :
    Node.reachedSymbols (e.nodes ++ others) = e.symbols ++ Node.reachedSymbols others := by
  rw [Node.reachedSymbols_append_of_known (firstUnknown_eq_none_iff.1 h), filterMap_nodes]

/-- All symbols are reached if every operator is known. -/
theorem reachedSymbols_of_known {e : Formula} (h : e.firstUnknown? = none) :
    e.reachedSymbols = e.symbols := by
  have hreached := reachedSymbols_append h []
  rwa [List.append_nil, ← reachedSymbols, show Node.reachedSymbols [] = [] from rfl,
    List.append_nil] at hreached

/-- Lowering a formula either succeeds, and what follows the formula is reached, or fails, and nothing
after it is. -/
theorem lower_cases (e : Formula) (t : SymbolTable) :
    (∃ program after, e.lower t = (.ok program, after) ∧ e.reachedSymbols = e.symbols ∧
      ∀ others, Node.reachedSymbols (e.nodes ++ others) = e.symbols ++ Node.reachedSymbols others) ∨
    ∃ error after, e.lower t = (.error error, after) ∧
      ∀ others, Node.reachedSymbols (e.nodes ++ others) = e.reachedSymbols := by
  cases h : e.firstUnknown? with
  | none =>
      obtain ⟨after, hafter⟩ := lowersTo_of_known h t
      exact .inl ⟨_, after, hafter.code, reachedSymbols_of_known h, reachedSymbols_append h⟩
  | some op =>
      obtain ⟨after, hafter⟩ := lower_of_unknown h t
      rw [← findSome_nodes] at h
      obtain ⟨node, hnode, hop⟩ := List.exists_of_findSome?_eq_some h
      exact .inr ⟨_, after, hafter, Node.reachedSymbols_append_of_unknown hnode hop⟩

/-- Lowering gives the symbols that it comes to their slots, in evaluation order. -/
theorem table_eq (e : Formula) (t : SymbolTable) : (e.lower t).2 = t.internAll e.reachedSymbols := by
  induction e generalizing t with
  | symbol | literal => rfl
  | unary op operand ih =>
      have htable := ih t
      rw [lower, reachedSymbols, nodes]
      rcases operand.lower_cases t with
        ⟨code, after, hlower, hall, hon⟩ | ⟨error, after, hlower, hstop⟩
      · rw [hlower, hall] at htable
        rw [hlower, hon, Node.reachedSymbols_singleton rfl, List.append_nil]
        exact htable
      · rw [hlower] at htable ⊢
        rw [hstop]
        exact htable
  | binary op left right ihleft ihright =>
      have hfirst := ihleft t
      rw [lower, reachedSymbols, nodes, List.append_assoc]
      rcases left.lower_cases t with ⟨code, mid, hleft, hall, hon⟩ | ⟨error, after, hleft, hstop⟩
      · -- the right operand starts from the table that the left one leaves
        have hsecond := ihright mid
        rw [hleft, hall] at hfirst
        rw [hleft, hon, SymbolTable.internAll_append, ← hfirst]
        rcases right.lower_cases mid with
          ⟨code', after, hright, hall', hon'⟩ | ⟨error, after, hright, hstop⟩
        · rw [hright, hall'] at hsecond
          simp only [hright]
          rw [hon', Node.reachedSymbols_singleton rfl, List.append_nil]
          exact hsecond
        · rw [hright] at hsecond
          simp only [hright]
          rw [hstop]
          exact hsecond
      · rw [hleft] at hfirst ⊢
        rw [hstop]
        exact hfirst

/-- Lowering gives all symbols of a known formula their slots. -/
theorem table_lower {e : Formula} (h : e.firstUnknown? = none) (t : SymbolTable) :
    (e.lower t).2 = t.internAll e.symbols := by
  rw [table_eq, reachedSymbols_of_known h]

/-! ## One program for all tables -/

/-- A program loads the argument of every symbol of the formula. -/
theorem arg_mem_flatten {slot : String → Slot} {e : Formula} {name : String}
    (h : name ∈ e.symbols) : .arg (slot name) ∈ e.flatten slot := by
  induction e with
  | symbol other =>
      cases List.mem_singleton.1 h
      exact List.mem_singleton_self _
  | literal value => cases h
  | unary op operand ih => exact List.mem_append_left _ (ih h)
  | binary op left right ihleft ihright =>
      refine List.mem_append_left _ ?_
      rcases List.mem_append.1 h with h | h
      · exact List.mem_append_left _ (ihleft h)
      · exact List.mem_append_right _ (ihright h)

end Formula

/-- The instruction with its argument in the slot that the symbol has in the other table. -/
def Instr.relocate? (old new : SymbolTable) : Instr → Option Instr
  | .arg s => ((old.name? s).bind new.slot?).map .arg
  | instr => some instr

/-- The code of an operator loads no argument. -/
theorem UnaryOperator.mapM_relocate (old new : SymbolTable) (op : UnaryOperator) :
    op.instrs.mapM (Instr.relocate? old new) = some op.instrs := by
  cases op <;> rfl

/-- The instructions of a binary operator have no slots to move. -/
theorem BinaryOperator.mapM_relocate (old new : SymbolTable) (op : BinaryOperator) :
    op.instrs.mapM (Instr.relocate? old new) = some op.instrs := by
  cases op <;> rfl

namespace Formula

/-- Programs of a formula over two tables differ by the slots of its symbols only. -/
theorem mapM_relocate_flatten {old new : SymbolTable} {e : Formula}
    (hold : ∀ name ∈ e.symbols, ∃ s, old.slot? name = some s)
    (hnew : ∀ name ∈ e.symbols, ∃ s, new.slot? name = some s) :
    (e.flatten old.slotOf).mapM (Instr.relocate? old new) = some (e.flatten new.slotOf) := by
  induction e with
  | symbol name =>
      obtain ⟨s, hs⟩ := hold name List.mem_cons_self
      obtain ⟨s', hs'⟩ := hnew name List.mem_cons_self
      have hname := (old.slot?_eq_some_iff name s).1 hs
      simp [flatten, Instr.relocate?, SymbolTable.slotOf_eq hs, SymbolTable.slotOf_eq hs', hname, hs']
  | literal value => rfl
  | unary op operand ih =>
      rw [flatten, flatten, List.mapM_append, ih hold hnew, op.mapM_relocate]
      rfl
  | binary op left right ihleft ihright =>
      rw [symbols, List.forall_mem_append] at hold hnew
      rw [flatten, flatten, List.mapM_append, List.mapM_append, ihleft hold.1 hnew.1,
        ihright hold.2 hnew.2, op.mapM_relocate]
      rfl

/-- The effect of lowering on the table and the shape of the program. If all operators are known, the
table gains the new symbols of the formula in the order of their first occurrences, and the program
is the one over the empty table with the slots of the new table in place of its own. Otherwise the
first unknown operator in evaluation order is the cause of the failure, and the table gains the
symbols before it. -/
theorem lower_effect (e : Formula) (t : SymbolTable) :
    ((∀ node ∈ e.nodes, node.unknown? = none) →
      ∃ program after fresh freshTable, e.lower t = (.ok program, after) ∧
        e.lower .empty = (.ok fresh, freshTable) ∧
        after.names.toList = t.names.toList ++ newNames t.names.toList e.symbols ∧
        after.names.toList.Nodup ∧
        fresh.mapM (Instr.relocate? freshTable after) = some program ∧
        ∀ s, .arg s ∈ program ↔ ∃ name ∈ e.symbols, after.slot? name = some s) ∧
    ∀ before node rest op, e.nodes = before ++ node :: rest →
      (∀ earlier ∈ before, earlier.unknown? = none) → node.unknown? = some op →
      ∃ after, e.lower t = (.error (.unsupportedOperation op), after) ∧
        after.names.toList =
          t.names.toList ++ newNames t.names.toList (before.filterMap Node.symbol?) ∧
        after.names.toList.Nodup := by
  constructor
  · intro hnodes
    have hknown := firstUnknown_eq_none_iff.2 hnodes
    obtain ⟨after, hafter⟩ := lowersTo_of_known hknown t
    obtain ⟨freshTable, hfresh⟩ := lowersTo_of_known hknown .empty
    have htable := table_lower hknown t
    rw [hafter.code] at htable
    refine ⟨_, after, _, freshTable, hafter.code, hfresh.code, ?_, after.nodup_names,
      mapM_relocate_flatten (fun _ => hfresh.exists_slot) fun _ => hafter.exists_slot, fun s => ?_⟩
    · rw [← t.names_internAll, ← htable]
    · constructor
      · intro hs
        obtain ⟨name, hname, rfl⟩ := exists_symbol_of_arg hs
        obtain ⟨s, hs⟩ := hafter.exists_slot hname
        exact ⟨name, hname, by rw [hs, SymbolTable.slotOf_eq hs]⟩
      · rintro ⟨name, hname, hs⟩
        rw [← SymbolTable.slotOf_eq hs]
        exact arg_mem_flatten hname
  · intro before node rest op hsplit hbefore hop
    have hunknown : e.firstUnknown? = some op := by
      rw [← findSome_nodes, hsplit, List.findSome?_append,
        List.findSome?_eq_none_iff.2 hbefore, List.findSome?_cons_of_isSome]
      all_goals simp [hop]
    have hreached : e.reachedSymbols = before.filterMap Node.symbol? := by
      rw [reachedSymbols, hsplit, Node.reachedSymbols_append_of_known hbefore]
      simp [Node.reachedSymbols, hop]
    obtain ⟨after, hafter⟩ := lower_of_unknown hunknown t
    have htable := e.table_eq t
    rw [hafter, hreached] at htable
    refine ⟨after, hafter, ?_, after.nodup_names⟩
    rw [← t.names_internAll, ← htable]

/-- Over a table that holds `y`: the difference of `x` and `y * x` puts `x` behind it, and so does an
unknown operator on that difference, which keeps lowering from the symbol `z` after it. -/
theorem lower_effect_second_slot :
    let t := (SymbolTable.empty.intern "y").2
    let difference : Formula :=
      .binary .sub (.symbol "x") (.binary .mul (.symbol "y") (.symbol "x"))
    let unknown : Formula := .binary .add (.unary (.other "erf") difference) (.symbol "z")
    (∃ program after, difference.lower t = (.ok program, after) ∧
      after.names.toList = ["y", "x"]) ∧
    ∃ after, unknown.lower t = (.error (.unsupportedOperation "erf"), after) ∧
      after.names.toList = ["y", "x"] := by
  intro t difference unknown
  have ht : t.names.toList = ["y"] := by decide
  constructor
  · obtain ⟨program, after, _, _, hlower, _, hnames, _⟩ :=
      (difference.lower_effect t).1 (by decide)
    refine ⟨program, after, hlower, ?_⟩
    rw [hnames, ht]
    decide
  · obtain ⟨after, hlower, hnames, _⟩ :=
      (unknown.lower_effect t).2 difference.nodes (.unary (.other "erf"))
        [.symbol "z", .binary .add] "erf" rfl (by decide) rfl
    refine ⟨after, hlower, ?_⟩
    rw [hnames, ht]
    decide

end Formula

end WasmFormula
