import WasmFormula.Proofs.BodyDecoding
import WasmFormula.Proofs.DecimalText
import WasmFormula.Proofs.MeaningPreservation

/-!
# Listings describe the bytes

A program is written down twice, as the code of a function and as the lines of a listing.
`Op.ListedAs` says of one operation and one line that the line names the operation, and
`listing_describes_body` says that the lines of a listing name the operations of the function in the
module one by one, after a line for every slot. Names of symbols are copied as they are; all other
text of a listing stays on its line.
-/

namespace WasmFormula

/-! ## Lines of a text -/

namespace Text

/-- The text has no line break. -/
def OneLine (text : String) : Prop := '\n' ∉ text.toList

/-- A line break is found by search. -/
instance (text : String) : Decidable (OneLine text) :=
  inferInstanceAs (Decidable ('\n' ∉ text.toList))

/-- The lines of a text. -/
def lines (text : String) : List String := (text.toList.splitOn '\n').map String.ofList

/-- Two texts are on one line if each of them is. -/
@[simp]
theorem oneLine_append {front back : String} :
    OneLine (front ++ back) ↔ OneLine front ∧ OneLine back := by
  simp [OneLine]

/-- Characters without a line break are on one line. -/
@[simp]
theorem oneLine_ofList {chars : List Char} : OneLine (String.ofList chars) ↔ '\n' ∉ chars := by
  simp [OneLine]

/-- The first characters of a line are on one line. -/
theorem OneLine.take {text : String} (h : OneLine text) (n : Nat) :
    OneLine (String.ofList (text.toList.take n)) :=
  oneLine_ofList.2 fun hmem => h (List.mem_of_mem_take hmem)

/-- The last characters of a line are on one line. -/
theorem OneLine.drop {text : String} (h : OneLine text) (n : Nat) :
    OneLine (String.ofList (text.toList.drop n)) :=
  oneLine_ofList.2 fun hmem => h (List.mem_of_mem_drop hmem)

/-- A text without a line break is its only line. -/
theorem lines_of_oneLine {text : String} (h : OneLine text) : lines text = [text] := by
  rw [lines, List.splitOn_eq_singleton h, List.map_singleton, String.ofList_toList]

/-- The pieces between separators have none. -/
theorem not_mem_of_mem_splitOn {separator : Char} {chars piece : List Char}
    (h : piece ∈ chars.splitOn separator) : separator ∉ piece := by
  induction chars generalizing piece with
  | nil =>
      rw [List.splitOn_nil] at h
      cases List.mem_singleton.1 h
      exact List.not_mem_nil
  | cons c rest ih =>
      obtain ⟨first, others, hsplit⟩ := List.exists_cons_of_ne_nil (List.splitOn_ne_nil separator rest)
      rw [List.splitOn_cons_eq_if_modifyHead] at h
      rw [hsplit] at h ih
      split at h
      · rcases List.mem_cons.1 h with rfl | h
        · exact List.not_mem_nil
        · exact ih h
      · rename_i hc
        rw [List.modifyHead_cons] at h
        rcases List.mem_cons.1 h with rfl | h
        · rw [List.mem_cons, not_or]
          exact ⟨fun heq => hc (beq_iff_eq.2 heq.symm), ih List.mem_cons_self⟩
        · exact ih (List.mem_cons_of_mem _ h)

/-- A line has no line break. -/
theorem oneLine_of_mem_lines {text line : String} (h : line ∈ lines text) : OneLine line := by
  obtain ⟨chars, hchars, rfl⟩ := List.mem_map.1 h
  exact oneLine_ofList.2 (not_mem_of_mem_splitOn hchars)

/-- A line break separates the lines before it from those after it. -/
theorem lines_append_break (front back : String) :
    lines (front ++ "\n" ++ back) = lines front ++ lines back := by
  have hbreak : (front ++ "\n" ++ back).toList = front.toList ++ '\n' :: back.toList := by simp
  rw [lines, hbreak, List.splitOn_append_cons_self, List.map_append]
  rfl

/-- Texts put together with line breaks have the lines of the texts. -/
theorem lines_intercalate {texts : List String} (h : texts ≠ []) :
    lines (String.intercalate "\n" texts) = texts.flatMap lines := by
  induction texts with
  | nil => exact absurd rfl h
  | cons first rest ih =>
      cases rest with
      | nil => simp
      | cons second rest =>
          rw [String.intercalate_cons_cons, lines_append_break, ih (List.cons_ne_nil _ _)]
          rfl

/-- Texts without line breaks are their lines. -/
theorem flatMap_lines {texts : List String} (h : ∀ text ∈ texts, OneLine text) :
    texts.flatMap lines = texts := by
  induction texts with
  | nil => rfl
  | cons first rest ih =>
      rw [List.forall_mem_cons] at h
      rw [List.flatMap_cons, lines_of_oneLine h.1, ih h.2]
      rfl

/-- Texts that each end in a line break, and a last one that does not. -/
theorem join_append_eq_intercalate (texts : List String) (last : String) :
    String.join (texts.map (· ++ "\n")) ++ last = String.intercalate "\n" (texts ++ [last]) := by
  induction texts with
  | nil => simp
  | cons first rest ih =>
      rw [List.map_cons, String.join_cons, String.append_assoc, ih, List.cons_append]
      cases rest <;> simp [String.intercalate_cons_cons]

end Text

/-! ## Numbers stay on a line -/

open Text

/-- Digits are on one line. -/
theorem oneLine_toDigits (n : Nat) : OneLine (String.ofList (Nat.toDigits 10 n)) := by
  rw [oneLine_ofList]
  intro hmem
  have hdigit := Nat.isDigit_of_mem_toDigits (by decide) (by decide) hmem
  exact absurd hdigit (by decide)

/-- A natural number is written on one line. -/
theorem oneLine_toString_nat (n : Nat) : OneLine (toString n) := by
  rw [Nat.toString_eq_repr, Nat.repr_eq_ofList_toDigits]
  exact oneLine_toDigits n

/-- An integer is written on one line. -/
theorem oneLine_toString_int (n : Int) : OneLine (toString n) := by
  cases n with
  | ofNat n => exact oneLine_toString_nat n
  | negSucc n =>
      show OneLine ("-" ++ toString (n + 1))
      exact oneLine_append.2 ⟨by decide, oneLine_toString_nat (n + 1)⟩

namespace Decimal

/-- The digits of a decimal are on one line. -/
theorem oneLine_digitText (d : Decimal) : OneLine d.digitText := oneLine_toDigits d.digits

/-- A decimal without an exponent is on one line. -/
theorem oneLine_positionalText (d : Decimal) {wholeSuffix : String} (h : OneLine wholeSuffix) :
    OneLine (d.positionalText wholeSuffix) := by
  have hdigits := d.oneLine_digitText
  have hzeros (n : Nat) : OneLine (String.ofList (List.replicate n '0')) := by simp
  unfold positionalText
  split
  · simp only [oneLine_append]
    exact ⟨⟨hdigits, hzeros _⟩, h⟩
  · dsimp only
    -- the point stands among the digits, or zeros stand between it and them
    split
    · simp only [oneLine_append]
      exact ⟨⟨hdigits.take _, by decide⟩, hdigits.drop _⟩
    · simp only [oneLine_append]
      exact ⟨⟨by decide, hzeros _⟩, hdigits⟩

/-- A decimal with an exponent is on one line. -/
theorem oneLine_scientificText (d : Decimal) : OneLine d.scientificText := by
  have hdigits := d.oneLine_digitText
  have hfraction : OneLine (if (d.digitText.toList.drop 1).isEmpty then ""
      else "." ++ String.ofList (d.digitText.toList.drop 1)) := by
    split
    · decide
    · exact oneLine_append.2 ⟨by decide, hdigits.drop 1⟩
  unfold scientificText
  simp only [oneLine_append]
  exact ⟨⟨⟨hdigits.take 1, hfraction⟩, by decide⟩, oneLine_toString_int _⟩

/-- A decimal is on one line in every layout. -/
theorem oneLine_text {style : DecimalStyle} (h : OneLine style.wholeSuffix) (d : Decimal) :
    OneLine (d.text style) := by
  unfold text
  split
  · exact d.oneLine_positionalText h
  · split
    · exact d.oneLine_positionalText h
    · exact d.oneLine_scientificText

end Decimal

/-- The text of a number is on one line. -/
theorem F64.oneLine_text {style : DecimalStyle} (h : OneLine style.wholeSuffix) (x : F64) :
    OneLine (x.text style) := by
  have hsign : OneLine (if x.isNegative then "-" else "") := by
    split <;> decide
  rw [text]
  -- every number but a NaN starts with its sign
  generalize (if x.isNegative then "-" else "") = sign at hsign ⊢
  split
  · decide
  · split
    · exact oneLine_append.2 ⟨hsign, by decide⟩
    · split
      · exact oneLine_append.2 ⟨oneLine_append.2 ⟨hsign, by decide⟩, h⟩
      · exact oneLine_append.2 ⟨hsign, Decimal.oneLine_text h x.shortest⟩

/-! ## Operations and their lines -/

/-- The line names the operation. A constant is given by a text that shows it, and a call is named
after an export of the function it calls. -/
inductive Op.ListedAs (runtime : RuntimeModule) : Op → String → Prop
  | pointer : ListedAs runtime (.localGet 0) "local.get $ptr"
  | load (offset : Nat) : ListedAs runtime (.access 0x2b ⟨3, offset, 0⟩)
      ("f64.load offset=" ++ toString offset ++ " align=8")
  | const {value : F64} {text : String} (hshown : value.ShownAs text) :
      ListedAs runtime (.f64Const value) ("f64.const " ++ text)
  | neg : ListedAs runtime (.numeric 0x9a) "f64.neg"
  | sqrt : ListedAs runtime (.numeric 0x9f) "f64.sqrt"
  | add : ListedAs runtime (.numeric 0xa0) "f64.add"
  | sub : ListedAs runtime (.numeric 0xa1) "f64.sub"
  | mul : ListedAs runtime (.numeric 0xa2) "f64.mul"
  | div : ListedAs runtime (.numeric 0xa3) "f64.div"
  | call {name : String} {index : UInt32} (hindex : runtime.exportedIndex? name = some index) :
      ListedAs runtime (.call index.toNat) ("call $" ++ name)

/-- The line of a constant shows it. -/
theorem Op.ListedAs.shownAs {runtime : RuntimeModule} {value : F64} {text : String}
    (h : ListedAs runtime (.f64Const value) ("f64.const " ++ text)) : value.ShownAs text := by
  generalize hline : "f64.const " ++ text = line at h
  cases h with
  | const hshown =>
      cases (String.append_right_inj _).1 hline
      exact hshown

/-- The lines of an instruction name its operations. -/
theorem Instr.listedAs {runtime : RuntimeModule} {instr : Instr} {bytes : Bytes}
    (h : instr.encode runtime = .ok bytes) :
    List.Forall₂ (Op.ListedAs runtime) (instr.ops runtime) instr.lines := by
  cases instr with
  | const value => exact .cons (.const value.shownAs_text) .nil
  | arg slot => exact .cons .pointer (.cons (.load _) .nil)
  | neg => exact .cons .neg .nil
  | add => exact .cons .add .nil
  | sub => exact .cons .sub .nil
  | mul => exact .cons .mul .nil
  | div => exact .cons .div .nil
  | sqrt => exact .cons .sqrt .nil
  | call name =>
      obtain ⟨index, hindex, -, hops⟩ := ops_call h
      rw [hops]
      exact .cons (.call hindex) .nil

/-- The lines of a program name its operations, although an instruction may have two of both. -/
theorem Program.listedAs {runtime : RuntimeModule} {program : Program} {code : Bytes}
    (h : program.encode runtime = .ok code) :
    List.Forall₂ (Op.ListedAs runtime) (program.ops runtime) (program.flatMap Instr.lines) := by
  induction program generalizing code with
  | nil => exact .nil
  | cons instr rest ih =>
      obtain ⟨bytes, code, hinstr, hrest, rfl⟩ := encode_cons_eq_ok_iff.1 h
      exact List.rel_append (Instr.listedAs hinstr) (ih hrest)

/-- An instruction has no line break in its lines unless it calls a function by a name with one. -/
theorem Instr.oneLine_of_mem_lines {instr : Instr} (hcallee : ∀ name ∈ instr.callee?, OneLine name)
    {line : String} (h : line ∈ instr.lines) : OneLine line := by
  cases instr with
  | const value =>
      cases List.mem_singleton.1 h
      exact oneLine_append.2 ⟨by decide, F64.oneLine_text (by decide) value⟩
  | arg slot =>
      rcases List.mem_pair.1 h with rfl | rfl
      · decide
      · simp only [oneLine_append]
        exact ⟨⟨by decide, oneLine_toString_nat _⟩, by decide⟩
  | call name =>
      cases List.mem_singleton.1 h
      exact oneLine_append.2 ⟨by decide, hcallee name rfl⟩
  | _ =>
      cases List.mem_singleton.1 h
      decide

/-- The names of the linkage table have no line breaks. -/
theorem MathFunction.oneLine_of_find {name : String} (h : (find? name).isSome) : OneLine name := by
  obtain ⟨f, hf⟩ := Option.isSome_iff_exists.1 h
  have hname : f.name = name := by simpa using List.find?_some hf
  have htable : ∀ f ∈ table, OneLine f.name := by decide
  rw [← hname]
  exact htable f (List.mem_of_find?_eq_some hf)

/-- The lines of the program that a formula is compiled to have no line breaks. -/
theorem Compiler.oneLine_of_mem_lines (c : Compiler) {e : Formula} {slot : String → Slot}
    {line : String} (h : line ∈ (c.prepare (e.flatten slot)).flatMap Instr.lines) :
    OneLine line := by
  obtain ⟨instr, hinstr, hline⟩ := List.mem_flatMap.1 h
  refine Instr.oneLine_of_mem_lines (fun name hname => ?_) hline
  have hcall : name ∈ e.calls := by
    rw [← c.calls_prepare slot]
    exact List.mem_filterMap.2 ⟨instr, hinstr, hname⟩
  exact MathFunction.oneLine_of_find (Formula.find_of_mem_calls hcall)

/-! ## The parts of a listing -/

namespace Listing

/-- The first line: the name and the type of the function. -/
def header : String := "(func $executable (param $ptr i32) (param $len i32) (result f64)"

/-- The line of a slot: its number, its offset and its symbol. -/
def slotLine (i : Nat) (name : String) : String :=
  "  ;; slot " ++ toString i ++ " @ " ++ toString (8 * i) ++ ": " ++ name

/-- The lines of a listing with the given lines of code. -/
def parts (symbols code : List String) : List String :=
  header :: symbols.mapIdx slotLine ++ code.map ("  " ++ ·) ++ [")"]

/-- The lines of code can be told from a listing. -/
theorem parts_injective (symbols : List String) : (parts symbols).Injective := by
  intro code other h
  rw [parts, parts, List.append_cancel_right_eq, List.append_cancel_left_eq] at h
  exact List.map_injective_iff.2 (fun _ _ => (String.append_right_inj "  ").1) h

/-- The line of a slot is one line if the name of its symbol is. -/
theorem oneLine_slotLine_iff {i : Nat} {name : String} : OneLine (slotLine i name) ↔ OneLine name := by
  have hfront : OneLine ("  ;; slot " ++ toString i ++ " @ " ++ toString (8 * i) ++ ": ") := by
    simp only [oneLine_append]
    exact ⟨⟨⟨⟨by decide, oneLine_toString_nat i⟩, by decide⟩, oneLine_toString_nat _⟩, by decide⟩
  exact oneLine_append.trans (and_iff_right hfront)

/-- A listing is its parts put together with line breaks. -/
theorem listProgram_eq (symbols : List String) (program : Program) :
    listProgram symbols program =
      String.intercalate "\n" (parts symbols (program.flatMap Instr.lines)) := by
  have hslots : (symbols.zipIdx.map fun entry => "  ;; slot " ++ toString entry.2 ++ " @ " ++
      toString (Slot.mk entry.2).offset ++ ": " ++ entry.1 ++ "\n") =
        (symbols.mapIdx slotLine).map (· ++ "\n") := by
    rw [List.mapIdx_eq_zipIdx_map, List.map_map]
    rfl
  have hcode : (program.flatMap fun instr => instr.lines.map fun line => "  " ++ line ++ "\n") =
      ((program.flatMap Instr.lines).map ("  " ++ ·)).map (· ++ "\n") := by
    rw [List.map_map, List.map_flatMap]
    rfl
  have hheader : "(func $" ++ EntryPoint.name ++
      " (param $ptr i32) (param $len i32) (result f64)\n" = header ++ "\n" := by decide
  rw [parts, ← join_append_eq_intercalate, List.cons_append, List.map_cons, List.map_append,
    String.join_cons, String.join_append, ← hslots, ← hcode, ← hheader, ← String.append_assoc]
  rfl

/-- If the code has no line breaks, then only the slots may have several lines. -/
theorem lines_parts (symbols : List String) {code : List String}
    (hcode : ∀ line ∈ code, OneLine line) :
    lines (String.intercalate "\n" (parts symbols code)) =
      header :: (symbols.mapIdx slotLine).flatMap lines ++ code.map ("  " ++ ·) ++ [")"] := by
  have hindented : (code.map ("  " ++ ·)).flatMap lines = code.map ("  " ++ ·) := by
    apply flatMap_lines
    simp only [List.forall_mem_map, oneLine_append]
    exact fun line hline => ⟨by decide, hcode line hline⟩
  have hheader : lines header = [header] := lines_of_oneLine (by decide)
  have hlast : lines ")" = [")"] := lines_of_oneLine (by decide)
  rw [parts, lines_intercalate (List.append_ne_nil_of_right_ne_nil _ (List.cons_ne_nil _ _))]
  simp only [List.cons_append, List.flatMap_cons, List.flatMap_append, List.flatMap_nil,
    hindented, hheader, hlast, List.append_nil, List.nil_append]

/-- The slots have one line each if and only if no symbol has a line break in its name. -/
theorem flatMap_lines_slots_iff {symbols : List String} :
    (symbols.mapIdx slotLine).flatMap lines = symbols.mapIdx slotLine ↔
      ∀ name ∈ symbols, OneLine name := by
  constructor
  · intro h name hname
    obtain ⟨i, hi, rfl⟩ := List.getElem_of_mem hname
    have hmem : slotLine i symbols[i] ∈ (symbols.mapIdx slotLine).flatMap lines := by
      rw [h]
      exact List.mem_mapIdx.2 ⟨i, hi, rfl⟩
    obtain ⟨text, -, hline⟩ := List.mem_flatMap.1 hmem
    exact oneLine_slotLine_iff.1 (oneLine_of_mem_lines hline)
  · intro h
    apply flatMap_lines
    intro text htext
    obtain ⟨i, hi, rfl⟩ := List.mem_mapIdx.1 htext
    exact oneLine_slotLine_iff.2 (h _ (List.getElem_mem hi))

end Listing

/-! ## The listing of a compiled formula -/

/-- The listing of a compiled formula has a header, a line for every slot, the lines of the code and
a parenthesis, and the lines of the code name the operations of the function that was added, read
back from the bytes of the module, one by one up to its end. No other word than the constant is shown
by its text, unless it is a NaN. The parts are the lines of the text if and only if no symbol has a
line break in its name; if one has, only the lines of the slots become more. The length of a section
is a number of 32 bits, so the bytes have to be framed. -/
theorem Compiler.listing_describes_body {bytes : Bytes} {c : Compiler}
    (hload : RuntimeModule.ofBytes bytes = .ok c.runtime)
    (hcode : (sectionsWith SectionId.code c.runtime.sections).length ≤ 1)
    (hlisting : c.options.listing = true) {e : Formula} {m : CompiledFormula}
    (hcompile : (c.compile e).1 = .ok m) (hframed : Framed m.bytes) :
    ∃ listing ops code, m.listing = some listing ∧
      lastBody? m.bytes = some ⟨[], ops ++ [.finish]⟩ ∧
      List.Forall₂ (Op.ListedAs c.runtime) ops code ∧
      (∀ (i : Nat) (value : F64) (text : String), ops[i]? = some (.f64Const value) →
        code[i]? = some ("f64.const " ++ text) →
        ∀ other : F64, other.ShownAs text → other = value ∨ other.isNaN ∧ value.isNaN) ∧
      listing = String.intercalate "\n" (Listing.parts m.symbols code) ∧
      Text.lines listing = Listing.header ::
        (m.symbols.mapIdx Listing.slotLine).flatMap Text.lines ++ code.map ("  " ++ ·) ++ [")"] ∧
      (Text.lines listing = Listing.parts m.symbols code ↔
        ∀ name ∈ m.symbols, Text.OneLine name) := by
  rw [compile_eq_result] at hcompile
  obtain ⟨table, code, layout, hcompiled⟩ := compiled_of_result hcompile
  let program := c.prepare (e.flatten table.slotOf)
  have hlines := Listing.lines_parts m.symbols fun line
    (hline : line ∈ program.flatMap Instr.lines) => c.oneLine_of_mem_lines hline
  have hparts := Listing.listProgram_eq m.symbols program
  rw [← hparts] at hlines
  have hlisted := Program.listedAs hcompiled.encodes
  refine ⟨listProgram m.symbols program, program.ops c.runtime, program.flatMap Instr.lines, ?_,
    lastBody_of_compiled hload hcode hcompiled hframed, hlisted, ?_, hparts, hlines, ?_⟩
  · rw [hcompiled.listing, if_pos hlisting]
  · intro i value text hop hline other hother
    obtain ⟨hi, hop⟩ := List.getElem?_eq_some_iff.1 hop
    obtain ⟨hj, hline⟩ := List.getElem?_eq_some_iff.1 hline
    have hnamed := hlisted.get hi hj
    rw [List.get_eq_getElem, List.get_eq_getElem, hop, hline] at hnamed
    exact hother.eq_or_nan hnamed.shownAs
  · rw [hlines, Listing.parts, List.append_cancel_right_eq, List.append_cancel_right_eq,
      List.cons_inj_right, Listing.flatMap_lines_slots_iff]

/-- The difference of `sin y` and the product of `x` and two over the bridge runtime. -/
theorem Compiler.listing_describes_body_bridge :
    let e := Formula.binary .sub (.unary .sin (.symbol "y"))
      (.binary .mul (.symbol "x") (.literal ⟨0x4000000000000000⟩))
    let code := ["local.get $ptr", "f64.load offset=0 align=8", "call $sin", "local.get $ptr",
      "f64.load offset=8 align=8", "f64.const 2.0", "f64.mul", "f64.sub"]
    ∃ runtime m listing ops, RuntimeModule.ofBytes Bridge.bytes = .ok runtime ∧
      (Compiler.compile { runtime, options := { listing := true } } e).1 = .ok m ∧
      m.listing = some listing ∧ Text.lines listing = Listing.parts ["y", "x"] code ∧
      lastBody? m.bytes = some ⟨[], ops ++ [.finish]⟩ ∧
      List.Forall₂ (Op.ListedAs runtime) ops code := by
  intro e code
  let program : Program :=
    [.arg ⟨0⟩, .call "sin", .arg ⟨1⟩, .const ⟨0x4000000000000000⟩, .mul, .sub]
  obtain ⟨runtime, hload, hcode, -⟩ := Bridge.exists_runtime
  have hfacts : ∃ runtime, RuntimeModule.ofBytes Bridge.bytes = .ok runtime ∧
      ∃ m, (Compiler.compile { runtime, options := { listing := true } } e).1 = .ok m ∧
        m.bytes.length < 2 ^ 32 ∧ m.symbols = ["y", "x"] ∧
        m.listing = some (listProgram ["y", "x"] program) := by
    decide +kernel
  obtain ⟨found, hfound, m, hcompile, hlength, hsymbols, hlisting⟩ := hfacts
  cases hfound.symm.trans hload
  have hlines : program.flatMap Instr.lines = code := by decide +kernel
  obtain ⟨listing, ops, named, hlisted, hbody, hnamed, -, hparts, -, htext⟩ :=
    listing_describes_body hload (by simp [hcode]) rfl hcompile (framed_of_compile hcompile hlength)
  rw [hsymbols] at hparts htext
  have hsame : listing = listProgram ["y", "x"] program :=
    Option.some_inj.1 (hlisted.symm.trans hlisting)
  have hnames : ∀ name ∈ ["y", "x"], OneLine name := by decide
  have hcodeLines : Text.lines listing = Listing.parts ["y", "x"] code := by
    rw [hsame, Listing.listProgram_eq, hlines, Listing.lines_parts _ (by decide),
      Listing.flatMap_lines_slots_iff.2 hnames]
    rfl
  cases Listing.parts_injective _ ((htext.2 hnames).symm.trans hcodeLines)
  exact ⟨runtime, m, listing, ops, hload, hcompile, hlisted, hcodeLines, hbody, hnamed⟩

/-- A line break in the name of a symbol adds a line that reads as an operation: the function loads
its argument and has no negation. -/
theorem Compiler.listing_adds_line :
    ∃ runtime, RuntimeModule.ofBytes Bridge.bytes = .ok runtime ∧
      ∃ m, (Compiler.compile { runtime, options := { listing := true } }
          (.symbol "x\n  f64.neg")).1 = .ok m ∧
        m.listing.map Text.lines = some [Listing.header, "  ;; slot 0 @ 0: x", "  f64.neg",
          "  local.get $ptr", "  f64.load offset=0 align=8", ")"] ∧
        lastBody? m.bytes = some ⟨[], [.localGet 0, .access 0x2b ⟨3, 0, 0⟩, .finish]⟩ := by
  decide +kernel

end WasmFormula
