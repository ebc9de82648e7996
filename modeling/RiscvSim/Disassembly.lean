import RiscvSim.LineMaps
import RiscvSim.OutputStream
import RiscvSim.SymbolNames

/-! The disassembly of an assembled program, and the lines on which its instructions are. -/

namespace RiscvSim

/-- `emit_if_filled`, with the flag `first_operand`. -/
def emitIfFilled : OutputStream × Bool → String → OutputStream × Bool
  | (os, first), field =>
    if field = "" then (os, first)
    else ((os.putString (if first then " " else ", ")).putString field, false)

/-- `operator<<` for a unit of intermediate code. -/
def ICUnit.put (u : ICUnit) (os : OutputStream) : OutputStream :=
  let os := os.putString u.opcode
  let os := ([u.rd, u.rs1, u.rs2, u.rs3, u.imm].foldl emitIfFilled (os, true)).1
  let os := if u.csr = 0 then os
    else { (os.putString " csr=0x").hex.putNat u.csr.toNat with
      leftAdjusted := os.leftAdjusted
      hexadecimal := os.hexadecimal }
  let os := if u.rm = 0 then os else (os.putString " rm=").putNat u.rm.toNat
  if u.label = "" then os else ((os.putString " <").putString u.label).putString ">"

/-- The program with the entries of its symbol table, in the order of their names. -/
structure SymbolListing extends Listing where
  symbolTable : List (String × SymbolData)

/-- `assemble`, with what the disassembly is made from. -/
def assembleSymbols (cfg : ParserConfig) (floatText : String → Except Thrown String) (turns : Nat)
    (source : List (List Char)) : Except Thrown (Option SymbolListing) := do
  let tokens ← Lexer.getTokenList floatText source
  match ← Parser.parse cfg turns tokens with
  | .yield _ => return none
  | .done p =>
    if p.errors.count = 0 then
      return some {
        textBuffer := ← CodeGenerator.generateMachineCode p.intermediateCode
        dataBuffer := p.dataBuffer
        intermediateCode := p.intermediateCode
        lineNumberInstructionNumberMapping := LineMap.ofLines p.instructionLines
        symbolTable := symbolEntries tokens p.symbolTable }
    else throw .runtimeError

/-- `hex_digits`, counted by `while (temp >>= 4)`. -/
def hexDigits (temp : Nat) : Nat :=
  if temp >>> 4 = 0 then 1 else hexDigits (temp >>> 4) + 1
termination_by temp
decreasing_by
  rename_i hne
  rw [Nat.shiftRight_eq_div_pow] at hne ⊢
  exact Nat.div_lt_self (Nat.pos_of_ne_zero fun h => hne (by rw [h])) (by decide)

namespace SymbolListing

/-- `label_for_address` -/
def labelForAddress (p : SymbolListing) : Word → Option String :=
  let labels := p.symbolTable.foldl
    (fun labels (name, data) =>
      if data.isData then labels else Function.update labels data.address (some name))
    fun _ => none
  if labels 0 = none then Function.update labels 0 (some "start") else labels

/-- The locals of `DumpDisasssembly` at the head of its loop. -/
structure Dump where
  out : OutputStream
  instructionIndex : Nat
  lineNumber : Nat
  mapping : Nat → Option Nat

/-- The line of a label. -/
def putLabel (out : OutputStream) (address : Word) (name : String) : OutputStream :=
  out |>.setw 16 |>.setfill '0' |>.hex |>.putNat address.toNat |>.dec |>.setfill ' '
    |>.putString " <" |>.putString name |>.putString ">:" |>.endl

/-- A label, behind an empty line unless it is on the first line. -/
def Dump.printLabel (s : Dump) (address : Word) (name : String) : Dump :=
  let s := if s.lineNumber > 1 then { s with out := s.out.endl, lineNumber := s.lineNumber + 1 }
    else s
  { s with out := putLabel s.out address name, lineNumber := s.lineNumber + 1 }

/-- The label at the address of the next instruction, if there is one. -/
def printLabelAt (p : SymbolListing) (s : Dump) : Dump :=
  let currentAddress := Parser.textAddress s.instructionIndex
  match p.labelForAddress currentAddress with
  | some name => s.printLabel currentAddress name
  | none => s

/-- An address, in front of the word at it. -/
def putAddress (out : OutputStream) (hexDigits : Nat) (address : Word) : OutputStream :=
  out |>.putString "  " |>.setw hexDigits |>.setfill ' ' |>.right |>.hex |>.putNat address.toNat
    |>.dec |>.left |>.setw 0 |>.putString ": "

/-- The word of an instruction, if there is one. -/
def putWord (out : OutputStream) : Option Instr → OutputStream
  | some raw => out |>.setfill '0' |>.setw 8 |>.right |>.hex |>.putNat raw.toNat |>.dec
      |>.setfill ' ' |>.putString "             "
  | none => out.putString " ????????             "

/-- One turn of the loop of `DumpDisasssembly`. -/
def dumpTurn (p : SymbolListing) (s : Dump) (block : ICUnit × Bool) : Dump :=
  let s := p.printLabelAt s
  let out := putAddress s.out (hexDigits (p.intermediateCode.length * 4))
    (Parser.textAddress s.instructionIndex)
  let out := putWord out p.textBuffer[s.instructionIndex]?
  { out := (block.1.put out).endl
    mapping := Function.update s.mapping s.instructionIndex (some s.lineNumber)
    lineNumber := s.lineNumber + 1
    instructionIndex := s.instructionIndex + 1 }

/-- `DumpDisasssembly` into a file that was opened, with the map that it stores. -/
def dumpDisasssembly (p : SymbolListing) : Dump :=
  p.intermediateCode.foldl p.dumpTurn
    { out := .opened, instructionIndex := 0, lineNumber := 1, mapping := fun _ => none }

/-! The text, line by line. -/

/-- A line of the disassembly, with the index of the instruction at its address. -/
inductive Line where
  | blank
  | label (index : Nat) (name : String)
  | instruction (index : Nat)
  deriving DecidableEq, Repr

/-- The instruction that is printed on a line. -/
def Line.instruction? : Line → Option Nat
  | .instruction i => some i
  | _ => none

/-- In front of an instruction there is a line for a label at its address. -/
def labelLines (p : SymbolListing) (i : Nat) : List Line :=
  match p.labelForAddress (Parser.textAddress i) with
  | some name => if i = 0 then [.label i name] else [.blank, .label i name]
  | none => []

def linesBelow (p : SymbolListing) (n : Nat) : List Line :=
  (List.range n).flatMap fun i => p.labelLines i ++ [.instruction i]

/-- The lines of the disassembly. -/
def disassemblyLines (p : SymbolListing) : List Line := p.linesBelow p.intermediateCode.length

def separated : Bool → List String → List Char
  | _, [] => []
  | first, field :: fields =>
    if field = "" then separated first fields
    else (if first then " " else ", ").toList ++ field.toList ++ separated false fields

def unitText (u : ICUnit) : List Char :=
  u.opcode.toList ++ separated true [u.rd, u.rs1, u.rs2, u.rs3, u.imm] ++
    (if u.csr = 0 then [] else " csr=0x".toList ++ Nat.toDigits 16 u.csr.toNat) ++
    (if u.rm = 0 then [] else " rm=".toList ++ Nat.toDigits 10 u.rm.toNat) ++
    if u.label = "" then [] else " <".toList ++ u.label.toList ++ ">".toList

def addressDigits (i : Nat) : List Char := Nat.toDigits 16 (Parser.textAddress i).toNat

/-- The text of a line: of an instruction its address, its word and its unit. -/
def render (p : SymbolListing) : Line → List Char
  | .blank => []
  | .label i name => (addressDigits i).leftpad 16 '0' ++ " <".toList ++ name.toList ++ ">:".toList
  | .instruction i =>
    match p.textBuffer[i]?, p.intermediateCode[i]? with
    | some raw, some (u, _) =>
      "  ".toList ++ (addressDigits i).leftpad (hexDigits (p.intermediateCode.length * 4)) ' ' ++
        ": ".toList ++ (Nat.toDigits 16 raw.toNat).leftpad 8 '0' ++ "             ".toList ++
        unitText u
    | _, _ => []

open OutputStream

theorem foldl_emitIfFilled (text : List Char) (first : Bool) (fields : List String) :
    (fields.foldl emitIfFilled (printing text, first)).1 =
      printing (text ++ separated first fields) := by
  induction fields generalizing text first with
  | nil => rw [separated, List.append_nil]; rfl
  | cons field fields ih =>
    rw [List.foldl_cons, emitIfFilled, separated]
    by_cases hfield : field = ""
    · rw [if_pos hfield, if_pos hfield, ih]
    · rw [if_neg hfield, if_neg hfield, putString_printing, putString_printing, ih]
      simp only [List.append_assoc]

theorem printing_ite {c : Prop} [Decidable c] {os : OutputStream} {text rest : List Char}
    (h : os = printing (text ++ rest)) :
    (if c then printing text else os) = printing (text ++ if c then [] else rest) := by
  split
  · rw [List.append_nil]
  · exact h

theorem put_unit (text : List Char) (u : ICUnit) :
    u.put (printing text) = printing (text ++ unitText u) := by
  have hcsr (text : List Char) : { ((printing text).putString " csr=0x").hex.putNat u.csr.toNat with
      leftAdjusted := (printing text).leftAdjusted
      hexadecimal := (printing text).hexadecimal } =
        printing (text ++ (" csr=0x".toList ++ Nat.toDigits 16 u.csr.toNat)) := by
    rw [putString_printing, hex_putNat, List.append_assoc]
    rfl
  have hrm (text : List Char) : ((printing text).putString " rm=").putNat u.rm.toNat =
      printing (text ++ (" rm=".toList ++ Nat.toDigits 10 u.rm.toNat)) := by
    rw [putString_printing, putNat_printing, List.append_assoc]
  have hlabel (text : List Char) : (((printing text).putString " <").putString u.label).putString
      ">" = printing (text ++ (" <".toList ++ u.label.toList ++ ">".toList)) := by
    rw [putString_printing, putString_printing, putString_printing]
    simp only [List.append_assoc]
  unfold ICUnit.put
  dsimp only
  rw [putString_printing, foldl_emitIfFilled, printing_ite (hcsr _), printing_ite (hrm _),
    printing_ite (hlabel _), unitText]
  simp only [List.append_assoc]

/-- The line of an instruction up to its unit. -/
theorem putWord_putAddress (text : List Char) (width : Nat) (address : Word) (raw : Instr) :
    putWord (putAddress (printing text) width address) (some raw) =
      printing (text ++ ("  ".toList ++ (Nat.toDigits 16 address.toNat).leftpad width ' ' ++
        ": ".toList ++ (Nat.toDigits 16 raw.toNat).leftpad 8 '0' ++ "             ".toList)) := by
  have hput : putWord (putAddress (printing text) width address) (some raw) =
      printing (text ++ "  ".toList ++ (Nat.toDigits 16 address.toNat).leftpad width ' ' ++
        ": ".toList ++ (Nat.toDigits 16 raw.toNat).leftpad 8 '0' ++ "             ".toList) := rfl
  rw [hput]
  simp only [List.append_assoc]

/-- Some lines, each with its end. -/
def renderAll (p : SymbolListing) (lines : List Line) : List Char :=
  lines.flatMap fun line => p.render line ++ ['\n']

theorem renderAll_append (p : SymbolListing) (lines lines' : List Line) :
    p.renderAll (lines ++ lines') = p.renderAll lines ++ p.renderAll lines' :=
  List.flatMap_append

theorem renderAll_singleton (p : SymbolListing) (line : Line) :
    p.renderAll [line] = p.render line ++ ['\n'] := List.flatMap_singleton _ _

variable {p : SymbolListing} {s : Dump} {n : Nat} {lines : List Line}

theorem instruction_mem {i : Nat} :
    Line.instruction i ∈ lines ↔ i ∈ lines.filterMap Line.instruction? := by
  rw [List.mem_filterMap]
  constructor
  · intro h
    exact ⟨_, h, rfl⟩
  · rintro ⟨line, hline, h⟩
    cases line with
    | blank => cases h
    | label i name => cases h
    | instruction i =>
      obtain rfl := Option.some.inj h
      exact hline

theorem labelLines_instructions (p : SymbolListing) (i : Nat) :
    (p.labelLines i).filterMap Line.instruction? = [] := by
  unfold labelLines
  split
  · split
    · rfl
    · rfl
  · rfl

theorem linesBelow_succ (p : SymbolListing) (n : Nat) :
    p.linesBelow (n + 1) = p.linesBelow n ++ p.labelLines n ++ [.instruction n] := by
  rw [linesBelow, List.range_succ, List.flatMap_append, List.flatMap_singleton, List.append_assoc]
  rfl

/-- Every instruction has one line, in order. -/
theorem linesBelow_instructions (p : SymbolListing) (n : Nat) :
    (p.linesBelow n).filterMap Line.instruction? = List.range n := by
  induction n with
  | zero => rfl
  | succ n ih =>
    rw [linesBelow_succ, List.filterMap_append, List.filterMap_append, ih, labelLines_instructions,
      List.range_succ, List.append_nil]
    rfl

theorem le_linesBelow (p : SymbolListing) (n : Nat) : n ≤ (p.linesBelow n).length := by
  have hle := List.length_filterMap_le Line.instruction? (p.linesBelow n)
  rwa [linesBelow_instructions, List.length_range] at hle

theorem getElem?_append_of_notMem {α : Type} {l m : List α} {x : α} (h : x ∉ m) (j : Nat) :
    (l ++ m)[j]? = some x ↔ l[j]? = some x := by
  rcases Nat.lt_or_ge j l.length with hj | hj
  · rw [List.getElem?_append_left hj]
  · rw [List.getElem?_append_right hj, List.getElem?_eq_none hj]
    exact iff_of_false (fun hx => h (List.mem_of_getElem? hx)) nofun

theorem getElem?_concat_of_notMem {α : Type} {l : List α} {x : α} (h : x ∉ l) (j : Nat) :
    (l ++ [x])[j]? = some x ↔ j = l.length := by
  rcases Nat.lt_trichotomy j l.length with hj | rfl | hj
  · rw [List.getElem?_append_left hj]
    exact iff_of_false (fun hx => h (List.mem_of_getElem? hx)) hj.ne
  · simp
  · rw [List.getElem?_eq_none (by simpa using hj)]
    exact iff_of_false nofun hj.ne'

theorem putLabel_printing (p : SymbolListing) (text : List Char) (n : Nat) (name : String) :
    putLabel (printing text) (Parser.textAddress n) name =
      printing (text ++ p.renderAll [.label n name]) := by
  have hput : putLabel (printing text) (Parser.textAddress n) name =
      (printing (text ++ (addressDigits n).leftpad 16 '0') |>.putString " <" |>.putString name
        |>.putString ">:" |>.endl) := rfl
  rw [hput, putString_printing, putString_printing, putString_printing, endl_printing,
    renderAll_singleton, render]
  simp only [List.append_assoc]

/-- The loop has printed `lines`, which are all of those in front of the instruction `n`. -/
structure Printed (p : SymbolListing) (n : Nat) (lines : List Line) (s : Dump) : Prop where
  out : s.out = printing (p.renderAll lines)
  instructionIndex : s.instructionIndex = n
  lineNumber : s.lineNumber = lines.length + 1
  mapping : ∀ i k, s.mapping i = some k ↔ 1 ≤ k ∧ lines[k - 1]? = some (.instruction i)

theorem Printed.labels (h : Printed p n (p.linesBelow n) s) :
    Printed p n (p.linesBelow n ++ p.labelLines n) (p.printLabelAt s) := by
  have hmapping (i k : Nat) : s.mapping i = some k ↔
      1 ≤ k ∧ (p.linesBelow n ++ p.labelLines n)[k - 1]? = some (.instruction i) := by
    have hnot : Line.instruction i ∉ p.labelLines n := by
      rw [instruction_mem, labelLines_instructions]
      exact List.not_mem_nil
    rw [getElem?_append_of_notMem hnot, h.mapping]
  rw [printLabelAt, h.instructionIndex]
  cases hlabel : p.labelForAddress (Parser.textAddress n) with
  | none =>
    have hlines : p.labelLines n = [] := by rw [labelLines, hlabel]
    rw [hlines, List.append_nil] at hmapping ⊢
    exact ⟨h.out, h.instructionIndex, h.lineNumber, hmapping⟩
  | some name =>
    dsimp only
    by_cases hn : n = 0
    · have hlines : p.labelLines n = [.label n name] := by
        rw [labelLines, hlabel]
        exact if_pos hn
      have hfirst : ¬ s.lineNumber > 1 := by
        rw [h.lineNumber, hn]
        exact Nat.lt_irrefl 1
      rw [Dump.printLabel, if_neg hfirst]
      rw [hlines] at hmapping ⊢
      refine ⟨?_, h.instructionIndex, ?_, hmapping⟩
      · rw [h.out, putLabel_printing p, renderAll_append]
      · rw [h.lineNumber, List.length_append]
        rfl
    · have hlines : p.labelLines n = [.blank, .label n name] := by
        rw [labelLines, hlabel]
        exact if_neg hn
      have hnotFirst : s.lineNumber > 1 := by
        have hle := le_linesBelow p n
        rw [h.lineNumber]
        omega
      rw [Dump.printLabel, if_pos hnotFirst]
      rw [hlines] at hmapping ⊢
      refine ⟨?_, h.instructionIndex, ?_, hmapping⟩
      · rw [h.out, endl_printing, putLabel_printing p, renderAll_append, List.append_assoc]
        rfl
      · rw [h.lineNumber, List.length_append]
        rfl

/-- One turn of the loop prints the lines of one instruction. -/
theorem Printed.turn {e : ICUnit × Bool} {raw : Instr} (h : Printed p n (p.linesBelow n) s)
    (he : p.intermediateCode[n]? = some e) (hraw : p.textBuffer[n]? = some raw) :
    Printed p (n + 1) (p.linesBelow (n + 1)) (p.dumpTurn s e) := by
  have hlabels := h.labels
  have hindex := hlabels.instructionIndex
  rw [linesBelow_succ]
  refine ⟨?_, congrArg Nat.succ hindex, ?_, fun i k => ?_⟩
  · rw [dumpTurn]
    dsimp only
    rw [hindex, hraw, hlabels.out, putWord_putAddress, put_unit, endl_printing,
      renderAll_append p (p.linesBelow n ++ p.labelLines n), renderAll_singleton, render, hraw, he]
    simp only [addressDigits, List.append_assoc]
  · rw [dumpTurn]
    dsimp only
    rw [hlabels.lineNumber]
    exact congrArg Nat.succ
      (@List.length_append _ (p.linesBelow n ++ p.labelLines n) [.instruction n]).symm
  · have hnot : Line.instruction n ∉ p.linesBelow n ++ p.labelLines n := by
      rw [instruction_mem, List.filterMap_append, linesBelow_instructions, labelLines_instructions,
        List.append_nil]
      exact fun hn => Nat.lt_irrefl n (List.mem_range.mp hn)
    rw [dumpTurn]
    dsimp only
    rw [hindex, Function.update_apply]
    by_cases hi : i = n
    · subst hi
      rw [if_pos rfl, getElem?_concat_of_notMem hnot, hlabels.lineNumber, Option.some.injEq]
      omega
    · have hne : Line.instruction i ∉ [Line.instruction n] := by simpa using hi
      rw [if_neg hi, hlabels.mapping, getElem?_append_of_notMem hne]

theorem printed_of_length (hlength : p.textBuffer.length = p.intermediateCode.length) :
    Printed p p.intermediateCode.length p.disassemblyLines p.dumpDisasssembly := by
  have hbelow (n : Nat) (hn : n ≤ p.intermediateCode.length) : Printed p n (p.linesBelow n)
      ((p.intermediateCode.take n).foldl p.dumpTurn
        { out := .opened, instructionIndex := 0, lineNumber := 1, mapping := fun _ => none }) := by
    induction n with
    | zero => exact ⟨rfl, rfl, rfl, fun i k => iff_of_false nofun fun h => nomatch h.2⟩
    | succ n ih =>
      have hraw : p.textBuffer[n]? = some (p.textBuffer[n]) := List.getElem?_eq_getElem (by omega)
      have he : p.intermediateCode[n]? = some (p.intermediateCode[n]) :=
        List.getElem?_eq_getElem hn
      rw [List.take_add_one, he, Option.toList_some, List.foldl_append]
      exact (ih (Nat.le_of_succ_le hn)).turn he hraw
  have hall := hbelow _ (Nat.le_refl _)
  rwa [List.take_length] at hall

/-! No line has an end inside. -/

theorem newline_notMem_separated {first : Bool} {fields : List String}
    (h : ∀ field ∈ fields, '\n' ∉ field.toList) : '\n' ∉ separated first fields := by
  induction fields generalizing first with
  | nil => exact List.not_mem_nil
  | cons field fields ih =>
    obtain ⟨hfield, hfields⟩ := List.forall_mem_cons.mp h
    rw [separated]
    split
    · exact ih hfields
    · have hbefore : '\n' ∉ (if first then " " else ", ").toList := by
        cases first with
        | true => decide
        | false => decide
      simp only [List.mem_append, not_or]
      exact ⟨⟨hbefore, hfield⟩, ih hfields⟩

theorem newline_notMem_unitText {u : ICUnit} (hopcode : '\n' ∉ u.opcode.toList)
    (hfields : ∀ field ∈ [u.rd, u.rs1, u.rs2, u.rs3, u.imm], '\n' ∉ field.toList)
    (hlabel : '\n' ∉ u.label.toList) : '\n' ∉ unitText u := by
  have hdigits (b n : Nat) (hb : 1 < b) := newline_notMem_toDigits hb n
  simp only [unitText, List.mem_append, not_or]
  refine ⟨⟨⟨⟨hopcode, newline_notMem_separated hfields⟩, ?_⟩, ?_⟩, ?_⟩
  · split
    · exact List.not_mem_nil
    · rw [List.mem_append, not_or]
      exact ⟨by decide, newline_notMem_toDigits (by decide) _⟩
  · split
    · exact List.not_mem_nil
    · rw [List.mem_append, not_or]
      exact ⟨by decide, newline_notMem_toDigits (by decide) _⟩
  · split
    · exact List.not_mem_nil
    · simp only [List.mem_append, not_or]
      exact ⟨⟨by decide, hlabel⟩, by decide⟩

theorem newline_notMem_leftpad {width : Nat} {fill : Char} {item : List Char} (hfill : fill ≠ '\n')
    (hitem : '\n' ∉ item) : '\n' ∉ item.leftpad width fill := by
  rw [List.leftpad, List.mem_append, not_or]
  exact ⟨fun h => hfill (List.eq_of_mem_replicate h).symm, hitem⟩

theorem newline_notMem_render {line : Line}
    (hlabel : ∀ i name, line = .label i name → '\n' ∉ name.toList)
    (hunit : ∀ (i : Nat) (u : ICUnit) (b : Bool), p.intermediateCode[i]? = some (u, b) →
      '\n' ∉ unitText u) :
    '\n' ∉ p.render line := by
  have hdigits (i : Nat) : '\n' ∉ addressDigits i := newline_notMem_toDigits (by decide) _
  cases line with
  | blank => exact List.not_mem_nil
  | label i name =>
    simp only [render, List.mem_append, not_or]
    exact ⟨⟨⟨newline_notMem_leftpad (by decide) (hdigits i), by decide⟩, hlabel i name rfl⟩,
      by decide⟩
  | instruction i =>
    rw [render]
    split
    · rename_i raw u b hraw hu
      simp only [List.mem_append, not_or]
      exact ⟨⟨⟨⟨⟨by decide, newline_notMem_leftpad (by decide) (hdigits i)⟩, by decide⟩,
        newline_notMem_leftpad (by decide) (newline_notMem_toDigits (by decide) _)⟩, by decide⟩,
        hunit i u b hu⟩
    · exact List.not_mem_nil

/-- The names of the labels that are printed are in the symbol table. -/
theorem labelForAddress_eq_some {address : Word} {name : String}
    (h : p.labelForAddress address = some name) :
    name = "start" ∨ ∃ data, (name, data) ∈ p.symbolTable := by
  have hfold (symbols : List (String × SymbolData)) (labels : Word → Option String)
      (h : (symbols.foldl (fun labels (name, data) =>
        if data.isData then labels else Function.update labels data.address (some name)) labels)
          address = some name) :
      labels address = some name ∨ ∃ data, (name, data) ∈ symbols := by
    induction symbols generalizing labels with
    | nil => exact .inl h
    | cons e symbols ih =>
      obtain ⟨other, data⟩ := e
      rw [List.foldl_cons] at h
      rcases ih _ h with hlabels | ⟨data', hmem⟩
      · dsimp only at hlabels
        split at hlabels
        · exact .inl hlabels
        · rw [Function.update_apply] at hlabels
          split at hlabels
          · obtain rfl := Option.some.inj hlabels
            exact .inr ⟨data, List.mem_cons_self⟩
          · exact .inl hlabels
      · exact .inr ⟨data', List.mem_cons_of_mem _ hmem⟩
  have hsymbol (h : (p.symbolTable.foldl (fun labels (name, data) =>
      if data.isData then labels else Function.update labels data.address (some name))
        fun _ => none) address = some name) : ∃ data, (name, data) ∈ p.symbolTable :=
    (hfold p.symbolTable _ h).resolve_left nofun
  unfold labelForAddress at h
  dsimp only at h
  split at h
  · rw [Function.update_apply] at h
    split at h
    · exact .inl (Option.some.inj h).symm
    · exact .inr (hsymbol h)
  · exact .inr (hsymbol h)

theorem label_mem {i n : Nat} {name : String} (h : Line.label i name ∈ p.linesBelow n) :
    p.labelForAddress (Parser.textAddress i) = some name := by
  obtain ⟨j, -, h⟩ := List.mem_flatMap.mp h
  unfold labelLines at h
  cases hlabel : p.labelForAddress (Parser.textAddress j) with
  | none =>
    rw [hlabel] at h
    simp at h
  | some other =>
    rw [hlabel] at h
    dsimp only at h
    split at h
    · simp at h
      rw [h.1, h.2, hlabel]
    · simp at h
      rw [h.1, h.2, hlabel]

end SymbolListing

section

open OutputStream SymbolListing

variable {cfg : ParserConfig} {floatText : String → Except Thrown String} {turns : Nat}
  {source : List (List Char)} {p : SymbolListing} {tokens : List Token} {q : Parser}

/-- It is the same program. -/
theorem assembleSymbols_listing : (assembleSymbols cfg floatText turns source).map
    (Option.map SymbolListing.toListing) = assembleListing cfg floatText turns source := by
  unfold assembleSymbols assembleListing
  cases Lexer.getTokenList floatText source with
  | error e => rfl
  | ok tokens =>
    rw [Loop.bind_ok, Loop.bind_ok]
    cases Parser.parse cfg turns tokens with
    | error e => rfl
    | ok result =>
      rw [Loop.bind_ok, Loop.bind_ok]
      cases result with
      | yield p => rfl
      | done p =>
        dsimp only
        by_cases hcount : p.errors.count = 0
        · rw [if_pos hcount, if_pos hcount]
          cases CodeGenerator.generateMachineCode p.intermediateCode with
          | error e => rfl
          | ok text => rfl
        · rw [if_neg hcount, if_neg hcount]
          rfl

theorem assembleSymbols_eq_ok (h : assembleSymbols cfg floatText turns source = .ok (some p)) :
    ∃ tokens q, Lexer.getTokenList floatText source = .ok tokens ∧ Parser.Accepts cfg tokens q ∧
      p.textBuffer.length = p.intermediateCode.length ∧
      p.intermediateCode = q.intermediateCode ∧
      p.symbolTable = symbolEntries tokens q.symbolTable := by
  obtain ⟨tokens, htokens, h⟩ := Loop.bind_eq_ok h
  obtain ⟨result, hparse, h⟩ := Loop.bind_eq_ok h
  cases result with
  | yield q => cases h
  | done q =>
    dsimp only at h
    by_cases hcount : q.errors.count = 0
    · rw [if_pos hcount] at h
      obtain ⟨text, htext, h⟩ := Loop.bind_eq_ok h
      obtain rfl := Option.some.inj (Except.ok.inj h)
      exact ⟨tokens, q, htokens, ⟨⟨turns, hparse⟩, hcount⟩, (Loop.mapM_eq_ok htext).1, rfl, rfl⟩
    · rw [if_neg hcount] at h
      cases h

theorem Parser.Labeled.newline {name : String}
    (htokens : Lexer.getTokenList floatText source = .ok tokens)
    (h : Parser.Labeled tokens name) : '\n' ∉ name.toList := by
  obtain ⟨t, ht, htype, rfl⟩ := h
  intro hmem
  exact absurd (Lexer.getTokenList_label htokens t ht htype _ hmem) (by decide)

theorem newline_notMem_repr (n : Nat) : '\n' ∉ (Nat.repr n).toList := by
  rw [Nat.toList_repr]
  exact newline_notMem_toDigits (by decide) n

theorem newline_notMem_register {bank : Option Bank} {name : String} (h : IsRegister bank name) :
    '\n' ∉ name.toList := by
  cases bank with
  | none =>
    obtain rfl : name = "" := h
    exact List.not_mem_nil
  | some bank =>
    obtain ⟨r, rfl⟩ := h
    cases bank with
    | gpr =>
      rw [Bank.name, gprName, String.toList_append, List.mem_append, not_or]
      exact ⟨by decide, newline_notMem_repr _⟩
    | fpr =>
      rw [Bank.name, fprName, String.toList_append, List.mem_append, not_or]
      exact ⟨by decide, newline_notMem_repr _⟩

theorem newline_notMem_int (n : Int) : '\n' ∉ (toString n).toList := by
  cases n with
  | ofNat n => exact newline_notMem_repr n
  | negSucc n =>
    rw [Decimal.toList_negSucc, List.mem_cons, not_or]
    exact ⟨by decide, newline_notMem_toDigits (by decide) _⟩

theorem newline_notMem_imm {l : Layout} {u : ICUnit} (h : l.Immediate u) :
    '\n' ∉ u.imm.toList := by
  unfold Layout.Immediate at h
  split at h
  · rw [h]
    exact List.not_mem_nil
  · obtain ⟨n, hn, -, -⟩ := h
    rw [hn]
    exact newline_notMem_int n

theorem newline_notMem_opcode {opcode : String} {s : InstructionSet.SyntaxType}
    (h : s ∈ InstructionSet.syntaxes opcode) : '\n' ∉ opcode.toList := by
  have htable : ∀ e ∈ InstructionSet.instructionSyntaxMap, '\n' ∉ e.1.toList := by decide +kernel
  unfold InstructionSet.syntaxes at h
  cases hlookup : InstructionSet.instructionSyntaxMap.lookup opcode with
  | none =>
    rw [hlookup] at h
    cases h
  | some types => exact htable _ (Parser.mem_of_lookup hlookup)

theorem newline_notMem_unit {u : ICUnit} (h : u.Good) (hlabel : '\n' ∉ u.label.toList) :
    '\n' ∉ unitText u := by
  obtain ⟨s, hs, l, -, hregisters, himm⟩ := h
  refine newline_notMem_unitText (newline_notMem_opcode hs) ?_ hlabel
  simp only [List.forall_mem_cons]
  exact ⟨newline_notMem_register hregisters.rd, newline_notMem_register hregisters.rs1,
    newline_notMem_register hregisters.rs2, newline_notMem_register hregisters.rs3,
    newline_notMem_imm himm, List.forall_mem_nil _⟩

/-- The lines of a program that was assembled from a source. -/
theorem newline_notMem_disassembly
    (h : assembleSymbols cfg floatText turns source = .ok (some p)) :
    ∀ line ∈ p.disassemblyLines, '\n' ∉ p.render line := by
  obtain ⟨tokens, q, htokens, haccepts, -, hcode, hsymbols⟩ := assembleSymbols_eq_ok h
  have hlexed := Lexer.getTokenList_lexed htokens
  intro line hline
  refine newline_notMem_render (fun i name hlabel => ?_) fun i u b hu => ?_
  · rw [hlabel] at hline
    rcases labelForAddress_eq_some (label_mem hline) with rfl | ⟨data, hdata⟩
    · decide
    · rw [hsymbols, mem_symbolEntries] at hdata
      exact hdata.1.newline htokens
  · rw [hcode] at hu
    have hmem := List.mem_of_getElem? hu
    refine newline_notMem_unit (haccepts.good hlexed hmem) ?_
    rcases haccepts.unit_label hlexed hmem with hnone | ⟨symbol, hsymbol⟩
    · rw [hnone]
      exact List.not_mem_nil
    · exact (haccepts.labeled hlexed hsymbol).newline htokens

/-- The mapping of the disassembly: every instruction is on one line of it, in order, and is sent to
the number of that line. -/
structure SymbolListing.Mapped (p : SymbolListing) (d : Dump) : Prop where
  words : p.textBuffer.length = p.intermediateCode.length
  text : d.out.text.splitOn '\n' = p.disassemblyLines.map p.render ++ [[]]
  once : p.disassemblyLines.filterMap Line.instruction? = List.range p.intermediateCode.length
  domain : ∀ i, (d.mapping i).isSome = true ↔ i < p.intermediateCode.length
  line : ∀ i k, d.mapping i = some k ↔ 1 ≤ k ∧ p.disassemblyLines[k - 1]? = some (.instruction i)

theorem dumpDisasssembly_mapped (h : assembleSymbols cfg floatText turns source = .ok (some p)) :
    p.Mapped p.dumpDisasssembly := by
  obtain ⟨-, -, -, -, hlength, -, -⟩ := assembleSymbols_eq_ok h
  have hprinted := printed_of_length hlength
  have honce := linesBelow_instructions p p.intermediateCode.length
  refine ⟨hlength, ?_, honce, fun i => ?_, hprinted.mapping⟩
  · have htexts : ∀ text ∈ p.disassemblyLines.map p.render, '\n' ∉ text := by
      intro text htext
      obtain ⟨line, hline, rfl⟩ := List.mem_map.mp htext
      exact newline_notMem_disassembly h line hline
    have hlines : p.dumpDisasssembly.out.text =
        (p.disassemblyLines.map p.render).flatMap fun text => text ++ ['\n'] := by
      rw [hprinted.out, List.flatMap_map]
      rfl
    rw [hlines, splitOn_lines htexts]
  · have hmem : Line.instruction i ∈ p.disassemblyLines ↔ i < p.intermediateCode.length := by
      rw [instruction_mem, disassemblyLines, honce, List.mem_range]
    rw [← hmem, Option.isSome_iff_exists, List.mem_iff_getElem?]
    constructor
    · rintro ⟨k, hk⟩
      exact ⟨k - 1, ((hprinted.mapping i k).mp hk).2⟩
    · rintro ⟨j, hj⟩
      exact ⟨j + 1, (hprinted.mapping i (j + 1)).mpr ⟨Nat.succ_pos j, hj⟩⟩

/-- A label in front of the first instruction, two labels of the second and one behind the last. -/
theorem dumpDisasssembly_mapped_labels : ∃ p : SymbolListing,
    p.disassemblyLines = [.label 0 "main", .instruction 0, .blank, .label 1 "b", .instruction 1] ∧
      p.dumpDisasssembly.mapping 0 = some 2 ∧ p.dumpDisasssembly.mapping 1 = some 5 := by
  obtain ⟨r, hr, hsome⟩ := Loop.exists_of_map (show
    (assembleSymbols .default noFloat 9
      (["main: nop", "a:", "b: beq x1, x2, main", "end:"].map String.toList)).toOption.map
        (Option.map SymbolListing.disassemblyLines) =
      some (some [.label 0 "main", .instruction 0, .blank, .label 1 "b", .instruction 1]) by
    decide +kernel)
  obtain ⟨p, rfl, hlines⟩ := Option.map_eq_some_iff.mp hsome
  have hmapped := dumpDisasssembly_mapped hr
  refine ⟨p, hlines, (hmapped.line 0 2).mpr ?_, (hmapped.line 1 5).mpr ?_⟩
  · rw [hlines]
    decide
  · rw [hlines]
    decide

end

end RiscvSim
