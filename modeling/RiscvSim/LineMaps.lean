import Mathlib.Order.Bounds.Basic
import RiscvSim.Assembler
import RiscvSim.Breakpoints
import RiscvSim.SourceLines
import RiscvSim.Templates

/-! The instruction at which a breakpoint on a line stops. -/

namespace RiscvSim

namespace LineMap

/-- `for (i = first; i <= line; ++i) map[i] = instruction` -/
def assign (map : Nat → Option Nat) (first line instruction : Nat) : Nat → Option Nat :=
  (List.range' first (line + 1 - first)).foldl
    (fun map i => Function.update map i (some instruction)) map

/-- `map`, `prev_instruction` and `prev_line`. -/
abbrev State := (Nat → Option Nat) × Nat × Nat

def turn : State → Nat → State
  | (map, prevInstruction, prevLine), line =>
    (assign map prevLine line prevInstruction, prevInstruction + 1, line + 1)

/-- The map from lines to instructions, made from the lines of the instructions. -/
def ofLines (lines : List Nat) : Nat → Option Nat :=
  (lines.foldl turn (fun _ => none, 0, 1)).1

theorem foldl_update (map : Nat → Option Nat) (first n instruction i : Nat) :
    (List.range' first n).foldl (fun map i => Function.update map i (some instruction)) map i =
      if first ≤ i ∧ i < first + n then some instruction else map i := by
  induction n generalizing map first with
  | zero => simp
  | succ n ih =>
    rw [List.range'_succ, List.foldl_cons, ih, Function.update_apply]
    by_cases hi : i = first
    · rw [if_neg (by omega), if_pos hi, if_pos (by omega)]
    · by_cases hin : first + 1 ≤ i ∧ i < first + 1 + n
      · rw [if_pos hin, if_pos (by omega)]
      · rw [if_neg hin, if_neg hi, if_neg (by omega)]

theorem assign_apply (map : Nat → Option Nat) (first line instruction i : Nat) :
    assign map first line instruction i =
      if first ≤ i ∧ i ≤ line then some instruction else map i := by
  rw [assign, foldl_update]
  by_cases hin : first ≤ i ∧ i ≤ line
  · rw [if_pos hin, if_pos (by omega)]
  · rw [if_neg hin, if_neg (by omega)]

/-- The loop from a state with the lines below `first` done. -/
theorem foldl_turn {lines : List Nat} (hlines : lines.Pairwise (· ≤ ·)) (map : Nat → Option Nat)
    (n first : Nat) (hfirst : ∀ line ∈ lines, first ≤ line + 1)
    (hmap : ∀ i, first ≤ i → map i = none) (i : Nat) :
    (lines.foldl turn (map, n, first)).1 i =
      if i < first then map i else (lines.findIdx? fun line => i ≤ line).map (n + ·) := by
  induction lines generalizing map n first with
  | nil =>
    by_cases hi : i < first
    · rw [if_pos hi]
      rfl
    · rw [if_neg hi]
      exact hmap i (Nat.le_of_not_lt hi)
  | cons line lines ih =>
    have hhead := hfirst line List.mem_cons_self
    have hrest : ∀ line' ∈ lines, line ≤ line' := fun _ => List.rel_of_pairwise_cons hlines
    rw [List.foldl_cons, turn, ih (List.Pairwise.of_cons hlines) _ _ _
      (fun line' hline' => Nat.succ_le_succ (hrest line' hline'))
      (fun j hj => by rw [assign_apply, if_neg (by omega), hmap j (by omega)]), assign_apply,
      List.findIdx?_cons]
    by_cases hbelow : i < first
    · rw [if_pos (by omega), if_neg (by omega), if_pos hbelow]
    · rw [if_neg hbelow]
      by_cases hline : i ≤ line
      · rw [if_pos (by omega), if_pos (by omega), if_pos (by simpa using hline)]
        rfl
      · rw [if_neg (by omega), if_neg (by simpa using hline), Option.map_map]
        congr 1
        funext k
        show n + 1 + k = n + (k + 1)
        omega

/-- A line is mapped to the first instruction that is not before it. -/
theorem ofLines_eq {lines : List Nat} (hlines : lines.Pairwise (· ≤ ·)) (i : Nat) :
    ofLines lines i = if i < 1 then none else lines.findIdx? fun line => i ≤ line := by
  rw [ofLines, foldl_turn hlines _ 0 1 (fun _ _ => by omega) (fun _ _ => rfl)]
  congr 1
  cases lines.findIdx? fun line => i ≤ line with
  | none => rfl
  | some k => exact congrArg some (Nat.zero_add k)

/-- The instructions on the line `i` or after it. -/
def fromLine (lines : List Nat) (i : Nat) : Set Nat :=
  { k | ∃ line, lines[k]? = some line ∧ i ≤ line }

theorem findIdx?_isLeast {lines : List Nat} {i k : Nat} :
    lines.findIdx? (fun line => i ≤ line) = some k ↔ IsLeast (fromLine lines i) k := by
  rw [List.findIdx?_eq_some_iff_getElem]
  constructor
  · rintro ⟨hk, hline, hbefore⟩
    refine ⟨⟨_, List.getElem?_eq_getElem hk, by simpa using hline⟩, ?_⟩
    rintro j ⟨line, hj, hij⟩
    by_contra hlt
    obtain ⟨hjlt, rfl⟩ := List.getElem?_eq_some_iff.mp hj
    exact hbefore j (Nat.lt_of_not_le hlt) (by simpa using hij)
  · rintro ⟨⟨line, hk, hline⟩, hleast⟩
    obtain ⟨hlt, rfl⟩ := List.getElem?_eq_some_iff.mp hk
    refine ⟨hlt, by simpa using hline, fun j hj hij => ?_⟩
    have hmem : j ∈ fromLine lines i :=
      ⟨_, List.getElem?_eq_getElem (Nat.lt_trans hj hlt), by simpa using hij⟩
    exact absurd (hleast hmem) (Nat.not_le_of_lt hj)

def lastLine (lines : List Nat) : Nat := lines.getLast?.getD 0

theorem le_lastLine {lines : List Nat} (hlines : lines.Pairwise (· ≤ ·)) {line : Nat}
    (h : line ∈ lines) : line ≤ lastLine lines := by
  cases lines using List.reverseRecOn with
  | nil => simp at h
  | append_singleton lines last =>
    rw [lastLine, List.getLast?_concat, Option.getD_some]
    rcases List.mem_append.mp h with h | h
    · exact (List.pairwise_append.mp hlines).2.2 line h last List.mem_cons_self
    · exact (List.mem_singleton.mp h).le

theorem lastLine_mem {lines : List Nat} (h : 1 ≤ lastLine lines) : lastLine lines ∈ lines := by
  unfold lastLine at h ⊢
  cases hlast : lines.getLast? with
  | none =>
    rw [hlast] at h
    exact absurd h (by decide)
  | some last => exact List.mem_of_getLast? hlast

/-- A line is mapped exactly if it is not after the last instruction, and then to the first
instruction on it or after it. -/
theorem ofLines_spec {lines : List Nat} (hlines : lines.Pairwise (· ≤ ·)) (i : Nat) :
    ((ofLines lines i).isSome = true ↔ 1 ≤ i ∧ i ≤ lastLine lines) ∧
      ∀ k, ofLines lines i = some k ↔ 1 ≤ i ∧ IsLeast (fromLine lines i) k := by
  rw [ofLines_eq hlines]
  by_cases hi : i < 1
  · rw [if_pos hi]
    have hnot : ¬ 1 ≤ i := Nat.not_le_of_lt hi
    exact ⟨iff_of_false (by simp) fun h => hnot h.1,
      fun k => iff_of_false (by simp) fun h => hnot h.1⟩
  · rw [if_neg hi, List.findIdx?_isSome, List.any_eq_true]
    refine ⟨⟨?_, ?_⟩, fun k => ?_⟩
    · rintro ⟨line, hmem, hline⟩
      exact ⟨by omega, Nat.le_trans (by simpa using hline) (le_lastLine hlines hmem)⟩
    · rintro ⟨hpos, hlast⟩
      exact ⟨_, lastLine_mem (Nat.le_trans hpos hlast), by simpa using hlast⟩
    · rw [findIdx?_isLeast]
      exact ⟨fun h => ⟨by omega, h⟩, fun h => h.2⟩

end LineMap

/-- The program that the assembler returns, with the intermediate code. -/
structure Listing extends AssembledProgram where
  intermediateCode : List (ICUnit × Bool)
  lineNumberInstructionNumberMapping : Nat → Option Nat

namespace Listing

/-- The lines of the instructions. -/
def lines (a : Listing) : List Nat := a.intermediateCode.map fun e => e.1.lineNumber

def listed (a : Listing) : ListedProgram where
  toAssembledProgram := a.toAssembledProgram
  lineInstruction line := (a.lineNumberInstructionNumberMapping line.toNat).map (BitVec.ofNat 32)

end Listing

/-- `assemble`, with the map from lines to instructions. -/
def assembleListing (cfg : ParserConfig) (floatText : String → Except Thrown String) (turns : Nat)
    (source : List (List Char)) : Except Thrown (Option Listing) := do
  match ← Parser.parse cfg turns (← Lexer.getTokenList floatText source) with
  | .yield _ => return none
  | .done p =>
    if p.errors.count = 0 then
      return some {
        textBuffer := ← CodeGenerator.generateMachineCode p.intermediateCode
        dataBuffer := p.dataBuffer
        intermediateCode := p.intermediateCode
        lineNumberInstructionNumberMapping := LineMap.ofLines p.instructionLines }
    else throw .runtimeError

section

variable {cfg : ParserConfig} {floatText : String → Except Thrown String} {turns : Nat}
  {source : List (List Char)} {a : Listing}

/-- It is the same program. -/
theorem assembleListing_program : (assembleListing cfg floatText turns source).map
    (Option.map Listing.toAssembledProgram) = (assemble cfg floatText turns source).map
      (Option.map Assembly.toAssembledProgram) := by
  unfold assembleListing assemble assembleTokens
  cases Lexer.getTokenList floatText source with
  | error e => rfl
  | ok tokens =>
    rw [Loop.bind_ok, Loop.bind_ok]
    cases Parser.parse cfg turns tokens with
    | error e => rfl
    | ok result =>
      rw [Loop.bind_ok, Loop.bind_ok]
      cases result with
      | yield p => rfl
      | done p =>
        dsimp only
        by_cases hcount : p.errors.count = 0
        · rw [if_pos hcount, if_pos hcount]
          cases CodeGenerator.generateMachineCode p.intermediateCode with
          | error e => rfl
          | ok text => rfl
        · rw [if_neg hcount, if_neg hcount]
          rfl

theorem assembleListing_eq_ok (h : assembleListing cfg floatText turns source = .ok (some a)) :
    a.lines.Pairwise (· ≤ ·) ∧ a.lines.length = a.textBuffer.length ∧
      a.lineNumberInstructionNumberMapping = LineMap.ofLines a.lines := by
  obtain ⟨tokens, htokens, h⟩ := Loop.bind_eq_ok h
  obtain ⟨result, hparse, h⟩ := Loop.bind_eq_ok h
  cases result with
  | yield p => cases h
  | done p =>
    dsimp only at h
    by_cases hcount : p.errors.count = 0
    · rw [if_pos hcount] at h
      obtain ⟨text, htext, h⟩ := Loop.bind_eq_ok h
      obtain rfl := Option.some.inj (Except.ok.inj h)
      have haccepts : Parser.Accepts cfg tokens p := ⟨⟨turns, hparse⟩, hcount⟩
      refine ⟨haccepts.lines_ordered htokens, ?_, rfl⟩
      rw [Listing.lines, List.length_map]
      exact (Loop.mapM_eq_ok htext).1.symm
    · rw [if_neg hcount] at h
      cases h

/-- `DebugRun` stops in front of an address of the program. -/
def Session.StopsAt (s : Session) (address : Word) : Prop :=
  ∀ fpu limit (core : Core) executed w, core.programCounter = address →
    address < s.vm.programSize → core.memory.readWord address = .ok w → ¬ executed > limit →
      ∃ r, Vm.debugTurn fpu limit ({ s.vm with core }, executed) = .ok (.done r)

theorem Session.stopsAt_of_mem {s : Session} {address : Word} (h : address ∈ s.vm.breakpoints) :
    s.StopsAt address := by
  rintro fpu limit core executed w rfl hpc hread hlimit
  exact (debugTurn_done_iff (v := { s.vm with core }) hpc hread hlimit).mpr h

theorem addressOf_listed {line : Word} {k : Nat}
    (h : a.lineNumberInstructionNumberMapping (line.setWidth 32).toNat = some k) :
    a.listed.addressOf line = some (Parser.textAddress k) := by
  have hproduct : BitVec.ofNat 32 k * 4 = BitVec.ofNat 32 (4 * k) := by
    rw [Nat.mul_comm, BitVec.ofNat_mul]
    rfl
  rw [ListedProgram.addressOf, Listing.listed]
  dsimp only
  rw [h, Parser.textAddress, ← hproduct]
  rfl

/-- The lines up to that of the last instruction are mapped, each to the first instruction on it or
after it, where a breakpoint on the line stops. -/
theorem lineMapping_spec (h : assembleListing cfg floatText turns source = .ok (some a)) :
    a.lines.length = a.textBuffer.length ∧
      (∀ i, (a.lineNumberInstructionNumberMapping i).isSome = true ↔
        1 ≤ i ∧ i ≤ LineMap.lastLine a.lines) ∧
      (∀ i k, a.lineNumberInstructionNumberMapping i = some k ↔
        1 ≤ i ∧ IsLeast (LineMap.fromLine a.lines i) k) ∧
      ∀ (s : Session) (line : Word), s.program = a.listed → 1 ≤ (line.setWidth 32).toNat →
        (line.setWidth 32).toNat ≤ LineMap.lastLine a.lines →
          ∃ k, IsLeast (LineMap.fromLine a.lines (line.setWidth 32).toNat) k ∧
            (s.addBreakpoint line).StopsAt (Parser.textAddress k) := by
  obtain ⟨hordered, hlength, hmap⟩ := assembleListing_eq_ok h
  have hspec (i : Nat) := LineMap.ofLines_spec hordered i
  rw [← hmap] at hspec
  refine ⟨hlength, fun i => (hspec i).1, fun i => (hspec i).2, ?_⟩
  intro s line hprogram hpos hlast
  obtain ⟨k, hk⟩ := Option.isSome_iff_exists.mp ((hspec _).1.mpr ⟨hpos, hlast⟩)
  refine ⟨k, (((hspec _).2 k).mp hk).2, Session.stopsAt_of_mem ?_⟩
  rw [Session.mem_addBreakpoint, hprogram]
  exact .inr (addressOf_listed hk)

/-- The lines of the instructions of a source. -/
def linesOf (source : List String) : Option (List Nat) :=
  match assembleListing .default noFloat 9 (source.map String.toList) with
  | .ok (some a) => some a.lines
  | _ => none

theorem exists_listing {source : List String} {lines : List Nat} (h : linesOf source = some lines) :
    ∃ a, assembleListing .default noFloat 9 (source.map String.toList) = .ok (some a) ∧
      a.lines = lines := by
  unfold linesOf at h
  split at h
  · rename_i a ha
    exact ⟨a, ha, Option.some.inj h⟩
  · cases h

/-- A comment, a constant that needs two instructions, a label, and an instruction. -/
theorem lineMapping_spec_expanded : ∃ a : Listing, a.lines = [2, 2, 4] ∧
    (∀ i, (a.lineNumberInstructionNumberMapping i).isSome = true ↔ 1 ≤ i ∧ i ≤ 4) ∧
      ∀ i k, a.lineNumberInstructionNumberMapping i = some k ↔
        1 ≤ i ∧ IsLeast (LineMap.fromLine [2, 2, 4] i) k := by
  have hlines : linesOf ["# constants", "li x1, 5000", "next:", "nop"] = some [2, 2, 4] := by
    decide +kernel
  obtain ⟨a, ha, hlines⟩ := exists_listing hlines
  obtain ⟨-, hdefined, hleast, -⟩ := lineMapping_spec ha
  rw [hlines] at hdefined hleast
  exact ⟨a, hlines, hdefined, hleast⟩

end

end RiscvSim
