import RiscvSim.AssemblyRun
import RiscvSim.Debugger
import RiscvSim.LineMaps

/-! The debugger on the statements of a source, with breakpoints on its lines. -/

namespace RiscvSim

open Simulation (Simulates Traces)

/-- The hart of an architectural state. -/
def Arch.hart (a : Arch) : Hart where
  pc := a.programCounter
  x := a.registers.readGpr
  memory := a.memory
  x_zero := a.registers.readGpr_zero

/-- The instructions of a program under the debugger. -/
def Hart.debuggee (size limit : Word) (breakpoints : List Word) : Debuggee Hart where
  step := Hart.Follows size
  ended h := ¬ h.pc < size
  rests h := ¬ h.pc < size ∧ h.memory.InRange h.pc 4
  breaks h := h.pc ∈ breakpoints ∧ h.pc < size ∧ h.memory.InRange h.pc 4
  exceeds n := BitVec.ofNat 64 n > limit

namespace Vm

/-- A command that comes to its end by itself. -/
inductive Completes (fpu : Fpu) (limit : Word) : DebugCommand → Vm → Vm → Prop
  | step {v w : Vm} (h : v.step fpu = .ok w) : Completes fpu limit .step v w
  | undo {v w : Vm} (h : v.undo = .ok w) : Completes fpu limit .undo v w
  | redo {v w : Vm} (h : v.redo = .ok w) : Completes fpu limit .redo v w
  | debugRun {v w : Vm} {turns : Nat} {executed : Word}
      (h : v.debugRun fpu limit turns = .ok (.done (w, executed))) : Completes fpu limit .debugRun v w

/-- The stacks of the machine represent the line of its harts. -/
structure Debugged (size : Word) (breakpoints : List Word) (t : Timeline Hart) (v : Vm) : Prop where
  line : ∃ h : Timeline Arch, h.present = v.core.arch ∧
    Timeline.Represents Linked v.undoStack v.redoStack h ∧ t.Related (fun hart a => a.hart = hart) h
  noChanges : v.NoChanges
  programSize : v.programSize = size
  breakpoints : v.breakpoints = breakpoints

variable {size limit : Word} {breakpoints : List Word} {t u : Timeline Hart} {v w : Vm}

theorem Debugged.hart (h : Debugged size breakpoints t v) : v.hart = t.present := by
  obtain ⟨line, hpresent, -, hrelated⟩ := h.line
  rw [← hrelated.present, hpresent]
  rfl

theorem Debugged.depth (h : Debugged size breakpoints t v) :
    v.undoStack.length = t.past.length ∧ v.redoStack.length = t.future.length := by
  obtain ⟨line, -, hrepresents, hrelated⟩ := h.line
  rw [← hrepresents.length_past, ← hrepresents.length_future, hrelated.past.length_eq,
    hrelated.future.length_eq]
  exact ⟨rfl, rfl⟩

/-- What is not on the line may change. -/
theorem Debugged.congr (h : Debugged size breakpoints t v) (harch : w.core.arch = v.core.arch)
    (hundo : w.undoStack = v.undoStack) (hredo : w.redoStack = v.redoStack) (hnone : w.NoChanges)
    (hsize : w.programSize = v.programSize) (hbreak : w.breakpoints = v.breakpoints) :
    Debugged size breakpoints t w := by
  obtain ⟨line, hpresent, hrepresents, hrelated⟩ := h.line
  refine ⟨⟨line, hpresent.trans harch.symm, ?_, hrelated⟩, hnone, hsize.trans h.programSize,
    hbreak.trans h.breakpoints⟩
  rw [hundo, hredo]
  exact hrepresents

theorem Debugged.step (fpu : Fpu) {h' : Hart} (h : Debugged size breakpoints t v)
    (hfollows : Hart.Follows size t.present h') :
    v.core.programCounter < v.programSize ∧
      ∃ w, v.step fpu = .ok w ∧ Debugged size breakpoints (t.commit h') w := by
  obtain ⟨line, hpresent, hrepresents, hrelated⟩ := h.line
  rw [← h.hart, ← h.programSize] at hfollows
  obtain ⟨i, hfetch, hconforms, hexec⟩ := hfollows
  obtain ⟨hword, hin⟩ := nextWord_of_fetch hfetch
  obtain ⟨w, hstep, rfl, -⟩ := stepsToHart fpu hfetch hconforms hexec
  have hplain : v.AtPlainWord := AtIntegerWord.plain ⟨_, hword, i.integer⟩
  obtain ⟨d, hpush⟩ := step_pushed h.noChanges hplain hin hstep
  refine ⟨hin, w, hstep, ⟨line.commit w.core.arch, rfl, ?_, hrelated.commit rfl⟩, hpush.noChanges,
    hpush.programSize.trans h.programSize, hpush.breakpoints.trans h.breakpoints⟩
  rw [hpush.undoStack, hpush.redoStack]
  exact hrepresents.commit (hpresent ▸ hpush.linked)

theorem Debugged.rest (fpu : Fpu) (h : Debugged size breakpoints t v) (hend : ¬ t.present.pc < size)
    (hrange : t.present.memory.InRange t.present.pc 4) :
    ∃ w, v.step fpu = .ok w ∧ Debugged size breakpoints t w := by
  rw [← h.hart] at hend hrange
  obtain ⟨x, hx⟩ : ∃ x, v.nextWord = .ok x := ⟨_, Memory.readWord_eq_ok_iff.mpr ⟨hrange, rfl⟩⟩
  have hpc : ¬ v.core.programCounter < v.programSize := h.programSize ▸ hend
  refine ⟨v.noteState x, ?_, h.congr rfl rfl rfl ⟨h.noChanges.register, h.noChanges.memory⟩ rfl rfl⟩
  rw [Vm.step, preview_of_nextWord hx, Loop.bind_ok, noteState_core, noteState_programSize,
    if_neg hpc]
  rfl

theorem Debugged.undo (h : Debugged size breakpoints t v) :
    ∃ w, v.undo = .ok w ∧ Debugged size breakpoints t.undo w := by
  obtain ⟨line, hpresent, hrepresents, hrelated⟩ := h.line
  cases hstack : v.undoStack with
  | nil =>
    rw [hstack] at hrepresents
    refine ⟨v, by rw [Vm.undo, hstack], ⟨line, hpresent, by rwa [hstack], ?_⟩, h.noChanges,
      h.programSize, h.breakpoints⟩
    rw [← hrepresents.undo_nil]
    exact hrelated.undo
  | cons d ds =>
    rw [hstack] at hrepresents
    obtain ⟨hlink, hrepresents'⟩ := hrepresents.undo
    rw [hpresent] at hlink
    obtain ⟨w, hw, harch, -, hvm⟩ := undo_linked hstack hlink
    refine ⟨w, hw, ⟨line.undo, harch.symm, ?_, hrelated.undo⟩, ?_, ?_, ?_⟩
    · rw [hvm]
      exact hrepresents'
    · rw [hvm]
      exact ⟨h.noChanges.register, h.noChanges.memory⟩
    · rw [hvm]
      exact h.programSize
    · rw [hvm]
      exact h.breakpoints

theorem Debugged.redo (h : Debugged size breakpoints t v) :
    ∃ w, v.redo = .ok w ∧ Debugged size breakpoints t.redo w := by
  obtain ⟨line, hpresent, hrepresents, hrelated⟩ := h.line
  cases hstack : v.redoStack with
  | nil =>
    rw [hstack] at hrepresents
    refine ⟨v, by rw [Vm.redo, hstack], ⟨line, hpresent, by rwa [hstack], ?_⟩, h.noChanges,
      h.programSize, h.breakpoints⟩
    rw [← hrepresents.redo_nil]
    exact hrelated.redo
  | cons d ds =>
    rw [hstack] at hrepresents
    obtain ⟨hlink, hrepresents'⟩ := hrepresents.redo
    rw [hpresent] at hlink
    obtain ⟨w, hw, harch, -, hvm⟩ := redo_linked hstack hlink
    refine ⟨w, hw, ⟨line.redo, harch.symm, ?_, hrelated.redo⟩, ?_, ?_, ?_⟩
    · rw [hvm]
      exact hrepresents'
    · rw [hvm]
      exact ⟨h.noChanges.register, h.noChanges.memory⟩
    · rw [hvm]
      exact h.programSize
    · rw [hvm]
      exact h.breakpoints

/-- The loop of `DebugRun` goes round while nothing stops the program. -/
theorem Debugged.proceeds (fpu : Fpu) {n : Nat} (h : Debugged size breakpoints t v)
    (hproceeds : (Hart.debuggee size limit breakpoints).Proceeds t n u) :
    ∃ w, v.debugRun fpu limit n = .ok (.yield (w, BitVec.ofNat 64 n)) ∧
      Debugged size breakpoints u w := by
  induction hproceeds with
  | refl => exact ⟨v, rfl, h⟩
  | @tail n u s _ hgo hstep ih =>
    obtain ⟨w, hrun, hw⟩ := ih
    obtain ⟨hin, w', hw', hdebugged⟩ := hw.step fpu hstep
    obtain ⟨i, hfetch, -⟩ := hstep
    obtain ⟨hlt, hrange, -⟩ := Hart.fetch_eq_some_iff.mp hfetch
    simp only [Debuggee.Stops, not_or] at hgo
    have hbreak : w.core.programCounter ∉ w.breakpoints := by
      intro hmem
      rw [← hw.hart] at hgo hlt hrange
      exact hgo.2.2 ⟨hw.breakpoints ▸ hmem, hlt, hrange⟩
    have hturn := debugTurn_eq_yield_iff.mpr ⟨⟨hin, hgo.2.1, hbreak⟩, hw', rfl⟩
    refine ⟨w', ?_, hdebugged⟩
    rw [debugRun, Loop.run_snoc hrun hturn, BitVec.ofNat_add]
    rfl

/-- It leaves the loop where something does. -/
theorem Debugged.stops (fpu : Fpu) {n : Nat} (h : Debugged size breakpoints t v)
    (hstop : (Hart.debuggee size limit breakpoints).Stops n t.present) :
    ∃ w, debugTurn fpu limit (v, BitVec.ofNat 64 n) = .ok (.done (w, BitVec.ofNat 64 n)) ∧
      Debugged size breakpoints t w := by
  rw [← h.hart] at hstop
  simp only [debugTurn]
  by_cases hpc : v.core.programCounter < v.programSize
  · by_cases hlimit : BitVec.ofNat 64 n > limit
    · exact ⟨v, by rw [if_neg (not_not.mpr hpc), if_pos hlimit], h⟩
    · have hended : ¬ ¬ v.hart.pc < size := not_not.mpr (h.programSize ▸ hpc)
      obtain ⟨hmem, -, hrange⟩ := (hstop.resolve_left hended).resolve_left hlimit
      obtain ⟨x, hx⟩ : ∃ x, v.nextWord = .ok x := ⟨_, Memory.readWord_eq_ok_iff.mpr ⟨hrange, rfl⟩⟩
      have hmem : v.core.programCounter ∈ v.breakpoints := h.breakpoints ▸ hmem
      refine ⟨{ v.noteState x with currentDelta := .empty }, ?_,
        h.congr rfl rfl rfl ⟨rfl, rfl⟩ rfl rfl⟩
      rw [if_neg (not_not.mpr hpc), if_neg hlimit, preview_of_nextWord hx, Loop.bind_ok,
        noteState_core, noteState_breakpoints, if_pos hmem]
      rfl
  · exact ⟨v, by rw [if_pos hpc], h⟩

/-- The machine obeys the debugger as the hart does. -/
theorem simulates_debugger (fpu : Fpu) (command : DebugCommand) :
    Simulates (Debugged size breakpoints) ((Hart.debuggee size limit breakpoints).Obeys command)
      (Completes fpu limit command) := by
  rintro t v u h hobeys
  cases hobeys with
  | step hstep =>
    obtain ⟨-, w, hw, hdebugged⟩ := h.step fpu hstep
    exact ⟨w, .step hw, hdebugged⟩
  | rest hrests =>
    obtain ⟨w, hw, hdebugged⟩ := h.rest fpu hrests.1 hrests.2
    exact ⟨w, .step hw, hdebugged⟩
  | undo =>
    obtain ⟨w, hw, hdebugged⟩ := h.undo
    exact ⟨w, .undo hw, hdebugged⟩
  | redo =>
    obtain ⟨w, hw, hdebugged⟩ := h.redo
    exact ⟨w, .redo hw, hdebugged⟩
  | @debugRun n _ _ hproceeds hstop =>
    obtain ⟨w, hrun, hw⟩ := h.proceeds fpu hproceeds
    obtain ⟨w', hturn, hw'⟩ := hw.stops fpu hstop
    exact ⟨w', .debugRun (Loop.run_snoc hrun hturn), hw'⟩

end Vm

namespace Parser

/-- The statements of a source under the debugger: it interrupts them in front of the first
statement on or behind a line that is marked. -/
def debuggee (cfg : ParserConfig) (tokens : List Token) (q : Parser) (limit : Word)
    (marks : List Word) : Debuggee Hart where
  step := AsmStep cfg tokens q
  ended h := ¬ h.pc < textAddress q.intermediateCode.length
  rests h := ¬ h.pc < textAddress q.intermediateCode.length ∧ h.memory.InRange h.pc 4
  breaks h := ∃ line ∈ marks, 1 ≤ (line.setWidth 32).toNat ∧
    ∃ k, IsLeast (LineMap.fromLine q.instructionLines (line.setWidth 32).toNat) k ∧
      h.pc = textAddress k
  exceeds n := BitVec.ofNat 64 n > limit

end Parser

section

variable {cfg : ParserConfig} {floatText : String → Except Thrown String}
  {source : List (List Char)} {tokens : List Token} {q : Parser} {a : Listing} {parseTurns : Nat}
  {s : Session} {limit size : Word} {config : Config} {marks : List Word} {x : Word}

/-- What the assembler makes of the parser's result. -/
theorem assembleListing_of_parse (htokens : Lexer.getTokenList floatText source = .ok tokens)
    (hparse : Parser.parse cfg parseTurns tokens = .ok (.done q))
    (h : assembleListing cfg floatText parseTurns source = .ok (some a)) :
    Parser.Accepts cfg tokens q ∧ CodeGenerator.generateMachineCode q.intermediateCode = .ok a.textBuffer ∧
      a.dataBuffer = q.dataBuffer ∧ a.lines = q.instructionLines := by
  obtain ⟨tokens', htokens', h⟩ := Loop.bind_eq_ok h
  obtain rfl := Except.ok.inj (htokens.symm.trans htokens')
  obtain ⟨result, hparse', h⟩ := Loop.bind_eq_ok h
  obtain rfl := Except.ok.inj (hparse.symm.trans hparse')
  dsimp only at h
  by_cases hcount : q.errors.count = 0
  · rw [if_pos hcount] at h
    obtain ⟨text, htext, h⟩ := Loop.bind_eq_ok h
    obtain rfl := Option.some.inj (Except.ok.inj h)
    exact ⟨⟨⟨parseTurns, hparse⟩, hcount⟩, htext, rfl, rfl⟩
  · rw [if_neg hcount] at h
    cases h

theorem exists_listing_of_parse {text : List Instr}
    (htokens : Lexer.getTokenList floatText source = .ok tokens)
    (hparse : Parser.parse cfg parseTurns tokens = .ok (.done q)) (hcount : q.errors.count = 0)
    (htext : CodeGenerator.generateMachineCode q.intermediateCode = .ok text) :
    ∃ a, assembleListing cfg floatText parseTurns source = .ok (some a) ∧
      a.toAssembledProgram = ⟨text, q.dataBuffer⟩ := by
  unfold assembleListing
  rw [htokens, Loop.bind_ok, hparse, Loop.bind_ok]
  dsimp only
  rw [if_pos hcount, htext]
  exact ⟨_, rfl, rfl⟩

namespace Session

/-- A breakpoint on each of the lines. -/
def addBreakpoints (s : Session) (marks : List Word) : Session := marks.foldl addBreakpoint s

theorem addBreakpoint_frame (s : Session) (line : Word) : (s.addBreakpoint line).program = s.program ∧
    ∃ l, (s.addBreakpoint line).vm = { s.vm with breakpoints := l } := by
  unfold addBreakpoint
  cases s.program.addressOf line with
  | none => exact ⟨rfl, s.vm.breakpoints, rfl⟩
  | some bp => exact ⟨rfl, _, rfl⟩

theorem addBreakpoints_frame (s : Session) (marks : List Word) :
    ∃ l, (s.addBreakpoints marks).vm = { s.vm with breakpoints := l } := by
  induction marks generalizing s with
  | nil => exact ⟨s.vm.breakpoints, rfl⟩
  | cons line marks ih =>
    obtain ⟨-, l, hl⟩ := s.addBreakpoint_frame line
    obtain ⟨l', hl'⟩ := ih (s.addBreakpoint line)
    exact ⟨l', by rw [addBreakpoints, List.foldl_cons, ← addBreakpoints, hl', hl]⟩

theorem mem_addBreakpoints : x ∈ (s.addBreakpoints marks).vm.breakpoints ↔
    x ∈ s.vm.breakpoints ∨ ∃ line ∈ marks, s.program.addressOf line = some x := by
  induction marks generalizing s with
  | nil => simp [addBreakpoints]
  | cons line marks ih =>
    rw [addBreakpoints, List.foldl_cons, ← addBreakpoints, ih, mem_addBreakpoint,
      (addBreakpoint_frame s line).1, List.exists_mem_cons_iff, or_assoc]

end Session

theorem addressOf_listed_iff {line : Word} : a.listed.addressOf line = some x ↔
    ∃ k, a.lineNumberInstructionNumberMapping (line.setWidth 32).toNat = some k ∧
      x = Parser.textAddress k := by
  constructor
  · intro h
    cases hk : a.lineNumberInstructionNumberMapping (line.setWidth 32).toNat with
    | none =>
      have hnone : a.listed.addressOf line = none := by
        rw [ListedProgram.addressOf, Listing.listed]
        dsimp only
        rw [hk]
        rfl
      cases hnone.symm.trans h
    | some k => exact ⟨k, rfl, Option.some.inj (h.symm.trans (addressOf_listed hk))⟩
  · rintro ⟨k, hk, rfl⟩
    exact addressOf_listed hk

/-- The breakpoints of the marked lines, and the end of the program. -/
theorem mem_breakpoints {memorySize : Word}
    (hlisting : assembleListing cfg floatText parseTurns source = .ok (some a))
    (hload : (Session.initial memorySize).exec (.loadProgram config a.listed) = .ok s) :
    x ∈ (s.addBreakpoints marks).vm.breakpoints ↔ x = s.vm.programSize ∨
      ∃ line ∈ marks, 1 ≤ (line.setWidth 32).toNat ∧
        ∃ k, IsLeast (LineMap.fromLine a.lines (line.setWidth 32).toNat) k ∧
          x = Parser.textAddress k := by
  obtain ⟨hsize, hbreak⟩ := Session.loadProgram_breakpoints hload
  obtain ⟨v, -, hs⟩ := Loop.bind_eq_ok hload
  obtain rfl := Except.ok.inj hs
  obtain ⟨hordered, -, hmap⟩ := assembleListing_eq_ok hlisting
  rw [Session.mem_addBreakpoints, hbreak, Session.mem_mark, ← hsize]
  refine or_congr ?_ (exists_congr fun line => and_congr_right fun _ => ?_)
  · exact ⟨fun h => h.resolve_left List.not_mem_nil, .inr⟩
  · rw [addressOf_listed_iff, hmap]
    simp only [(LineMap.ofLines_spec hordered _).2, and_assoc, exists_and_left]

/-- The statements stop where their instructions do. -/
theorem matches_asm {text : List Instr} {breakpoints : List Word} (hlexed : LexedTokens tokens)
    (haccepts : Parser.Accepts cfg tokens q)
    (htext : CodeGenerator.generateMachineCode q.intermediateCode = .ok text)
    (hsmall : 4 * text.length < 2 ^ 32) (hsize : size = Parser.textAddress text.length)
    (hbreakpoints : ∀ x, x ∈ breakpoints ↔ x = size ∨ ∃ line ∈ marks,
      1 ≤ (line.setWidth 32).toNat ∧ ∃ k,
        IsLeast (LineMap.fromLine q.instructionLines (line.setWidth 32).toNat) k ∧
          x = Parser.textAddress k) :
    Debuggee.Matches (fun h h' => h = h' ∧ h'.Holds text)
      (Parser.debuggee cfg tokens q limit marks) (Hart.debuggee size limit breakpoints) := by
  have hlength : text.length = q.intermediateCode.length := (Loop.mapM_eq_ok htext).1
  have hend : Parser.textAddress q.intermediateCode.length = size := by rw [hsize, hlength]
  refine ⟨?_, ?_, ?_⟩
  · exact Parser.simulates_asm hlexed haccepts htext hsmall (by rw [hsize, textAddress_toNat hsmall])
  · rintro h _ ⟨rfl, -⟩ ⟨hended, hrange⟩
    exact ⟨hend ▸ hended, hrange⟩
  · rintro n h _ ⟨rfl, hheld⟩
    have hbreaks : h.pc < size → ((Parser.debuggee cfg tokens q limit marks).breaks h ↔
        (Hart.debuggee size limit breakpoints).breaks h) := by
      intro hlt
      refine Iff.trans (b := h.pc ∈ breakpoints) ?_ ⟨fun hmem => ⟨hmem, hlt, ?_⟩, fun hb => hb.1⟩
      · rw [hbreakpoints]
        exact ⟨.inr, fun hmem => hmem.resolve_left fun heq => BitVec.lt_irrefl _ (heq ▸ hlt)⟩
      · rw [hbreakpoints] at hmem
        obtain ⟨line, -, -, k, hk, hpc⟩ := hmem.resolve_left fun heq => BitVec.lt_irrefl _ (heq ▸ hlt)
        obtain ⟨⟨l, hline, -⟩, -⟩ := hk
        have hk : k < q.intermediateCode.length := by
          have hlt := (List.getElem?_eq_some_iff.mp hline).1
          rw [Parser.instructionLines, List.length_map] at hlt
          exact hlt
        obtain ⟨w, hw⟩ : ∃ w, text[k]? = some w :=
          ⟨_, List.getElem?_eq_getElem (hlength ▸ hk)⟩
        rw [hpc]
        exact (Memory.readWord_eq_ok_iff.mp (hheld k w hw)).1
    have hended : (Parser.debuggee cfg tokens q limit marks).ended h ↔
        (Hart.debuggee size limit breakpoints).ended h := by
      change ¬ h.pc < Parser.textAddress q.intermediateCode.length ↔ ¬ h.pc < size
      rw [hend]
    by_cases hlt : h.pc < size
    · exact or_congr hended (or_congr Iff.rfl (hbreaks hlt))
    · exact iff_of_true (.inl (hended.mpr hlt)) (.inl hlt)

namespace Vm

variable {t : Timeline Hart} {memorySize : Word}

end Vm

end

end RiscvSim
