import RiscvSim.Formats
import RiscvSim.NameClashes
import RiscvSim.ProgramCounter

/-! Runs on which the program counter stays a multiple of 4. The branches of a program go to
multiples of 4, whatever its text; the jumps are checked less. -/

namespace RiscvSim

open CodeGenerator InstructionSet

/-- The address or the offset is a multiple of 4. -/
def Aligned (x : Word) : Prop := 4 ∣ x.toNat

theorem aligned_add_iff {x y : Word} (h : Aligned x) : Aligned (x + y) ↔ Aligned y := by
  unfold Aligned at h ⊢
  rw [BitVec.toNat_add]
  omega

theorem getLsbD_one {x : BitVec 32} (h : x.toNat % 4 = 0) : x.getLsbD 1 = false := by
  rw [BitVec.getLsbD, Nat.testBit_eq_decide_div_mod_eq, decide_eq_false_iff_not]
  omega

theorem or_even {x y : BitVec 32} (hx : x.toNat % 2 = 0) (hy : y.toNat % 2 = 0) :
    (x ||| y).toNat % 2 = 0 := by
  have h := @Nat.or_mod_two_pow x.toNat y.toNat 1
  simpa [hx, hy] using h

theorem shiftLeft_even (x : BitVec 32) {k : Nat} (hk : 1 ≤ k) : (x <<< k).toNat % 2 = 0 := by
  obtain ⟨j, rfl⟩ : ∃ j, k = j + 1 := ⟨k - 1, by omega⟩
  rw [BitVec.toNat_shiftLeft, Nat.shiftLeft_eq, Nat.pow_succ, ← Nat.mul_assoc]
  omega

theorem signExtendImm_mod_four {x : BitVec 32} (h : x.toNat % 4 = 0) :
    (signExtendImm x 13).toNat % 4 = 0 := by
  have hxor : (x.toNat ^^^ 4096) % 2 ^ 2 = 0 := by
    rw [Nat.xor_mod_two_pow]
    simp [h]
  have hmask : ((1 <<< (13 - 1) : Nat) : BitVec 32).toNat = 4096 := rfl
  simp only [signExtendImm, BitVec.toNat_sub, BitVec.toNat_xor, hmask]
  omega

theorem signExtend_mod_four {x : BitVec 32} (h : x.toNat % 4 = 0) :
    Aligned (x.signExtend 64) := by
  have hx := x.isLt
  rw [Aligned, BitVec.toNat_signExtend, BitVec.toNat_setWidth]
  split <;> omega

/-- The immediate of a branch word whose bit 8 is clear. -/
theorem offset_of_branch {w : Instr} (hop : w.opcode = 0b1100011#7) (hbit : w.getLsbD 8 = false) :
    Aligned w.offset := by
  have hlow : ((Instr.field w 8 4).setWidth 32 : BitVec 32).toNat % 2 = 0 := by
    rw [BitVec.getLsbD, Nat.testBit_eq_decide_div_mod_eq, decide_eq_false_iff_not] at hbit
    rw [setWidth_toNat _ (by decide), Instr.field_toNat]
    omega
  rw [Instr.offset]
  refine signExtend_mod_four ?_
  simp only [immGenerator, hop]
  refine signExtendImm_mod_four ?_
  rw [BitVec.toNat_shiftLeft, Nat.shiftLeft_eq]
  have heven := or_even (or_even (or_even hlow
    (shiftLeft_even ((Instr.field w 25 6).setWidth 32) (by decide : 1 ≤ 4)))
    (shiftLeft_even ((Instr.field w 7 1).setWidth 32) (by decide : 1 ≤ 10)))
    (shiftLeft_even ((Instr.field w 31 1).setWidth 32) (by decide : 1 ≤ 11))
  omega

namespace CodeGenerator

variable {block : ICUnit} {w : Instr} {n : Int}

/-- The mnemonics with the opcode of a branch. -/
theorem format_of_branch (f : Format) : ∀ p ∈ f.encodings, p.2.opcode = 0b1100011#7 → f = .B := by
  cases f <;> decide

theorem isValidB_of_encoding :
    ∀ p ∈ bTypeInstructionEncodingMap, isValidBTypeInstruction p.1 = true := by decide

/-- Bit 8 of a branch is bit 1 of its immediate. -/
theorem branch_bit (himm : block.imm = toString n) (hdvd : 4 ∣ n)
    (h : generateBTypeMachineCode block = .ok w) : w.getLsbD 8 = false := by
  obtain ⟨e, -, h⟩ := Loop.bind_eq_ok h
  obtain ⟨rs1, -, h⟩ := Loop.bind_eq_ok h
  obtain ⟨rs2, -, h⟩ := Loop.bind_eq_ok h
  obtain ⟨imm, hi, h⟩ := Loop.bind_eq_ok h
  obtain rfl := Except.ok.inj h
  have hvalue : imm = BitVec.ofInt 32 n := by
    rw [himm, immediate, stoi, stoRange, Decimal.value_toString] at hi
    dsimp only at hi
    split at hi
    · exact (Except.ok.inj hi).symm
    · cases hi
  have hbit : imm[1] = false := by
    rw [← BitVec.getLsbD_eq_getElem]
    refine getLsbD_one ?_
    rw [hvalue, BitVec.toNat_ofInt]
    omega
  have hshift : (imm.sshiftRight 1)[0] = false := by
    rw [← BitVec.getLsbD_eq_getElem, BitVec.getLsbD_sshiftRight]
    simp [hbit]
  simp [hshift]

/-- A word with the opcode of a branch comes from a branch. -/
theorem branch_of_word (h : machineCode block = .ok w) (hop : w.opcode = 0b1100011#7) :
    isValidBTypeInstruction block.opcode = true ∧ generateBTypeMachineCode block = .ok w := by
  obtain ⟨f, hformat⟩ := formatOf_of_machineCode h
  obtain ⟨e, he, hopcode⟩ := machineCode_opcode f hformat w h
  have hmem : (block.opcode, e) ∈ f.encodings := by
    unfold mapAt at he
    split at he
    · rename_i hlookup
      obtain rfl := Except.ok.inj he
      exact Parser.mem_of_lookup hlookup
    · cases he
  obtain rfl := format_of_branch f _ hmem (hopcode.symm.trans hop)
  refine ⟨isValidB_of_encoding _ hmem, ?_⟩
  rw [machineCode, hformat] at h
  exact h

end CodeGenerator

namespace Parser

variable {q : Parser}

theorem textAddress_mod (k : Nat) : (textAddress k).toNat % 4 = 0 := by
  rw [textAddress, BitVec.toNat_setWidth, BitVec.toNat_ofNat]
  omega

/-- Numeric offsets of branches are checked, and their labels stand before instructions. -/
theorem CodeInv.branch {i : Nat} {u : ICUnit} {b : Bool} (h : q.CodeInv [])
    (hi : q.intermediateCode[i]? = some (u, b)) (hbranch : isValidBTypeInstruction u.opcode = true) :
    ∃ n : Int, u.imm = toString n ∧ 4 ∣ n := by
  rcases h.units i u b hi with hunit | hback
  · cases hunit with
    | plain hplain => exact hplain.aligned.1 hbranch
    | linked _ _ hresolved =>
      obtain ⟨symbol, hsymbol, hdata, himm⟩ := hresolved
      obtain ⟨k, -, haddress⟩ := h.text _ symbol hsymbol (hdata hbranch)
      refine ⟨_, himm, ?_⟩
      have hk := textAddress_mod k
      have hi := textAddress_mod i
      rw [haddress, BitVec.toInt_eq_toNat_cond, BitVec.toNat_sub]
      split <;> omega
  · cases hback

end Parser

/-- The branches of a program go to multiples of 4. -/
theorem text_branch {cfg : ParserConfig} {tokens : List Token} {q : Parser} {text : List Instr}
    {k : Nat} {w : Instr} (hlexed : LexedTokens tokens) (haccepts : Parser.Accepts cfg tokens q)
    (htext : generateMachineCode q.intermediateCode = .ok text) (hw : text[k]? = some w)
    (hop : w.opcode = 0b1100011#7) : Aligned w.offset := by
  obtain ⟨p, r, haccepted⟩ := Parser.accepted_of_accepts hlexed haccepts
  obtain ⟨hlength, hunits⟩ := Loop.mapM_eq_ok htext
  have hk : k < q.intermediateCode.length := by
    rw [← hlength]
    exact (List.getElem?_eq_some_iff.mp hw).1
  obtain ⟨w', hw', hcode⟩ := hunits k _ (List.getElem?_eq_getElem hk)
  obtain rfl : w = w' := Option.some.inj (hw.symm.trans hw')
  obtain ⟨hbranch, hword⟩ := branch_of_word hcode hop
  obtain ⟨n, himm, hdvd⟩ := (haccepted.code hlexed).1.branch (List.getElem?_eq_getElem hk) hbranch
  exact offset_of_branch hop (branch_bit himm hdvd hword)

namespace Vm

variable {fpu : Fpu} {text : List Instr} {u u' v : Vm}

/-- The next instruction does not jump to an address that is no multiple of 4. A branch needs
this only where the program has been overwritten. -/
def JumpsAligned (text : List Instr) (v : Vm) : Prop :=
  ∀ w : Instr, v.core.programCounter < v.programSize → v.nextWord = .ok w →
    (w.opcode = 0b1101111#7 → Aligned w.offset) ∧
    (w.opcode = 0b1100111#7 → Aligned (v.core.registers.readGpr w.rs1 + w.offset)) ∧
    (w.opcode = 0b1100011#7 → text[v.core.programCounter.toNat / 4]? ≠ some w →
      v.core.takes w = true → Aligned w.offset)

/-- One step from a multiple of 4. -/
theorem step_aligned_iff
    (htext : ∀ (k : Nat) (w : Instr), text[k]? = some w → w.opcode = 0b1100011#7 →
      Aligned w.offset)
    (haligned : Aligned u.core.programCounter) (h : u.step fpu = .ok u') : Aligned u'.core.programCounter ↔ JumpsAligned text u := by
  obtain ⟨w, hword, hpc⟩ := step_target h
  have hnext : Aligned (u.core.programCounter + 4) :=
    (aligned_add_iff haligned).mpr (by unfold Aligned; decide)
  have hthis : JumpsAligned text u ↔ (u.core.programCounter < u.programSize →
      (w.opcode = 0b1101111#7 → Aligned w.offset) ∧
      (w.opcode = 0b1100111#7 → Aligned (u.core.registers.readGpr w.rs1 + w.offset)) ∧
      (w.opcode = 0b1100011#7 → text[u.core.programCounter.toNat / 4]? ≠ some w →
        u.core.takes w = true → Aligned w.offset)) := by
    constructor
    · intro hall hin
      exact hall w hin hword
    · intro hall w' hin hword'
      obtain rfl : w = w' := Except.ok.inj (hword.symm.trans hword')
      exact hall hin
  rw [hthis, hpc]
  by_cases hin : u.core.programCounter < u.programSize
  · rw [if_pos hin]
    simp only [hin, true_implies]
    by_cases hjalr : w.opcode = 0b1100111#7
    · simp [Core.target, hjalr]
    by_cases hjal : w.opcode = 0b1101111#7
    · simp [Core.target, hjal, aligned_add_iff haligned]
    by_cases hbranch : w.opcode = 0b1100011#7
    · simp only [Core.target, hbranch]
      by_cases htaken : u.core.takes w = true
      · rw [if_pos htaken, aligned_add_iff haligned]
        by_cases hplace : text[u.core.programCounter.toNat / 4]? = some w
        · simp [htext _ w hplace hbranch]
        · simp [hplace, htaken]
      · simpa [htaken] using hnext
    · rw [Core.target_other hjalr hjal hbranch]
      simpa [hjalr, hjal, hbranch] using hnext
  · rw [if_neg hin]
    simp only [hin, false_implies, iff_true]
    exact haligned

/-- A run over a text whose branches are aligned. -/
theorem run_aligned_iff
    (htext : ∀ (k : Nat) (w : Instr), text[k]? = some w → w.opcode = 0b1100011#7 →
      Aligned w.offset)
    (hstart : Aligned v.core.programCounter) :
    (∀ n u, Loop.iter (step fpu) n v = .ok u → Aligned u.core.programCounter) ↔
      ∀ n u u', Loop.iter (step fpu) n v = .ok u → u.step fpu = .ok u' → JumpsAligned text u := by
  constructor
  · intro hall n u u' hu hstep
    have hu' : Loop.iter (step fpu) (n + 1) v = .ok u' := by
      rw [Loop.iter_succ_last, hu, Loop.bind_ok, hstep]
    exact (step_aligned_iff htext (hall n u hu) hstep).mp (hall (n + 1) u' hu')
  · intro hjumps n
    induction n with
    | zero =>
      intro u hu
      obtain rfl := Except.ok.inj hu
      exact hstart
    | succ n ih =>
      intro u' hu'
      rw [Loop.iter_succ_last] at hu'
      obtain ⟨u, hu, hstep⟩ := Loop.bind_eq_ok hu'
      exact (step_aligned_iff htext (ih u hu) hstep).mpr (hjumps n u u' hu hstep)

end Vm

/-- On the program of a source, the program counter stays a multiple of 4 exactly as long as
the jumps that are executed, and the branches written over the program, go to one. -/
theorem pc_aligned_iff {cfg : ParserConfig} {floatText : String → Except Thrown String}
    {source : List (List Char)} {a : Assembly} {config : Config} {v v₀ : Vm} (fpu : Fpu)
    (hassembles : Assembles cfg floatText source a)
    (hload : v.loadProgram config a.toAssembledProgram = .ok v₀)
    (hstart : Aligned v.core.programCounter) :
    (∀ n u, Loop.iter (Vm.step fpu) n v₀ = .ok u → Aligned u.core.programCounter) ↔
      ∀ n u u', Loop.iter (Vm.step fpu) n v₀ = .ok u → u.step fpu = .ok u' →
        u.JumpsAligned a.textBuffer := by
  obtain ⟨turns, hassembles⟩ := hassembles
  obtain ⟨tokens, htokens, hassembles⟩ := Loop.bind_eq_ok hassembles
  obtain ⟨q, haccepts, htext⟩ := accepts_of_assembled hassembles
  have hlexed := Lexer.getTokenList_lexed htokens
  obtain ⟨memory, programSize, breakpoints, rfl⟩ := Vm.loadProgram_eq_ok hload
  exact Vm.run_aligned_iff (fun k w hw hop => text_branch hlexed haccepts htext hw hop) hstart

/-- The program of a single line. -/
def lineProgram (line : String) : Option AssembledProgram :=
  match assemble .default noFloat 9 [line.toList] with
  | .ok (some a) => some a.toAssembledProgram
  | _ => none

theorem assembles_line {line : String} {program : AssembledProgram}
    (h : lineProgram line = some program) :
    ∃ a, Assembles .default noFloat [line.toList] a ∧ a.toAssembledProgram = program := by
  unfold lineProgram at h
  split at h
  · rename_i a ha
    exact ⟨a, ⟨9, ha⟩, Option.some.inj h⟩
  · cases h

/-- A new machine loads the program and takes a step. -/
def loadAndStep (program : AssembledProgram) : Except Fault Word :=
  (Vm.initial 0x1000).loadProgram ⟨0x100, 100⟩ program >>= fun v₀ =>
    v₀.step .zero >>= fun u => .ok u.core.programCounter

theorem loadAndStep_lines :
    lineProgram "jal x0,2" = some ⟨[0x0020006f], []⟩ ∧
    loadAndStep ⟨[0x0020006f], []⟩ = .ok 2 ∧
    lineProgram "addi x1,x0,1" = some ⟨[0x00100093], []⟩ ∧
    loadAndStep ⟨[0x00100093], []⟩ = .ok 4 := by
  decide +kernel

theorem loadAndStep_eq_ok {program : AssembledProgram} {pc : Word}
    (h : loadAndStep program = .ok pc) :
    ∃ v₀ u, (Vm.initial 0x1000).loadProgram ⟨0x100, 100⟩ program = .ok v₀ ∧
      v₀.step .zero = .ok u ∧ u.core.programCounter = pc := by
  obtain ⟨v₀, hload, h⟩ := Loop.bind_eq_ok h
  obtain ⟨u, hstep, h⟩ := Loop.bind_eq_ok h
  exact ⟨v₀, u, hload, hstep, Except.ok.inj h⟩

theorem pc_aligned_iff_addi : ∃ a v₀,
    Assembles .default noFloat ["addi x1,x0,1".toList] a ∧
    (Vm.initial 0x1000).loadProgram ⟨0x100, 100⟩ a.toAssembledProgram = .ok v₀ ∧
    ((∀ n u, Loop.iter (Vm.step .zero) n v₀ = .ok u → Aligned u.core.programCounter) ↔
      ∀ n u u', Loop.iter (Vm.step .zero) n v₀ = .ok u → u.step .zero = .ok u' →
        u.JumpsAligned a.textBuffer) := by
  obtain ⟨-, -, hline, hsteps⟩ := loadAndStep_lines
  obtain ⟨a, ha, hprogram⟩ := assembles_line hline
  obtain ⟨v₀, u, hload, -, -⟩ := loadAndStep_eq_ok hsteps
  rw [← hprogram] at hload
  exact ⟨a, v₀, ha, hload, pc_aligned_iff .zero ha hload (by unfold Aligned; decide)⟩

/-- `jal x0, 2` is accepted and jumps into the middle of a word. -/
theorem pc_not_aligned_jal :
    ¬ ∀ (fpu : Fpu) (cfg : ParserConfig) (floatText : String → Except Thrown String)
      (source : List (List Char)) (a : Assembly) (config : Config) (v v₀ : Vm),
      Assembles cfg floatText source a → v.loadProgram config a.toAssembledProgram = .ok v₀ →
      Aligned v.core.programCounter →
      ∀ n u, Loop.iter (Vm.step fpu) n v₀ = .ok u → Aligned u.core.programCounter := by
  intro hclaim
  obtain ⟨hline, hsteps, -⟩ := loadAndStep_lines
  obtain ⟨a, ha, hprogram⟩ := assembles_line hline
  obtain ⟨v₀, u, hload, hstep, hpc⟩ := loadAndStep_eq_ok hsteps
  rw [← hprogram] at hload
  have hrun : Loop.iter (Vm.step .zero) 1 v₀ = .ok u := by
    rw [Loop.iter_succ, hstep]
    rfl
  have haligned := hclaim .zero _ _ _ a _ _ v₀ ha hload (by unfold Aligned; decide) 1 u hrun
  rw [hpc] at haligned
  revert haligned
  unfold Aligned
  decide

end RiscvSim
