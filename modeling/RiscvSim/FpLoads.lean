import RiscvSim.LoadsStores

/-! Floating-point loads. The write-back of the floating-point instructions takes the
register file from bits 31 to 25, which belong to the immediate of a load. -/

namespace RiscvSim

inductive FpLoadOp where
  | flw | fld
  deriving DecidableEq, Repr

namespace FpLoadOp

def funct3 : FpLoadOp → BitVec 3
  | flw => 0b010#3
  | fld => 0b011#3

def bytes : FpLoadOp → Nat
  | flw => 4
  | fld => 8

/-- The instruction word. -/
def word (op : FpLoadOp) (rd rs1 : RegIndex) (imm : BitVec 12) : Instr :=
  Instr.iType imm rs1 op.funct3 rd 0b0000111#7

/-- What goes to the register: the word above zeros, or the doubleword. -/
def extend (op : FpLoadOp) (x : Word) : Word :=
  match op with
  | flw => (x.setWidth 32).setWidth 64
  | fld => x

/-- The upper bits of the immediate that the write-back takes for a comparison, a
conversion to an integer or a move to an integer register. -/
def toGpr (op : FpLoadOp) (imm : BitVec 12) : Bool :=
  let funct7 := imm.extractLsb' 5 7
  match op with
  | flw => funct7 == 0b1010000#7 || funct7 == 0b1100000#7 || funct7 == 0b1110000#7
  | fld => funct7 == 0b1010001#7 || funct7 == 0b1100001#7 || funct7 == 0b1110001#7

section

variable (op : FpLoadOp) (rd rs1 : RegIndex) (imm : BitVec 12)

@[simp] theorem word_opcode : (op.word rd rs1 imm).opcode = 0b0000111#7 := Instr.iType_opcode ..

@[simp] theorem word_rd : (op.word rd rs1 imm).rd = rd := Instr.iType_rd ..

@[simp] theorem word_funct3 : (op.word rd rs1 imm).funct3 = op.funct3 := Instr.iType_funct3 ..

@[simp] theorem word_rs1 : (op.word rd rs1 imm).rs1 = rs1 := Instr.iType_rs1 ..

@[simp] theorem word_funct7 : (op.word rd rs1 imm).funct7 = imm.extractLsb' 5 7 :=
  Instr.iType_funct7 ..

@[simp] theorem word_isF : isFInstruction (op.word rd rs1 imm) = (op == .flw) := by
  cases op <;> simp [isFInstruction, funct3]

@[simp] theorem word_isD : isDInstruction (op.word rd rs1 imm) = (op == .fld) := by
  cases op <;> simp [isDInstruction, funct3]

theorem word_signal : ControlUnit.getAluSignal (op.word rd rs1 imm) = .kAdd := by
  cases op <;> simp only [ControlUnit.getAluSignal, word_opcode, word_funct3, funct3]

theorem word_control : ControlUnit.setControlSignals (op.word rd rs1 imm) =
    { ControlUnit.reset with aluSrc := true, memToReg := true, regWrite := true, memRead := true } := by
  simp [ControlUnit.setControlSignals]

theorem word_immediate : (immGenerator (op.word rd rs1 imm)).signExtend 64 = imm.signExtend 64 := by
  rw [word, immGenerator_iType (by simp), signExtend_signExtend _ (by decide)]

end

end FpLoadOp

theorem fetchCycle_of_stages {fpu : Fpu} {c c₂ c₃ : Core} {w : Instr} {executed stored : Changes}
    (hw : c.memory.readWord c.programCounter = .ok w) (hldbm : w.opcode ≠ 0b0101010#7)
    (hbigmul : w.opcode ≠ 0b0111111#7) (hexec : (decoded c w).execute fpu = .ok (c₂, executed))
    (hmem : c₂.writeMemory = .ok (c₃, stored)) :
    c.fetchCycle fpu = .ok ({ c₃.writeBack.1 with
      instructionsRetired := c₃.writeBack.1.instructionsRetired + 1
      cycleS := c₃.writeBack.1.cycleS + 1 }, executed ++ stored ++ c₃.writeBack.2) := by
  have hfetch : c.fetch = .ok
      { c with currentInstruction := w, programCounter := c.programCounter + 4 } := by
    rw [Core.fetch, hw]
    rfl
  rw [Core.fetchCycle, hfetch, Loop.bind_ok, decode_other hldbm hbigmul, Loop.bind_ok]
  change (decoded c w).execute fpu >>= _ = _
  rw [hexec, Loop.bind_ok]
  dsimp only
  rw [hmem]
  rfl

/-- The machine after `Execute` of a floating-point load. -/
structure Addressed (c c₂ : Core) (w : Instr) (address : Word) : Prop where
  currentInstruction : c₂.currentInstruction = w
  controlUnit : c₂.controlUnit = .setControlSignals w
  executionResult : c₂.executionResult = address
  memory : c₂.memory = c.memory
  programCounter : c₂.programCounter = c.programCounter + 4
  gpr : c₂.registers.gpr = c.registers.gpr
  fpr : c₂.registers.fpr = c.registers.fpr

section

variable {c : Core} {op : FpLoadOp} {rd rs1 : RegIndex} {imm : BitVec 12}

theorem execute_fpLoad (fpu : Fpu) (c : Core) (op : FpLoadOp) (rd rs1 : RegIndex)
    (imm : BitVec 12) : ∃ c₂, (decoded c (op.word rd rs1 imm)).execute fpu = .ok (c₂, .none) ∧
    Addressed c c₂ (op.word rd rs1 imm) (c.registers.readGpr rs1 + imm.signExtend 64) := by
  have hnot : ¬ ((op.word rd rs1 imm).opcode = 0b1110011#7 ∧
      (op.word rd rs1 imm).funct3 = 0b000#3) := by
    simp
  have hsignal := op.word_signal rd rs1 imm
  have hcontrol := op.word_control rd rs1 imm
  have himm := op.word_immediate rd rs1 imm
  cases op with
  | flw =>
    refine ⟨(decoded c (FpLoadOp.flw.word rd rs1 imm)).executeFloat fpu, ?_, ?_⟩
    · rw [Core.execute]
      exact (if_neg hnot).trans (if_pos (by simp [decoded]))
    · refine ⟨rfl, rfl, ?_, rfl, rfl, rfl, rfl⟩
      simp [Core.executeFloat, Core.fpOperands, decoded, hsignal, hcontrol, himm, Fpu.fpexecute]
  | fld =>
    refine ⟨(decoded c (FpLoadOp.fld.word rd rs1 imm)).executeDouble fpu, ?_, ?_⟩
    · rw [Core.execute]
      exact ((if_neg hnot).trans (if_neg (by simp [decoded]))).trans (if_pos (by simp [decoded]))
    · refine ⟨rfl, rfl, ?_, rfl, rfl, rfl, rfl⟩
      simp [Core.executeDouble, Core.fpOperands, decoded, hsignal, hcontrol, himm, Fpu.dfpexecute]

/-- The machine before the write-back of a floating-point load. -/
structure Fetched (c₃ : Core) (w : Instr) (address loaded : Word) : Prop where
  currentInstruction : c₃.currentInstruction = w
  controlUnit : c₃.controlUnit = .setControlSignals w
  executionResult : c₃.executionResult = address
  memoryResult : c₃.memoryResult = loaded

theorem writeMemory_fpLoad {c₂ : Core} {address : Word}
    (h : Addressed c c₂ (op.word rd rs1 imm) address) (hrange : c.memory.InRange address op.bytes) :
    ∃ c₃, c₂.writeMemory = .ok (c₃, .none) ∧
      Fetched c₃ (op.word rd rs1 imm) address (op.extend (c.memory.load address 64 op.bytes)) ∧
      c₃.registers = c₂.registers := by
  have hcontrol : c₂.controlUnit = { ControlUnit.reset with
      aluSrc := true, memToReg := true, regWrite := true, memRead := true } := by
    rw [h.controlUnit, FpLoadOp.word_control]
  refine ⟨{ c₂ with memoryResult := op.extend (c.memory.load address 64 op.bytes) }, ?_,
    ⟨h.currentInstruction, h.controlUnit, h.executionResult, rfl⟩, rfl⟩
  cases op with
  | flw =>
    have hread : c.memory.readWord address = .ok (c.memory.load address 32 4) :=
      Memory.readWord_eq_ok_iff.mpr ⟨hrange, rfl⟩
    have hload : (c.memory.load address 64 4).setWidth 32 = c.memory.load address 32 4 :=
      Memory.load_setWidth _ _ (by decide)
    simp [Core.writeMemory, Core.writeMemoryFloat, Core.readResult, hcontrol, ControlUnit.reset,
      h.currentInstruction, h.executionResult, h.memory, hread, FpLoadOp.extend, FpLoadOp.bytes,
      hload]
  | fld =>
    have hread : c.memory.readDoubleWord address = .ok (c.memory.load address 64 8) :=
      Memory.readDoubleWord_eq_ok_iff.mpr ⟨hrange, rfl⟩
    simp [Core.writeMemory, Core.writeMemoryDouble, Core.readResult, hcontrol, ControlUnit.reset,
      h.currentInstruction, h.executionResult, h.memory, hread, FpLoadOp.extend, FpLoadOp.bytes]

/-- The register that the write-back of a floating-point load sets. -/
theorem writeBack_fpLoad {c₃ : Core} {address loaded : Word}
    (h : Fetched c₃ (op.word rd rs1 imm) address loaded) :
    c₃.writeBack.1.registers =
      if op.toGpr imm then c₃.registers.writeGpr rd address else c₃.registers.writeFpr rd loaded := by
  have hnot : ¬ ((op.word rd rs1 imm).opcode = 0b1110011#7 ∧
      (op.word rd rs1 imm).funct3 = 0b000#3) := by
    simp
  have hwrite : c₃.controlUnit.regWrite = true := by
    rw [h.controlUnit, FpLoadOp.word_control]
  have hback (toGpr : Bool) : (c₃.writeBackFp toGpr).1.registers =
      if toGpr then c₃.registers.writeGpr rd address else c₃.registers.writeFpr rd loaded := by
    cases toGpr <;>
      simp [Core.writeBackFp, hwrite, h.currentInstruction, h.executionResult, h.memoryResult]
  cases op with
  | flw =>
    rw [Core.writeBack, h.currentInstruction, if_neg hnot, if_pos (by simp), Core.writeBackFloat,
      h.currentInstruction, FpLoadOp.word_funct7]
    exact hback _
  | fld =>
    rw [Core.writeBack, h.currentInstruction, if_neg hnot, if_neg (by simp), if_pos (by simp),
      Core.writeBackDouble, h.currentInstruction, FpLoadOp.word_funct7]
    exact hback _

end

namespace Vm

variable (fpu : Fpu) {v : Vm} {op : FpLoadOp} {rd rs1 : RegIndex} {imm : BitVec 12}

/-- `Step` on a floating-point load in range. -/
theorem step_fpLoad (hword : v.nextWord = .ok (op.word rd rs1 imm))
    (hin : v.core.programCounter < v.programSize)
    (hrange : v.core.memory.InRange (v.address rs1 imm) op.bytes) :
    ∃ (v' : Vm) (r : RegisterFile), v.step fpu = .ok v' ∧ r.gpr = v.core.registers.gpr ∧ r.fpr = v.core.registers.fpr ∧
      v'.core.registers = if op.toGpr imm then r.writeGpr rd (v.address rs1 imm)
        else r.writeFpr rd (op.extend (v.core.memory.load (v.address rs1 imm) 64 op.bytes)) := by
  have hldbm : (op.word rd rs1 imm).opcode ≠ 0b0101010#7 := by simp
  have hbigmul : (op.word rd rs1 imm).opcode ≠ 0b0111111#7 := by simp
  obtain ⟨c₂, hexec, haddressed⟩ := execute_fpLoad fpu v.core op rd rs1 imm
  obtain ⟨c₃, hmem, hfetched, hregisters⟩ := writeMemory_fpLoad haddressed hrange
  have hcycle := fetchCycle_of_stages hword hldbm hbigmul hexec hmem
  have hbusy := fetchCycle_other hword hldbm hbigmul hcycle
  obtain ⟨v', hstep, hcore, -⟩ := step_of_fetchCycle hword hin hcycle hbusy
  refine ⟨v', c₃.registers, hstep, ?_, ?_, ?_⟩
  · rw [hregisters, haddressed.gpr]
  · rw [hregisters, haddressed.fpr]
  · rw [hcore]
    exact writeBack_fpLoad hfetched

/-- The loaded value is in `f[rd]` and the other registers are as they were. -/
def FpLoaded (fpu : Fpu) (v : Vm) (op : FpLoadOp) (rd rs1 : RegIndex) (imm : BitVec 12) : Prop :=
  ∃ v', v.step fpu = .ok v' ∧ v'.core.registers.readFpr rd =
      op.extend (v.core.memory.load (v.address rs1 imm) 64 op.bytes) ∧
    (∀ r, v'.core.registers.readGpr r = v.core.registers.readGpr r) ∧
    ∀ r, r ≠ rd → v'.core.registers.readFpr r = v.core.registers.readFpr r

theorem fpLoaded_iff (hword : v.nextWord = .ok (op.word rd rs1 imm))
    (hin : v.core.programCounter < v.programSize)
    (hrange : v.core.memory.InRange (v.address rs1 imm) op.bytes) :
    FpLoaded fpu v op rd rs1 imm ↔ op.toGpr imm = false ∨
      (rd = 0 ∨ v.core.registers.readGpr rd = v.address rs1 imm) ∧
      v.core.registers.readFpr rd =
        op.extend (v.core.memory.load (v.address rs1 imm) 64 op.bytes) := by
  obtain ⟨v', r, hstep, hgpr, hfpr, hregisters⟩ := step_fpLoad fpu hword hin hrange
  have hunique (P : Vm → Prop) : (∃ v', v.step fpu = .ok v' ∧ P v') ↔ P v' := by
    rw [hstep]
    simp
  have hread (i : RegIndex) : r.readGpr i = v.core.registers.readGpr i := by
    rw [RegisterFile.readGpr, RegisterFile.readGpr, hgpr]
  have hreadF (i : RegIndex) : r.readFpr i = v.core.registers.readFpr i := by
    rw [RegisterFile.readFpr, RegisterFile.readFpr, hfpr]
  have hwriteF (i j : RegIndex) (x : Word) :
      (r.writeGpr i x).readFpr j = v.core.registers.readFpr j := by
    rw [← hreadF]
    exact (RegisterFile.read_write r (.gpr i) (.fpr j) x).trans (if_neg (by simp))
  rw [FpLoaded, hunique, hregisters]
  cases hto : op.toGpr imm with
  | false =>
    simp only [Bool.false_eq_true, if_false, true_or, iff_true]
    refine ⟨?_, fun i => ?_, fun i hi => ?_⟩
    · exact (RegisterFile.read_write r (.fpr rd) (.fpr rd) _).trans (if_pos (by simp))
    · rw [← hread]
      exact (RegisterFile.read_write r (.fpr rd) (.gpr i) _).trans (if_neg (by simp))
    · rw [← hreadF]
      exact (RegisterFile.read_write r (.fpr rd) (.fpr i) _).trans (if_neg (by simp [hi.symm]))
  | true =>
    simp only [if_true, Bool.true_eq_false, false_or, hwriteF, RegisterFile.readGpr_writeGpr, hread]
    constructor
    · rintro ⟨hloaded, hsame, -⟩
      refine ⟨?_, hloaded⟩
      by_cases hzero : rd = 0
      · exact .inl hzero
      · have h := hsame rd
        rw [if_pos ⟨rfl, hzero⟩] at h
        exact .inr h.symm
    · rintro ⟨hsame, hloaded⟩
      refine ⟨hloaded, fun i => ?_, fun i _ => trivial⟩
      by_cases hi : rd = i ∧ rd ≠ 0
      · rw [if_pos hi, ← hi.1, hsame.resolve_left hi.2]
      · rw [if_neg hi]

/-- `fld f3, 8(x2)` with 256 in `x2`. -/
theorem fpLoaded_fld :
    FpLoaded .zero (holding [FpLoadOp.fld.word 3 2 8] (RegisterFile.reset.writeGpr 2 0x100))
      .fld 3 2 8 := by
  have hrange : (holding [FpLoadOp.fld.word 3 2 8] (RegisterFile.reset.writeGpr 2 0x100)).core.memory.InRange
      ((holding [FpLoadOp.fld.word 3 2 8] (RegisterFile.reset.writeGpr 2 0x100)).address 2 8) 8 := by
    show _ + _ ≤ _
    decide
  exact (fpLoaded_iff .zero (holding_nextWord _ _) (holding_inside _ _) hrange).mpr (.inl (by decide))

/-- `flw f1, -1536(x2)` with 2304 in `x2`: the address 768 goes to `x1`. -/
theorem not_fpLoaded_flw :
    ¬ ∀ (v : Vm) (op : FpLoadOp) (rd rs1 : RegIndex) (imm : BitVec 12),
      v.nextWord = .ok (op.word rd rs1 imm) → v.core.programCounter < v.programSize →
      v.core.memory.InRange (v.address rs1 imm) op.bytes → FpLoaded .zero v op rd rs1 imm := by
  intro hclaim
  let v := holding [FpLoadOp.flw.word 1 2 (-1536)] (RegisterFile.reset.writeGpr 2 0x900)
  have hrange : v.core.memory.InRange (v.address 2 (-1536)) 4 := by
    show _ + _ ≤ _
    decide
  have hword : v.nextWord = .ok (FpLoadOp.flw.word 1 2 (-1536)) := holding_nextWord _ _
  have hin : v.core.programCounter < v.programSize := holding_inside _ _
  obtain ⟨v', hstep, -, hsame, -⟩ := hclaim v .flw 1 2 (-1536) hword hin hrange
  obtain ⟨v'', r, hstep', hgpr, -, hregisters⟩ := step_fpLoad .zero hword hin hrange
  obtain rfl : v' = v'' := Except.ok.inj (hstep.symm.trans hstep')
  have h := hsame 1
  rw [hregisters, if_pos (by decide), RegisterFile.readGpr_writeGpr, if_pos (by decide)] at h
  exact absurd h (by decide)

end Vm

end RiscvSim
