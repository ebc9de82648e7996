import RiscvSim.CustomDecode
import RiscvSim.WordSteps

/-! The shifts by an immediate, from the statement to the step. The encoder and the
arithmetic unit take six bits of the amount, the parser lets five through. -/

namespace RiscvSim

inductive ShiftOp where
  | slli | srli | srai
  deriving DecidableEq, Repr

namespace ShiftOp

def mnemonic : ShiftOp → String
  | slli => "slli"
  | srli => "srli"
  | srai => "srai"

def funct3 : ShiftOp → BitVec 3
  | slli => 0b001#3
  | srli | srai => 0b101#3

def funct6 : ShiftOp → BitVec 6
  | slli | srli => 0b000000#6
  | srai => 0b010000#6

/-- The 64-bit shift. -/
def value (op : ShiftOp) (x : Word) (shamt : BitVec 6) : Word :=
  match op with
  | slli => x <<< shamt.toNat
  | srli => x >>> shamt.toNat
  | srai => x.sshiftRight shamt.toNat

def aluOp : ShiftOp → AluOp
  | slli => .kSll
  | srli => .kSrl
  | srai => .kSra

/-- The instruction word. -/
def word (op : ShiftOp) (rd rs1 : RegIndex) (shamt : BitVec 6) : Instr :=
  Instr.iType (op.funct6 ++ shamt) rs1 op.funct3 rd 0b0010011#7

theorem mnemonic_encoding (op : ShiftOp) : mapAt InstructionSet.i2TypeInstructionEncodingMap op.mnemonic =
    .ok { opcode := 0b0010011, funct3 := op.funct3, funct6 := op.funct6 } := by
  cases op <;> decide

theorem mnemonic_format (op : ShiftOp) : CodeGenerator.formatOf op.mnemonic = some .I2 := by
  cases op <;> decide

/-- The amount is the low six bits of the second operand. -/
theorem amount_eq (op : ShiftOp) (shamt : BitVec 6) :
    (op.funct6 ++ shamt).signExtend 64 &&& 63 = shamt.setWidth 64 := by
  refine BitVec.eq_of_getLsbD_eq fun j hj => ?_
  have hmask : (63 : Word) = (BitVec.allOnes 6).setWidth 64 := by decide
  rw [BitVec.getLsbD_and, BitVec.getLsbD_signExtend, BitVec.getLsbD_append, BitVec.getLsbD_setWidth,
    hmask, BitVec.getLsbD_setWidth, BitVec.getLsbD_allOnes]
  by_cases hlow : j < 6
  · simp [hj, hlow, show j < 12 by omega]
  · simp [hlow, BitVec.getLsbD_of_ge shamt j (by omega)]

theorem execute_eq (op : ShiftOp) (x : Word) (shamt : BitVec 6) :
    Alu.execute op.aluOp x ((op.funct6 ++ shamt).signExtend 64) = .ok (op.value x shamt, false) := by
  have hamount := op.amount_eq shamt
  have hshamt : (shamt.setWidth 64 : Word).toNat = shamt.toNat :=
    BitVec.toNat_setWidth_of_le (by decide)
  cases op with
  | slli =>
    show Except.ok (x <<< ((funct6 .slli ++ shamt).signExtend 64 &&& 63), false) = _
    rw [hamount, BitVec.shiftLeft_eq', hshamt, value]
  | srli =>
    show Except.ok (x >>> ((funct6 .srli ++ shamt).signExtend 64 &&& 63), false) = _
    rw [hamount, BitVec.ushiftRight_eq', hshamt, value]
  | srai =>
    show Except.ok (x.sshiftRight' ((funct6 .srai ++ shamt).signExtend 64 &&& 63), false) = _
    rw [hamount, BitVec.sshiftRight_eq', hshamt, value]

/-- The control unit takes the operation from bits 31 to 25, one of which is the highest of
the amount. -/
theorem signal_eq (op : ShiftOp) {shamt : BitVec 6} (hshamt : shamt.toNat ≤ 31) :
    ControlUnit.aluSignalI op.funct3 ((op.funct6 ++ shamt).extractLsb' 5 7) = op.aluOp := by
  have hfunct7 : (op.funct6 ++ shamt).extractLsb' 5 7 = op.funct6 ++ (0 : BitVec 1) := by
    apply BitVec.eq_of_toNat_eq
    rw [BitVec.extractLsb'_toNat, append_toNat, append_toNat, Nat.shiftRight_eq_div_pow]
    have hfunct6 := op.funct6.isLt
    simp
    omega
  rw [hfunct7]
  cases op <;> rfl

end ShiftOp

open CodeGenerator

/-- The parser is at a shift by `shamt`, in any of the names that the registers have. -/
structure ShiftStatement (p : Parser) (op : ShiftOp) (rd rs1 : RegIndex) (shamt : BitVec 6) :
    Prop where
  opcode : p.currentToken.value = op.mnemonic
  line : p.lineIs [.GP_REGISTER, .COMMA, .GP_REGISTER, .COMMA, .NUM] = true
  rd : p.register 1 = .ok (gprName rd)
  rs1 : p.register 3 = .ok (gprName rs1)
  immediate : stoll (p.peekToken 5).value = .ok (shamt.toNat : Int)

variable {cfg : ParserConfig} {p : Parser} {op : ShiftOp} {rd rs1 : RegIndex} {shamt : BitVec 6}

/-- The unit of a shift. -/
def shiftUnit (p : Parser) (rd rs1 : RegIndex) (shamt : BitVec 6) : ICUnit :=
  { p.block with rd := gprName rd, rs1 := gprName rs1, imm := toString (shamt.toNat : Int) }

theorem ShiftStatement.parse (h : ShiftStatement p op rd rs1 shamt) :
    Parser.parseStatement cfg p = .ok (
      if shamt.toNat ≤ 31 then p.finish (shiftUnit p rd rs1 shamt)
      else (p.outOfRange (p.peekToken 5) "Expected: 0 <= imm <= 31").skipCurrentLine) := by
  refine parseStatement_single (s := .O_GPR_C_GPR_C_I) ?_ ?_ ?_
  · rw [h.opcode]
    cases op <;> decide
  · rw [h.opcode]
    cases op <;> decide
  · have hopcode : p.block.opcode = op.mnemonic := h.opcode
    have hI : InstructionSet.isValidITypeInstruction op.mnemonic = true := by cases op <;> decide
    have hI2 : InstructionSet.isValidI2TypeInstruction op.mnemonic = true := by cases op <;> decide
    change Parser.parseOGprCGprCI p = _
    rw [Parser.parseOGprCGprCI, if_pos h.line, hopcode, if_pos hI, h.rd, Loop.bind_ok, h.rs1,
      Loop.bind_ok, h.immediate, Loop.bind_ok, if_pos hI2]
    rw [Parser.finishImmediate]
    by_cases hle : shamt.toNat ≤ 31
    · rw [if_pos hle, if_pos (by omega)]
      rfl
    · rw [if_neg hle, if_neg (by omega)]
      rfl

theorem ShiftStatement.machineCode (h : ShiftStatement p op rd rs1 shamt) :
    machineCode (shiftUnit p rd rs1 shamt) = .ok (op.word rd rs1 shamt) := by
  have hopcode : (shiftUnit p rd rs1 shamt).opcode = op.mnemonic := h.opcode
  have hshamt := shamt.isLt
  have himm : CodeGenerator.immediate (shiftUnit p rd rs1 shamt).imm = .ok (shamt.setWidth 32) := by
    have hvalue : BitVec.ofInt 32 (shamt.toNat : Int) = shamt.setWidth 32 := by
      apply BitVec.eq_of_toNat_eq
      simp
    rw [← hvalue]
    exact immediate_toString (by omega) (by omega)
  have hencoding : mapAt InstructionSet.i2TypeInstructionEncodingMap
      (shiftUnit p rd rs1 shamt).opcode =
        .ok { opcode := 0b0010011, funct3 := op.funct3, funct6 := op.funct6 } := by
    rw [hopcode]
    exact op.mnemonic_encoding
  have hcode := generateI2TypeMachineCode_eq hencoding himm (extractRegisterIndex_gprName rd)
    (extractRegisterIndex_gprName rs1)
  rw [CodeGenerator.machineCode, hopcode, op.mnemonic_format]
  exact hcode

/-- A shift that the parser accepts, as a step. -/
theorem Vm.stepsTo_shift (fpu : Fpu) {v : Vm} (hword : v.nextWord = .ok (op.word rd rs1 shamt))
    (hin : v.core.programCounter < v.programSize) (hshamt : shamt.toNat ≤ 31) :
    ∃ v', StepsTo fpu v (v.core.registers.writeGpr rd
      (op.value (v.core.registers.readGpr rs1) shamt)) v.core.memory v' := by
  have halu := op.execute_eq (v.core.registers.readGpr rs1) shamt
  have h := stepsTo_immediate fpu hword hin (op.signal_eq hshamt) halu
  exact h

/-- The statement is accepted and a step on its word is the shift. -/
def ShiftsBy (cfg : ParserConfig) (p : Parser) (op : ShiftOp) (rd rs1 : RegIndex)
    (shamt : BitVec 6) : Prop :=
  ∃ q u w, Parser.parseStatement cfg p = .ok q ∧ q.errors = p.errors ∧
    q.intermediateCode = p.intermediateCode ++ [(u, true)] ∧ machineCode u = .ok w ∧
    ∀ (fpu : Fpu) (v : Vm), v.nextWord = .ok w → v.core.programCounter < v.programSize →
      ∃ v', Vm.StepsTo fpu v (v.core.registers.writeGpr rd
        (op.value (v.core.registers.readGpr rs1) shamt)) v.core.memory v'

theorem shiftsBy_iff (h : ShiftStatement p op rd rs1 shamt) :
    ShiftsBy cfg p op rd rs1 shamt ↔ shamt.toNat ≤ 31 := by
  constructor
  · rintro ⟨q, u, w, hparse, herrors, -⟩
    by_contra hlarge
    rw [h.parse, if_neg hlarge] at hparse
    obtain rfl := Except.ok.inj hparse
    have hcount : p.errors.count + 1 + 1 = p.errors.count := congrArg ErrorTracker.count herrors
    omega
  · intro hshamt
    have hparse : Parser.parseStatement cfg p = _ := h.parse
    rw [if_pos hshamt] at hparse
    exact ⟨_, shiftUnit p rd rs1 shamt, _, hparse, rfl, rfl, h.machineCode,
      fun fpu v hword hin => Vm.stepsTo_shift fpu hword hin hshamt⟩

/-- The line `op x1, x2, amount`. -/
def shiftLine (op amount : String) : Parser :=
  .initial [⟨.OPCODE, op, 1, 1⟩, ⟨.GP_REGISTER, "x1", 1, 6⟩, ⟨.COMMA, ",", 1, 8⟩,
    ⟨.GP_REGISTER, "x2", 1, 10⟩, ⟨.COMMA, ",", 1, 12⟩, ⟨.NUM, amount, 1, 14⟩]

theorem shiftsBy_srai : ShiftsBy .default (shiftLine "srai" "31") .srai 1 2 31 :=
  (shiftsBy_iff ⟨by decide, by decide, by decide, by decide, by decide⟩).mpr (by decide)

/-- `slli x1, x2, 32` is out of range. -/
theorem not_shiftsBy_slli :
    ¬ ∀ (p : Parser) (op : ShiftOp) (rd rs1 : RegIndex) (shamt : BitVec 6),
      ShiftStatement p op rd rs1 shamt → ShiftsBy .default p op rd rs1 shamt := by
  intro hclaim
  have hline : ShiftStatement (shiftLine "slli" "32") .slli 1 2 32 :=
    ⟨by decide, by decide, by decide, by decide, by decide⟩
  obtain ⟨q, u, w, hparse, herrors, -⟩ := hclaim _ _ _ _ _ hline
  rw [hline.parse, if_neg (by decide)] at hparse
  obtain rfl := Except.ok.inj hparse
  have hcount : 2 = 0 := congrArg ErrorTracker.count herrors
  exact absurd hcount (by decide)

end RiscvSim
