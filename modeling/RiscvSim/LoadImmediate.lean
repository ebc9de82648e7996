import RiscvSim.CustomDecode
import RiscvSim.WordSteps

/-! `li`: the split of a constant into the immediates of LUI and ADDI, and what the two
instructions leave in the register. -/

namespace RiscvSim

open CodeGenerator

theorem signExtend_ofInt {n : Nat} (x : Int) :
    (BitVec.ofInt n x).signExtend 64 = BitVec.ofInt 64 (x.bmod (2 ^ n)) := by
  rw [BitVec.signExtend, BitVec.toInt_ofInt]

theorem bmod_self {x : Int} {n : Nat} (hlow : -(n : Int) ≤ 2 * x) (hhigh : 2 * x < n) :
    x.bmod n = x := by
  rw [Int.bmod_eq_of_le_mul_two (by omega) (by omega)]

/-- The value of a LUI with the immediate `upper`. -/
theorem upperWord_ofInt (upper : Int) :
    Vm.upperWord (BitVec.ofInt 20 upper) = BitVec.ofInt 64 ((upper * 4096).bmod (2 ^ 32)) := by
  have hshift : (BitVec.ofInt 20 upper).setWidth 32 <<< 12 = BitVec.ofInt 32 (upper * 4096) := by
    apply BitVec.eq_of_toNat_eq
    rw [BitVec.toNat_shiftLeft, BitVec.toNat_setWidth_of_le (by decide), BitVec.toNat_ofInt,
      BitVec.toNat_ofInt, Nat.shiftLeft_eq]
    omega
  rw [Vm.upperWord, hshift, signExtend_ofInt]

/-- A text that `std::stoll` reads as a small number is the same number to `std::stoi`. -/
theorem immediate_of_stoll {s : String} {n : Int} (h : stoll s = .ok n) (hlow : -2147483648 ≤ n)
    (hhigh : n ≤ 2147483647) : immediate s = .ok (BitVec.ofInt 32 n) := by
  cases hvalue : Decimal.value s with
  | none =>
    rw [stoll, stoRange, hvalue] at h
    cases h
  | some m =>
    simp only [stoll, stoRange, hvalue] at h
    by_cases hrange : -9223372036854775808 ≤ m ∧ m ≤ 9223372036854775807
    · rw [if_pos hrange] at h
      obtain rfl := Except.ok.inj h
      simp only [immediate, stoi, stoRange, hvalue]
      rw [if_pos ⟨hlow, hhigh⟩]
      rfl
    · rw [if_neg hrange] at h
      cases h

section

variable {block : ICUnit} {rd rs1 : RegIndex} {n : Int}

theorem machineCode_i1 {e : InstructionSet.Encoding} (hformat : formatOf block.opcode = some .I1)
    (hencoding : mapAt InstructionSet.i1TypeInstructionEncodingMap block.opcode = .ok e)
    (himm : immediate block.imm = .ok (BitVec.ofInt 32 n)) (hrd : block.rd = gprName rd)
    (hrs1 : block.rs1 = gprName rs1) :
    machineCode block = .ok (Instr.iType (BitVec.ofInt 12 n) rs1 e.funct3 rd e.opcode) := by
  have hcode := encodeImmediate_eq hencoding himm (hrd ▸ extractRegisterIndex_gprName rd)
    (hrs1 ▸ extractRegisterIndex_gprName rs1)
  rw [machineCode, hformat]
  exact hcode

theorem machineCode_addi (hop : block.opcode = "addi")
    (himm : immediate block.imm = .ok (BitVec.ofInt 32 n)) (hrd : block.rd = gprName rd)
    (hrs1 : block.rs1 = gprName rs1) :
    machineCode block = .ok (Instr.iType (BitVec.ofInt 12 n) rs1 0b000#3 rd 0b0010011#7) := by
  refine machineCode_i1 (e := { opcode := 0b0010011, funct3 := 0b000 }) ?_ ?_ himm hrd hrs1
  · rw [hop]
    decide
  · rw [hop]
    decide

theorem machineCode_u {e : InstructionSet.Encoding} (hformat : formatOf block.opcode = some .U)
    (hencoding : mapAt InstructionSet.uTypeInstructionEncodingMap block.opcode = .ok e)
    (himm : immediate block.imm = .ok (BitVec.ofInt 32 n)) (hrd : block.rd = gprName rd) :
    machineCode block = .ok (Instr.uType (BitVec.ofInt 20 n) rd e.opcode) := by
  have hcode := generateUTypeMachineCode_eq hencoding himm (hrd ▸ extractRegisterIndex_gprName rd)
  rw [machineCode, hformat]
  exact hcode

end

/-- The parser is at `li rd, imm`, in any of the names that the registers have. -/
structure LiStatement (p : Parser) (rd : RegIndex) (imm : Int) : Prop where
  opcode : p.currentToken.value = "li"
  line : p.lineIs [.GP_REGISTER, .COMMA, .NUM] = true
  rd : p.register 1 = .ok (gprName rd)
  immediate : stoll (p.peekToken 3).value = .ok imm
  low : -2147483648 ≤ imm
  high : imm ≤ 2147483647

/-- The immediate of the LUI. -/
def liUpper (imm : Int) : Int := (imm + 2048) >>> (12 : Nat)

/-- The words of a constant. -/
def liWords (rd : RegIndex) (imm : Int) : List Instr :=
  let upper := liUpper imm
  let lower := imm - upper * 4096
  if -2048 ≤ imm ∧ imm ≤ 2047 then [Instr.iType (BitVec.ofInt 12 imm) 0 0b000#3 rd 0b0010011#7]
  else if lower ≠ 0 then
    [Instr.uType (BitVec.ofInt 20 upper) rd 0b0110111#7,
      Instr.iType (BitVec.ofInt 12 lower) rd 0b000#3 rd 0b0010011#7]
  else [Instr.uType (BitVec.ofInt 20 upper) rd 0b0110111#7]

/-- What the words leave in the register. -/
def liValue (imm : Int) : Word :=
  BitVec.ofInt 64 (if imm < 2147481600 then imm else imm - 4294967296)

variable {cfg : ParserConfig} {p : Parser} {rd : RegIndex} {imm : Int}

theorem liUpper_eq (imm : Int) : liUpper imm = (imm + 2048) / 4096 := by
  rw [liUpper, Int.shiftRight_eq_div_pow]
  rfl

/-- The parser accepts its statement and emits units of the words `ws`. -/
def Emits (cfg : ParserConfig) (p : Parser) (ws : List Instr) : Prop :=
  ∃ q us, Parser.parseStatement cfg p = .ok q ∧ q.errors = p.errors ∧
    q.intermediateCode = p.intermediateCode ++ us ∧ generateMachineCode us = .ok ws

/-- The unit of the ADDI of a constant. -/
def liAddi (p : Parser) (rd : RegIndex) (rs1 : String) (index : Nat) (imm : String) : ICUnit :=
  { p.block with opcode := "addi", instructionIndex := index, rd := gprName rd, rs1, imm }

/-- The unit of the LUI of a constant. -/
def liLui (p : Parser) (rd : RegIndex) (imm : Int) : ICUnit :=
  { p.block with opcode := "lui", rd := gprName rd, imm := toString (liUpper imm) }

theorem LiStatement.emits_of_units (h : LiStatement p rd imm) {q : Parser}
    {us : List (ICUnit × Bool)} {ws : List Instr} (hq : Parser.parseLi p = .ok (some q))
    (herrors : q.errors = p.errors) (hcode : q.intermediateCode = p.intermediateCode ++ us)
    (hwords : generateMachineCode us = .ok ws) : Emits cfg p ws := by
  refine ⟨q, us, parseStatement_single (s := .PSEUDO) ?_ ?_ ?_, herrors, hcode, hwords⟩
  · rw [h.opcode]
    decide
  · rw [h.opcode]
    decide
  · show Parser.parsePseudo cfg p = _
    rw [Parser.parsePseudo, h.opcode]
    exact hq

theorem LiStatement.emits (h : LiStatement p rd imm) : Emits cfg p (liWords rd imm) := by
  have hlow := h.low
  have hhigh := h.high
  have hupper := liUpper_eq imm
  have hlui : machineCode (liLui p rd imm) =
      .ok (Instr.uType (BitVec.ofInt 20 (liUpper imm)) rd 0b0110111#7) :=
    machineCode_u (e := { opcode := 0b0110111 }) (show formatOf "lui" = _ by decide)
      (show mapAt _ "lui" = _ by decide) (immediate_toString (by omega) (by omega)) rfl
  rw [liWords]
  by_cases hsmall : -2048 ≤ imm ∧ imm ≤ 2047
  · have hq : Parser.parseLi p = .ok (some
        (p.emit (liAddi p rd "x0" p.instructionIndex (p.peekToken 3).value) true).skipCurrentLine) := by
      rw [Parser.parseLi, if_pos h.line, h.immediate, Loop.bind_ok, h.rd, Loop.bind_ok, if_pos hsmall]
      rfl
    have haddi : machineCode (liAddi p rd "x0" p.instructionIndex (p.peekToken 3).value) = _ :=
      machineCode_addi rfl (immediate_of_stoll h.immediate hlow hhigh) rfl (show "x0" = gprName 0 by decide)
    refine h.emits_of_units hq rfl rfl ?_
    simp only [generateMachineCode, List.mapM_cons, List.mapM_nil, haddi, if_pos hsmall]
    rfl
  · by_cases hlower : imm - liUpper imm * 4096 ≠ 0
    · have hq : Parser.parseLi p = .ok (some
          ((p.emit (liLui p rd imm) true).emit (liAddi p rd (gprName rd) (p.instructionIndex + 1)
            (toString (imm - liUpper imm * 4096))) true).skipCurrentLine) := by
        rw [Parser.parseLi, if_pos h.line, h.immediate, Loop.bind_ok, h.rd, Loop.bind_ok, if_neg hsmall,
          if_pos ⟨hlow, hhigh⟩]
        exact if_pos hlower
      have haddi : machineCode (liAddi p rd (gprName rd) (p.instructionIndex + 1)
          (toString (imm - liUpper imm * 4096))) = _ :=
        machineCode_addi rfl (immediate_toString (by omega) (by omega)) rfl (show gprName rd = _ from rfl)
      refine h.emits_of_units hq rfl (List.append_assoc ..) ?_
      simp only [generateMachineCode, List.mapM_cons, List.mapM_nil, List.cons_append, List.nil_append,
        hlui, haddi, if_neg hsmall, if_pos hlower]
      rfl
    · have hq : Parser.parseLi p = .ok (some (p.emit (liLui p rd imm) true).skipCurrentLine) := by
        rw [Parser.parseLi, if_pos h.line, h.immediate, Loop.bind_ok, h.rd, Loop.bind_ok, if_neg hsmall,
          if_pos ⟨hlow, hhigh⟩]
        exact if_neg hlower
      refine h.emits_of_units hq rfl rfl ?_
      simp only [generateMachineCode, List.mapM_cons, List.mapM_nil, hlui, if_neg hsmall, if_neg hlower]
      rfl

theorem upper_eq (hlow : -2147483648 ≤ imm) (hhigh : imm ≤ 2147483647) :
    (liUpper imm * 4096).bmod (2 ^ 32) =
      if imm < 2147481600 then liUpper imm * 4096 else liUpper imm * 4096 - 4294967296 := by
  have hupper := liUpper_eq imm
  by_cases hsmall : imm < 2147481600
  · rw [if_pos hsmall]
    exact bmod_self (by omega) (by omega)
  · have hlast : liUpper imm = 524288 := by omega
    rw [if_neg hsmall, hlast]
    decide

/-- The sum of the two parts. -/
theorem liValue_eq (hlow : -2147483648 ≤ imm) (hhigh : imm ≤ 2147483647) :
    Vm.upperWord (BitVec.ofInt 20 (liUpper imm)) +
      (BitVec.ofInt 12 (imm - liUpper imm * 4096)).signExtend 64 = liValue imm := by
  have hupper := liUpper_eq imm
  have hlower : (imm - liUpper imm * 4096).bmod (2 ^ 12) = imm - liUpper imm * 4096 :=
    bmod_self (by omega) (by omega)
  rw [upperWord_ofInt, signExtend_ofInt, hlower, ← BitVec.ofInt_add, upper_eq hlow hhigh, liValue]
  congr 1
  by_cases hsmall : imm < 2147481600
  · rw [if_pos hsmall, if_pos hsmall]
    omega
  · rw [if_neg hsmall, if_neg hsmall]
    omega

/-- The steps on the words set the register `rd` to `x` and change nothing else. -/
def SetsRegister (fpu : Fpu) (v : Vm) (n : Nat) (rd : RegIndex) (x : Word) : Prop :=
  ∃ v', Loop.iter (Vm.step fpu) n v = .ok v' ∧
    v'.core.registers = v.core.registers.writeGpr rd x ∧ v'.core.memory = v.core.memory

theorem SetsRegister.of_step {fpu : Fpu} {v v' : Vm} {x : Word}
    (h : Vm.StepsTo fpu v (v.core.registers.writeGpr rd x) v.core.memory v') :
    SetsRegister fpu v 1 rd x := by
  refine ⟨v', ?_, h.registers, h.memory⟩
  rw [Loop.iter_succ, h.step]
  rfl

theorem setsRegister_liWords (fpu : Fpu) {v : Vm} (hlow : -2147483648 ≤ imm)
    (hhigh : imm ≤ 2147483647) (hrd : rd ≠ 0)
    (hplaced : v.Placed v.core.programCounter (liWords rd imm)) :
    SetsRegister fpu v (liWords rd imm).length rd (liValue imm) := by
  have hupper := liUpper_eq imm
  have hvalue := liValue_eq hlow hhigh
  rw [liWords] at hplaced ⊢
  by_cases hsmall : -2048 ≤ imm ∧ imm ≤ 2047
  · simp only [if_pos hsmall] at hplaced ⊢
    obtain ⟨hword, hin, -⟩ := hplaced
    obtain ⟨v', h⟩ := Vm.stepsTo_addi fpu hword hin
    have himm : v.core.registers.readGpr 0 + (BitVec.ofInt 12 imm).signExtend 64 = liValue imm := by
      rw [RegisterFile.readGpr_zero, signExtend_ofInt, bmod_self (by omega) (by omega), liValue,
        if_pos (by omega)]
      exact BitVec.zero_add _
    rw [himm] at h
    exact .of_step h
  · simp only [if_neg hsmall] at hplaced ⊢
    by_cases hlower : imm - liUpper imm * 4096 ≠ 0
    · simp only [if_pos hlower] at hplaced ⊢
      obtain ⟨v₁, h₁⟩ := Vm.stepsTo_lui fpu hplaced.1 hplaced.2.1
      obtain ⟨hword, hin, -⟩ := hplaced.next h₁
      obtain ⟨v₂, h₂⟩ := Vm.stepsTo_addi fpu hword hin
      refine ⟨v₂, ?_, ?_, h₂.memory.trans h₁.memory⟩
      · show Loop.iter (Vm.step fpu) 2 v = _
        rw [Loop.iter_succ, h₁.step, Loop.bind_ok, Loop.iter_succ, h₂.step]
        rfl
      · rw [h₂.registers, h₁.registers, RegisterFile.readGpr_writeGpr, if_pos ⟨rfl, hrd⟩, hvalue,
          RegisterFile.writeGpr_writeGpr]
    · simp only [if_neg hlower] at hplaced ⊢
      obtain ⟨v', h⟩ := Vm.stepsTo_lui fpu hplaced.1 hplaced.2.1
      have hzero : imm - liUpper imm * 4096 = 0 := by omega
      rw [hzero, signExtend_ofInt] at hvalue
      have hupperWord : Vm.upperWord (BitVec.ofInt 20 (liUpper imm)) = liValue imm := by
        rw [← hvalue]
        exact (BitVec.add_zero _).symm
      rw [hupperWord] at h
      exact .of_step h

/-- The statement is accepted, its words are at most two, and executed from any state they
leave the constant in `rd`. -/
def LoadsImmediate (cfg : ParserConfig) (p : Parser) (rd : RegIndex) (imm : Int) : Prop :=
  ∃ ws, Emits cfg p ws ∧ ws.length ≤ 2 ∧ ∀ (fpu : Fpu) (v : Vm),
    v.Placed v.core.programCounter ws → SetsRegister fpu v ws.length rd (BitVec.ofInt 64 imm)

theorem Emits.unique {ws us : List Instr} (h : Emits cfg p ws) (h' : Emits cfg p us) : ws = us := by
  obtain ⟨q, cs, hparse, -, hcode, hwords⟩ := h
  obtain ⟨q', cs', hparse', -, hcode', hwords'⟩ := h'
  obtain rfl : q = q' := Except.ok.inj (hparse.symm.trans hparse')
  obtain rfl : cs = cs' := List.append_cancel_left (hcode.symm.trans hcode')
  exact Except.ok.inj (hwords.symm.trans hwords')

theorem SetsRegister.unique {fpu : Fpu} {v : Vm} {n : Nat} {x y : Word} (hrd : rd ≠ 0)
    (h : SetsRegister fpu v n rd x) (h' : SetsRegister fpu v n rd y) : x = y := by
  obtain ⟨v', hrun, hregisters, -⟩ := h
  obtain ⟨v'', hrun', hregisters', -⟩ := h'
  obtain rfl : v' = v'' := Except.ok.inj (hrun.symm.trans hrun')
  have hread := congrArg (RegisterFile.readGpr · rd) (hregisters.symm.trans hregisters')
  simpa only [RegisterFile.readGpr_writeGpr, true_and, if_pos hrd] using hread

theorem liWords_length (rd : RegIndex) (imm : Int) : (liWords rd imm).length ≤ 2 := by
  rw [liWords]
  split
  · simp
  · split <;> simp

theorem loadsImmediate_iff (h : LiStatement p rd imm) (hrd : rd ≠ 0) :
    LoadsImmediate cfg p rd imm ↔ imm < 2147481600 := by
  have hemits : Emits cfg p (liWords rd imm) := h.emits
  have hlow := h.low
  have hhigh := h.high
  constructor
  · rintro ⟨ws, hws, -, hsets⟩
    obtain rfl := hemits.unique hws
    have hplaced := Vm.holding_placed (liWords rd imm) .reset
      ((liWords_length rd imm).trans (by decide))
    have hvalue := (hsets .zero _ hplaced).unique hrd
      (setsRegister_liWords .zero hlow hhigh hrd hplaced)
    by_contra hlarge
    rw [liValue, if_neg hlarge] at hvalue
    have hint := congrArg BitVec.toInt hvalue
    rw [BitVec.toInt_ofInt, BitVec.toInt_ofInt, bmod_self (by omega) (by omega),
      bmod_self (by omega) (by omega)] at hint
    omega
  · intro hsmall
    refine ⟨liWords rd imm, hemits, liWords_length rd imm, fun fpu v hplaced => ?_⟩
    have hsets := setsRegister_liWords fpu hlow hhigh hrd hplaced
    rwa [liValue, if_pos hsmall] at hsets

/-- The line `li x1, imm`. -/
def liLine (imm : String) : Parser :=
  .initial [⟨.OPCODE, "li", 1, 1⟩, ⟨.GP_REGISTER, "x1", 1, 4⟩, ⟨.COMMA, ",", 1, 6⟩,
    ⟨.NUM, imm, 1, 8⟩]

theorem loadsImmediate_2147481599 : LoadsImmediate .default (liLine "2147481599") 1 2147481599 :=
  (loadsImmediate_iff ⟨by decide, by decide, by decide, by decide, by decide, by decide⟩
    (by decide)).mpr (by decide)

/-- `li x1, 2147483647` loads -2147483649. -/
theorem not_loadsImmediate_max :
    ¬ ∀ (p : Parser) (rd : RegIndex) (imm : Int), LiStatement p rd imm → rd ≠ 0 →
      LoadsImmediate .default p rd imm := by
  intro hclaim
  have hline : LiStatement (liLine "2147483647") 1 2147483647 :=
    ⟨by decide, by decide, by decide, by decide, by decide, by decide⟩
  obtain ⟨ws, hws, -, hsets⟩ := hclaim _ _ _ hline (by decide)
  have hemits : Emits .default (liLine "2147483647") _ := hline.emits
  obtain rfl := hemits.unique hws
  have hplaced := Vm.holding_placed (liWords 1 2147483647) .reset
    ((liWords_length 1 2147483647).trans (by decide))
  have hvalue := (hsets .zero _ hplaced).unique (by decide)
    (setsRegister_liWords .zero hline.low hline.high (by decide) hplaced)
  exact absurd hvalue (by decide)

end RiscvSim
