import RiscvSim.Isa

/-! Units of the intermediate code that spell an instruction, and their words. -/

namespace RiscvSim

open InstructionSet CodeGenerator

/-- The mnemonic and the operands of a unit are those of an instruction. -/
inductive ICUnit.Spells (u : ICUnit) : Instruction → Prop
  | register (op : RegisterOp) {rd rs1 rs2 : RegIndex} (hop : u.opcode = op.mnemonic)
      (hrd : u.rd = gprName rd) (hrs1 : u.rs1 = gprName rs1) (hrs2 : u.rs2 = gprName rs2) :
      Spells u (.register op rd rs1 rs2)
  | divide (op : QuotientOp) {rd rs1 rs2 : RegIndex} (hop : u.opcode = op.mnemonic)
      (hrd : u.rd = gprName rd) (hrs1 : u.rs1 = gprName rs1) (hrs2 : u.rs2 = gprName rs2) :
      Spells u (.divide op rd rs1 rs2)
  | immediate (op : ImmediateOp) {rd rs1 : RegIndex} {n : Int} (hop : u.opcode = op.mnemonic)
      (hrd : u.rd = gprName rd) (hrs1 : u.rs1 = gprName rs1) (himm : u.imm = toString n)
      (hlow : -2048 ≤ n) (hhigh : n ≤ 2047) : Spells u (.immediate op rd rs1 (BitVec.ofInt 12 n))
  | shift (op : ShiftOp) {rd rs1 : RegIndex} {n : Int} (hop : u.opcode = op.mnemonic)
      (hrd : u.rd = gprName rd) (hrs1 : u.rs1 = gprName rs1) (himm : u.imm = toString n)
      (hlow : 0 ≤ n) (hhigh : n ≤ 63) : Spells u (.shift op rd rs1 (BitVec.ofInt 6 n))
  | upper (op : UpperOp) {rd : RegIndex} {n : Int} (hop : u.opcode = op.mnemonic)
      (hrd : u.rd = gprName rd) (himm : u.imm = toString n) (hlow : -2147483648 ≤ n)
      (hhigh : n ≤ 2147483647) : Spells u (.upper op rd (BitVec.ofInt 20 n))
  | load (op : LoadOp) {rd rs1 : RegIndex} {n : Int} (hop : u.opcode = op.mnemonic)
      (hrd : u.rd = gprName rd) (hrs1 : u.rs1 = gprName rs1) (himm : u.imm = toString n)
      (hlow : -2048 ≤ n) (hhigh : n ≤ 2047) : Spells u (.load op rd rs1 (BitVec.ofInt 12 n))
  | store (op : StoreOp) {rs2 rs1 : RegIndex} {n : Int} (hop : u.opcode = op.mnemonic)
      (hrs2 : u.rs2 = gprName rs2) (hrs1 : u.rs1 = gprName rs1) (himm : u.imm = toString n)
      (hlow : -2048 ≤ n) (hhigh : n ≤ 2047) : Spells u (.store op rs2 rs1 (BitVec.ofInt 12 n))
  | branch (op : BranchOp) {rs1 rs2 : RegIndex} {n : Int} (hop : u.opcode = op.mnemonic)
      (hrs1 : u.rs1 = gprName rs1) (hrs2 : u.rs2 = gprName rs2) (himm : u.imm = toString n)
      (hlow : -4096 ≤ n) (hhigh : n ≤ 4095) : Spells u (.branch op rs1 rs2 (BitVec.ofInt 12 (n / 2)))
  | jal {rd : RegIndex} {n : Int} (hop : u.opcode = "jal") (hrd : u.rd = gprName rd)
      (himm : u.imm = toString n) (hlow : -1048576 ≤ n) (hhigh : n ≤ 1048575) :
      Spells u (.jal rd (BitVec.ofInt 20 (n / 2)))
  | jalr {rd rs1 : RegIndex} {n : Int} (hop : u.opcode = "jalr") (hrd : u.rd = gprName rd)
      (hrs1 : u.rs1 = gprName rs1) (himm : u.imm = toString n) (hlow : -2048 ≤ n)
      (hhigh : n ≤ 2047) : Spells u (.jalr rd rs1 (BitVec.ofInt 12 n))

theorem RegisterOp.encoding (op : RegisterOp) : formatOf op.mnemonic = some .R ∧
    mapAt rTypeInstructionEncodingMap op.mnemonic =
      .ok { opcode := 0b0110011#7, funct3 := op.funct3, funct7 := op.funct7 } := by
  cases op <;> decide

theorem QuotientOp.encoding (op : QuotientOp) : formatOf op.mnemonic = some .R ∧
    mapAt rTypeInstructionEncodingMap op.mnemonic =
      .ok { opcode := 0b0110011#7, funct3 := op.funct3, funct7 := 0b0000001#7 } := by
  cases op <;> decide

theorem ImmediateOp.encoding (op : ImmediateOp) : formatOf op.mnemonic = some .I1 ∧
    mapAt i1TypeInstructionEncodingMap op.mnemonic =
      .ok { opcode := 0b0010011#7, funct3 := op.funct3 } := by
  cases op <;> decide

theorem LoadOp.encoding (op : LoadOp) : formatOf op.mnemonic = some .I1 ∧
    mapAt i1TypeInstructionEncodingMap op.mnemonic =
      .ok { opcode := 0b0000011#7, funct3 := op.funct3 } := by
  cases op <;> decide

theorem StoreOp.encoding (op : StoreOp) : formatOf op.mnemonic = some .S ∧
    mapAt sTypeInstructionEncodingMap op.mnemonic =
      .ok { opcode := 0b0100011#7, funct3 := op.funct3 } := by
  cases op <;> decide

theorem BranchOp.encoding (op : BranchOp) : formatOf op.mnemonic = some .B ∧
    mapAt bTypeInstructionEncodingMap op.mnemonic =
      .ok { opcode := 0b1100011#7, funct3 := op.funct3 } := by
  cases op <;> decide

theorem UpperOp.encoding (op : UpperOp) : formatOf op.mnemonic = some .U ∧
    mapAt uTypeInstructionEncodingMap op.mnemonic = .ok { opcode := op.opcode } := by
  cases op <;> decide

theorem jal_encoding : formatOf "jal" = some .J ∧
    mapAt jTypeInstructionEncodingMap "jal" = .ok { opcode := 0b1101111#7 } := by
  decide

theorem jalr_encoding : formatOf "jalr" = some .I1 ∧
    mapAt i1TypeInstructionEncodingMap "jalr" = .ok { opcode := 0b1100111#7, funct3 := 0b000#3 } := by
  decide

namespace ICUnit

variable {u : ICUnit} {m : String} {e : Encoding} {rd rs1 rs2 : RegIndex} {n : Int}

theorem index_of_name {name : String} {r : RegIndex} (h : name = gprName r) :
    extractRegisterIndex name = .ok (r.setWidth 32) := by
  rw [h]
  exact extractRegisterIndex_gprName r

theorem immediate_of_text (himm : u.imm = toString n) (hlow : -2147483648 ≤ n)
    (hhigh : n ≤ 2147483647) : immediate u.imm = .ok (BitVec.ofInt 32 n) := by
  rw [himm]
  exact immediate_toString hlow hhigh

theorem machineCode_r (hop : u.opcode = m)
    (hm : formatOf m = some .R ∧ mapAt rTypeInstructionEncodingMap m = .ok e) (hrd : u.rd = gprName rd)
    (hrs1 : u.rs1 = gprName rs1) (hrs2 : u.rs2 = gprName rs2) :
    machineCode u = .ok (Instr.rType e.funct7 rs2 rs1 e.funct3 rd e.opcode) := by
  obtain ⟨hformat, he⟩ := hop ▸ hm
  rw [machineCode, hformat]
  show encodeRegisters u rTypeInstructionEncodingMap = _
  simp only [encodeRegisters, he, index_of_name hrd, index_of_name hrs1, index_of_name hrs2,
    Loop.bind_ok, pack_rType]
  rfl

theorem machineCode_i (hop : u.opcode = m)
    (hm : formatOf m = some .I1 ∧ mapAt i1TypeInstructionEncodingMap m = .ok e) (hrd : u.rd = gprName rd)
    (hrs1 : u.rs1 = gprName rs1) (himm : u.imm = toString n) (hlow : -2048 ≤ n) (hhigh : n ≤ 2047) :
    machineCode u = .ok (Instr.iType (BitVec.ofInt 12 n) rs1 e.funct3 rd e.opcode) := by
  obtain ⟨hformat, he⟩ := hop ▸ hm
  rw [machineCode, hformat]
  exact encodeImmediate_eq he (immediate_of_text himm (by omega) (by omega)) (index_of_name hrd)
    (index_of_name hrs1)

theorem machineCode_s (hop : u.opcode = m)
    (hm : formatOf m = some .S ∧ mapAt sTypeInstructionEncodingMap m = .ok e) (hrs2 : u.rs2 = gprName rs2)
    (hrs1 : u.rs1 = gprName rs1) (himm : u.imm = toString n) (hlow : -2048 ≤ n) (hhigh : n ≤ 2047) :
    machineCode u = .ok (Instr.sType (BitVec.ofInt 12 n) rs2 rs1 e.funct3 e.opcode) := by
  obtain ⟨hformat, he⟩ := hop ▸ hm
  obtain ⟨w, hw, hword⟩ := encodeStore_toNat (by omega) (by omega) he himm (index_of_name hrs1)
    (index_of_name hrs2)
  rw [machineCode, hformat]
  refine Eq.trans hw (congrArg Except.ok (BitVec.eq_of_toNat_eq ?_))
  rw [hword, Instr.sType_toNat, BitVec.toNat_ofInt]
  omega

/-- The word of a unit that spells an instruction is the word of the instruction. -/
theorem Spells.word {i : Instruction} (h : u.Spells i) : machineCode u = .ok i.word := by
  cases h with
  | register op hop hrd hrs1 hrs2 => exact (machineCode_r hop op.encoding hrd hrs1 hrs2 :)
  | divide op hop hrd hrs1 hrs2 => exact (machineCode_r hop op.encoding hrd hrs1 hrs2 :)
  | immediate op hop hrd hrs1 himm hlow hhigh =>
    exact (machineCode_i hop op.encoding hrd hrs1 himm hlow hhigh :)
  | shift op hop hrd hrs1 himm hlow hhigh =>
    rename_i n
    have hvalue : BitVec.ofInt 32 n = (BitVec.ofInt 6 n).setWidth 32 := by
      apply BitVec.eq_of_toNat_eq
      rw [setWidth_toNat _ (by decide), BitVec.toNat_ofInt, BitVec.toNat_ofInt]
      omega
    have hformat := (congrArg formatOf hop).trans op.mnemonic_format
    have he := (congrArg (mapAt i2TypeInstructionEncodingMap) hop).trans op.mnemonic_encoding
    have himm' := (immediate_of_text himm (by omega) (by omega)).trans (congrArg Except.ok hvalue)
    rw [machineCode, hformat]
    exact (generateI2TypeMachineCode_eq he himm' (index_of_name hrd) (index_of_name hrs1) :)
  | upper op hop hrd himm hlow hhigh =>
    have hformat := (congrArg formatOf hop).trans op.encoding.1
    have he := (congrArg (mapAt uTypeInstructionEncodingMap) hop).trans op.encoding.2
    rw [machineCode, hformat]
    exact (generateUTypeMachineCode_eq he (immediate_of_text himm hlow hhigh) (index_of_name hrd) :)
  | load op hop hrd hrs1 himm hlow hhigh =>
    exact (machineCode_i hop op.encoding hrd hrs1 himm hlow hhigh :)
  | store op hop hrs2 hrs1 himm hlow hhigh =>
    exact (machineCode_s hop op.encoding hrs2 hrs1 himm hlow hhigh :)
  | branch op hop hrs1 hrs2 himm hlow hhigh =>
    have hformat := (congrArg formatOf hop).trans op.encoding.1
    have he := (congrArg (mapAt bTypeInstructionEncodingMap) hop).trans op.encoding.2
    have himm' := immediate_of_text himm (by omega) (by omega)
    rw [machineCode, hformat]
    exact (generateBTypeMachineCode_eq hlow hhigh he himm' (index_of_name hrs1) (index_of_name hrs2) :)
  | jal hop hrd himm hlow hhigh =>
    have hformat := (congrArg formatOf hop).trans jal_encoding.1
    have he := (congrArg (mapAt jTypeInstructionEncodingMap) hop).trans jal_encoding.2
    have himm' := immediate_of_text himm (by omega) (by omega)
    rw [machineCode, hformat]
    exact (generateJTypeMachineCode_eq he himm' (index_of_name hrd) :)
  | jalr hop hrd hrs1 himm hlow hhigh =>
    exact (machineCode_i hop jalr_encoding hrd hrs1 himm hlow hhigh :)

end ICUnit

end RiscvSim
