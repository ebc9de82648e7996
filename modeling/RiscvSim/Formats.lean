import RiscvSim.Encoding
import RiscvSim.Instructions

/-! The instruction formats as their fields side by side, between the encoders and the
decoder. -/

namespace RiscvSim

theorem append_toNat {m n : Nat} (x : BitVec m) (y : BitVec n) :
    (x ++ y).toNat = x.toNat * 2 ^ n + y.toNat := by
  rw [BitVec.toNat_append, ← Nat.shiftLeft_add_eq_or_of_lt y.isLt, Nat.shiftLeft_eq]

namespace Instr

/-- An immediate, a source and a destination. -/
def iType (imm : BitVec 12) (rs1 : BitVec 5) (funct3 : BitVec 3) (rd : BitVec 5)
    (opcode : BitVec 7) : Instr :=
  imm ++ rs1 ++ funct3 ++ rd ++ opcode

/-- Two sources and an immediate in two parts. -/
def sType (imm : BitVec 12) (rs2 rs1 : BitVec 5) (funct3 : BitVec 3) (opcode : BitVec 7) : Instr :=
  imm.extractLsb' 5 7 ++ rs2 ++ rs1 ++ funct3 ++ imm.extractLsb' 0 5 ++ opcode

/-- A destination and the upper part of an immediate. -/
def uType (imm : BitVec 20) (rd : BitVec 5) (opcode : BitVec 7) : Instr := imm ++ rd ++ opcode

variable (imm : BitVec 12) (upper : BitVec 20) (rs2 rs1 rd : BitVec 5) (funct3 : BitVec 3)
  (op : BitVec 7)

theorem iType_toNat : (iType imm rs1 funct3 rd op).toNat =
    imm.toNat * 2 ^ 20 + rs1.toNat * 2 ^ 15 + funct3.toNat * 2 ^ 12 + rd.toNat * 2 ^ 7 +
      op.toNat := by
  simp only [iType, append_toNat]
  omega

theorem sType_toNat : (sType imm rs2 rs1 funct3 op).toNat =
    imm.toNat / 2 ^ 5 * 2 ^ 25 + rs2.toNat * 2 ^ 20 + rs1.toNat * 2 ^ 15 +
      funct3.toNat * 2 ^ 12 + imm.toNat % 2 ^ 5 * 2 ^ 7 + op.toNat := by
  have himm := imm.isLt
  simp only [sType, append_toNat, BitVec.extractLsb'_toNat, Nat.shiftRight_eq_div_pow]
  omega

theorem uType_toNat :
    (uType upper rd op).toNat = upper.toNat * 2 ^ 12 + rd.toNat * 2 ^ 7 + op.toNat := by
  simp only [uType, append_toNat]
  omega

@[simp] theorem iType_opcode : (iType imm rs1 funct3 rd op).opcode = op := by
  apply BitVec.eq_of_toNat_eq
  rw [opcode, field_toNat, iType_toNat]
  omega

@[simp] theorem iType_rd : (iType imm rs1 funct3 rd op).rd = rd := by
  apply BitVec.eq_of_toNat_eq
  rw [Instr.rd, field_toNat, iType_toNat]
  omega

@[simp] theorem iType_funct3 : (iType imm rs1 funct3 rd op).funct3 = funct3 := by
  apply BitVec.eq_of_toNat_eq
  rw [Instr.funct3, field_toNat, iType_toNat]
  omega

@[simp] theorem iType_rs1 : (iType imm rs1 funct3 rd op).rs1 = rs1 := by
  apply BitVec.eq_of_toNat_eq
  rw [Instr.rs1, field_toNat, iType_toNat]
  omega

theorem iType_imm : field (iType imm rs1 funct3 rd op) 20 12 = imm := by
  apply BitVec.eq_of_toNat_eq
  rw [field_toNat, iType_toNat]
  omega

theorem iType_funct7 : (iType imm rs1 funct3 rd op).funct7 = imm.extractLsb' 5 7 := by
  apply BitVec.eq_of_toNat_eq
  rw [funct7, field_toNat, iType_toNat, BitVec.extractLsb'_toNat, Nat.shiftRight_eq_div_pow]
  omega

@[simp] theorem sType_opcode : (sType imm rs2 rs1 funct3 op).opcode = op := by
  apply BitVec.eq_of_toNat_eq
  rw [opcode, field_toNat, sType_toNat]
  omega

@[simp] theorem sType_funct3 : (sType imm rs2 rs1 funct3 op).funct3 = funct3 := by
  apply BitVec.eq_of_toNat_eq
  rw [Instr.funct3, field_toNat, sType_toNat]
  omega

@[simp] theorem sType_rs1 : (sType imm rs2 rs1 funct3 op).rs1 = rs1 := by
  apply BitVec.eq_of_toNat_eq
  rw [Instr.rs1, field_toNat, sType_toNat]
  omega

@[simp] theorem sType_rs2 : (sType imm rs2 rs1 funct3 op).rs2 = rs2 := by
  apply BitVec.eq_of_toNat_eq
  rw [Instr.rs2, field_toNat, sType_toNat]
  have hlow : imm.toNat % 2 ^ 5 < 2 ^ 5 := Nat.mod_lt _ (by decide)
  generalize imm.toNat % 2 ^ 5 = low at hlow
  generalize imm.toNat / 2 ^ 5 = high
  omega

@[simp] theorem uType_opcode : (uType upper rd op).opcode = op := by
  apply BitVec.eq_of_toNat_eq
  rw [opcode, field_toNat, uType_toNat]
  omega

@[simp] theorem uType_rd : (uType upper rd op).rd = rd := by
  apply BitVec.eq_of_toNat_eq
  rw [Instr.rd, field_toNat, uType_toNat]
  omega

end Instr

theorem xor_two_pow {a k : Nat} (h : a < 2 ^ (k + 1)) :
    a ^^^ 2 ^ k = if a < 2 ^ k then a + 2 ^ k else a - 2 ^ k := by
  have hdiv : (a ^^^ 2 ^ k) / 2 ^ k = a / 2 ^ k ^^^ 1 := by
    rw [Nat.xor_div_two_pow, Nat.div_self (Nat.two_pow_pos k)]
  have hmod : (a ^^^ 2 ^ k) % 2 ^ k = a % 2 ^ k := by
    rw [Nat.xor_mod_two_pow, Nat.mod_self, Nat.xor_zero]
  have hsplit := Nat.div_add_mod (a ^^^ 2 ^ k) (2 ^ k)
  rw [hdiv, hmod] at hsplit
  rw [← hsplit]
  rw [Nat.pow_succ] at h
  by_cases hlt : a < 2 ^ k
  · rw [if_pos hlt, Nat.div_eq_of_lt hlt, Nat.mod_eq_of_lt hlt]
    simp
    omega
  · have hone : a / 2 ^ k = 1 := Nat.div_eq_of_lt_le (by omega) (by omega)
    rw [if_neg hlt, hone, Nat.mod_eq_sub_mod (by omega), Nat.mod_eq_of_lt (by omega)]
    simp

/-- The bit trick of `sign_extend`. -/
theorem signExtendImm_setWidth {n : Nat} (x : BitVec n) (hpos : 0 < n) (hn : n < 32) :
    signExtendImm (x.setWidth 32) n = x.signExtend 32 := by
  obtain ⟨k, rfl⟩ : ∃ k, n = k + 1 := ⟨n - 1, by omega⟩
  have hx := x.isLt
  have hpow : 2 ^ (k + 1) = 2 * 2 ^ k := Nat.pow_succ'
  have hk : 2 ^ (k + 1) ≤ 2 ^ 31 := Nat.pow_le_pow_right (by decide) (by omega)
  have hmask : ((1 <<< k : Nat) : BitVec 32).toNat = 2 ^ k := by
    rw [Nat.shiftLeft_eq, Nat.one_mul]
    exact Nat.mod_eq_of_lt (by omega)
  have hmsb : x.msb = decide (2 ^ k ≤ x.toNat) := BitVec.msb_eq_decide x
  apply BitVec.eq_of_toNat_eq
  have hwidth : (x.setWidth 32).toNat = x.toNat := by
    rw [BitVec.toNat_setWidth, Nat.mod_eq_of_lt (by omega)]
  simp only [signExtendImm, Nat.add_sub_cancel]
  rw [BitVec.toNat_sub, BitVec.toNat_xor, hwidth, hmask, xor_two_pow hx, BitVec.toNat_signExtend,
    hwidth, hmsb]
  by_cases hlt : x.toNat < 2 ^ k
  · rw [if_pos hlt, decide_eq_false (by omega), if_neg (by simp)]
    omega
  · rw [if_neg hlt, decide_eq_true (by omega), if_pos rfl]
    omega

theorem immGenerator_iType {op : BitVec 7} (hop : op = 0b0010011#7 ∨ op = 0b0000011#7 ∨
    op = 0b1100111#7 ∨ op = 0b0000111#7) (imm : BitVec 12) (rs1 rd : BitVec 5)
    (funct3 : BitVec 3) :
    immGenerator (Instr.iType imm rs1 funct3 rd op) = imm.signExtend 32 := by
  rw [← signExtendImm_setWidth imm (by decide) (by decide)]
  rcases hop with rfl | rfl | rfl | rfl <;>
    simp only [immGenerator, Instr.iType_opcode, Instr.iType_imm]

theorem immGenerator_sType {op : BitVec 7} (hop : op = 0b0100011#7 ∨ op = 0b0100111#7)
    (imm : BitVec 12) (rs2 rs1 : BitVec 5) (funct3 : BitVec 3) :
    immGenerator (Instr.sType imm rs2 rs1 funct3 op) = imm.signExtend 32 := by
  have hparts : (Instr.field (Instr.sType imm rs2 rs1 funct3 op) 7 5).setWidth 32 |||
      (Instr.field (Instr.sType imm rs2 rs1 funct3 op) 25 7).setWidth 32 <<< 5 =
      imm.setWidth 32 := by
    apply BitVec.eq_of_toNat_eq
    have hlow : (Instr.field (Instr.sType imm rs2 rs1 funct3 op) 7 5).toNat = imm.toNat % 2 ^ 5 := by
      rw [Instr.field_toNat, Instr.sType_toNat]
      have hlow : imm.toNat % 2 ^ 5 < 2 ^ 5 := Nat.mod_lt _ (by decide)
      generalize imm.toNat % 2 ^ 5 = low at hlow
      generalize imm.toNat / 2 ^ 5 = high
      omega
    have hhigh : (Instr.field (Instr.sType imm rs2 rs1 funct3 op) 25 7).toNat =
        imm.toNat / 2 ^ 5 := by
      have hlow : imm.toNat % 2 ^ 5 < 2 ^ 5 := Nat.mod_lt _ (by decide)
      have hhigh : imm.toNat / 2 ^ 5 < 2 ^ 7 := Nat.div_lt_of_lt_mul imm.isLt
      rw [Instr.field_toNat, Instr.sType_toNat]
      generalize imm.toNat % 2 ^ 5 = low at hlow
      generalize imm.toNat / 2 ^ 5 = high at hhigh
      omega
    have himm := imm.isLt
    rw [BitVec.or_comm, or_toNat 5 (shiftLeft_toNat 5 ((setWidth_toNat _ (by decide)).trans hhigh)
      (by omega)) ((setWidth_toNat _ (by decide)).trans hlow) (Nat.mod_lt _ (by decide)),
      setWidth_toNat _ (by decide)]
    omega
  rw [← signExtendImm_setWidth imm (by decide) (by decide), ← hparts]
  rcases hop with rfl | rfl <;> simp only [immGenerator, Instr.sType_opcode]

theorem immGenerator_uType {op : BitVec 7} (hop : op = 0b0110111#7 ∨ op = 0b0010111#7)
    (upper : BitVec 20) (rd : BitVec 5) :
    immGenerator (Instr.uType upper rd op) = upper.setWidth 32 := by
  have hmask : ((Instr.uType upper rd op) &&& 0xFFFFF000#32) >>> 12 = upper.setWidth 32 := by
    apply BitVec.eq_of_toNat_eq
    rw [BitVec.toNat_ushiftRight, BitVec.toNat_and, Nat.shiftRight_and_distrib,
      Nat.shiftRight_eq_div_pow, setWidth_toNat _ (by decide)]
    change (Instr.uType upper rd op).toNat / 2 ^ 12 &&& (2 ^ 20 - 1) = _
    rw [Nat.and_two_pow_sub_one_eq_mod, Instr.uType_toNat]
    omega
  rcases hop with rfl | rfl <;> simp only [immGenerator, Instr.uType_opcode, hmask]

/-- An immediate above four fields; the shift drops its high bits. -/
theorem pack_imm_toNat {f₅ f₄ f₃ f₂ f₁ : BitVec 32} (h₄ : f₄.toNat < 2 ^ 5) (h₃ : f₃.toNat < 2 ^ 3)
    (h₂ : f₂.toNat < 2 ^ 5) (h₁ : f₁.toNat < 2 ^ 7) :
    (f₅ <<< 20 ||| f₄ <<< 15 ||| f₃ <<< 12 ||| f₂ <<< 7 ||| f₁).toNat =
      f₅.toNat % 2 ^ 12 * 2 ^ 20 + f₄.toNat * 2 ^ 15 + f₃.toNat * 2 ^ 12 + f₂.toNat * 2 ^ 7 +
        f₁.toNat := by
  have s₅ : (f₅ <<< 20).toNat = f₅.toNat % 2 ^ 12 * 2 ^ 20 := by
    rw [BitVec.toNat_shiftLeft, Nat.shiftLeft_eq]
    omega
  have s₄ := shiftLeft_toNat 15 (x := f₄) rfl (by omega)
  have s₃ := shiftLeft_toNat 12 (x := f₃) rfl (by omega)
  have s₂ := shiftLeft_toNat 7 (x := f₂) rfl (by omega)
  generalize f₅.toNat % 2 ^ 12 = m at s₅
  have o₄ := or_toNat (a := m) 20 s₅ s₄ (by omega)
  have o₃ := or_toNat (a := m * 2 ^ 5 + f₄.toNat) 15 (by rw [o₄]; omega) s₃ (by omega)
  have o₂ := or_toNat (a := m * 2 ^ 8 + f₄.toNat * 2 ^ 3 + f₃.toNat) 12 (by rw [o₃]; omega) s₂
    (by omega)
  have o₁ := or_toNat (y := f₁) (a := m * 2 ^ 13 + f₄.toNat * 2 ^ 8 + f₃.toNat * 2 ^ 5 + f₂.toNat) 7
    (by rw [o₂]; omega) rfl (by omega)
  rw [o₁]
  omega

namespace CodeGenerator

variable {block : ICUnit} {map : List (String × InstructionSet.Encoding)}
  {e : InstructionSet.Encoding} {rd rs1 rs2 : RegIndex} {n : Int}

theorem ofInt_mod (n : Int) : (BitVec.ofInt 32 n).toNat % 2 ^ 12 = (BitVec.ofInt 12 n).toNat := by
  rw [BitVec.toNat_ofInt, BitVec.toNat_ofInt]
  omega

/-- The encoder of the I format. -/
theorem encodeImmediate_eq (he : mapAt map block.opcode = .ok e)
    (himm : immediate block.imm = .ok (BitVec.ofInt 32 n))
    (hrd : extractRegisterIndex block.rd = .ok (rd.setWidth 32))
    (hrs1 : extractRegisterIndex block.rs1 = .ok (rs1.setWidth 32)) :
    encodeImmediate block map = .ok (Instr.iType (BitVec.ofInt 12 n) rs1 e.funct3 rd e.opcode) := by
  simp only [encodeImmediate, he, himm, hrd, hrs1, Loop.bind_ok]
  refine congrArg Except.ok (BitVec.eq_of_toNat_eq ?_)
  rw [pack_imm_toNat, Instr.iType_toNat, ofInt_mod] <;>
    simp only [setWidth_toNat _ (by decide : 5 ≤ 32), setWidth_toNat _ (by decide : 7 ≤ 32),
      setWidth_toNat _ (by decide : 3 ≤ 32)] <;> omega

/-- The encoder of the shifts. -/
theorem generateI2TypeMachineCode_eq {shamt : BitVec 6}
    (he : mapAt InstructionSet.i2TypeInstructionEncodingMap block.opcode = .ok e)
    (himm : immediate block.imm = .ok (shamt.setWidth 32))
    (hrd : extractRegisterIndex block.rd = .ok (rd.setWidth 32))
    (hrs1 : extractRegisterIndex block.rs1 = .ok (rs1.setWidth 32)) :
    generateI2TypeMachineCode block =
      .ok (Instr.iType (e.funct6 ++ shamt) rs1 e.funct3 rd e.opcode) := by
  have hshamt := shamt.isLt
  have hfunct6 := e.funct6.isLt
  have himm12 : (e.funct6.setWidth 32 <<< 6 ||| shamt.setWidth 32 : BitVec 32).toNat =
      e.funct6.toNat * 2 ^ 6 + shamt.toNat :=
    or_toNat 6 (shiftLeft_toNat 6 (setWidth_toNat _ (by decide)) (by omega))
      (setWidth_toNat _ (by decide)) hshamt
  have hparts : e.funct6.setWidth 32 <<< 26 ||| (shamt.setWidth 32 : BitVec 32) <<< 20 =
      (e.funct6.setWidth 32 <<< 6 ||| shamt.setWidth 32) <<< 20 := by
    rw [BitVec.shiftLeft_or_distrib, ← BitVec.shiftLeft_add]
  simp only [generateI2TypeMachineCode, he, himm, hrd, hrs1, Loop.bind_ok, hparts]
  refine congrArg Except.ok (BitVec.eq_of_toNat_eq ?_)
  rw [pack_imm_toNat, himm12, Instr.iType_toNat, append_toNat] <;>
    simp only [setWidth_toNat _ (by decide : 5 ≤ 32), setWidth_toNat _ (by decide : 7 ≤ 32),
      setWidth_toNat _ (by decide : 3 ≤ 32)] <;> omega

/-- The encoder of the U format. -/
theorem generateUTypeMachineCode_eq
    (he : mapAt InstructionSet.uTypeInstructionEncodingMap block.opcode = .ok e)
    (himm : immediate block.imm = .ok (BitVec.ofInt 32 n))
    (hrd : extractRegisterIndex block.rd = .ok (rd.setWidth 32)) :
    generateUTypeMachineCode block = .ok (Instr.uType (BitVec.ofInt 20 n) rd e.opcode) := by
  have hmask : (BitVec.ofInt 32 n &&& 0xFFFFF).toNat = (BitVec.ofInt 20 n).toNat := by
    change (BitVec.ofInt 32 n).toNat &&& (2 ^ 20 - 1) = _
    rw [Nat.and_two_pow_sub_one_eq_mod, BitVec.toNat_ofInt, BitVec.toNat_ofInt]
    omega
  have hupper := (BitVec.ofInt 20 n).isLt
  simp only [generateUTypeMachineCode, he, himm, hrd, Loop.bind_ok]
  refine congrArg Except.ok (BitVec.eq_of_toNat_eq ?_)
  have s₃ := shiftLeft_toNat 12 hmask (by omega)
  have s₂ := shiftLeft_toNat 7 (setWidth_toNat rd (by decide)) (by omega)
  have o₂ := or_toNat 12 s₃ s₂ (by omega)
  have o₁ := or_toNat (a := (BitVec.ofInt 20 n).toNat * 2 ^ 5 + rd.toNat) 7 (by rw [o₂]; omega)
    (setWidth_toNat e.opcode (by decide)) e.opcode.isLt
  rw [o₁, Instr.uType_toNat]
  omega

end CodeGenerator

namespace Instr

theorem opcode_or (x y : Instr) : (x ||| y).opcode = x.opcode ||| y.opcode :=
  BitVec.extractLsb'_or

theorem opcode_shiftLeft (x : BitVec 32) {k : Nat} (hk : 7 ≤ k) : Instr.opcode (x <<< k) = 0#7 := by
  apply BitVec.eq_of_getLsbD_eq
  intro i hi
  simp [opcode, field]
  omega

theorem opcode_setWidth (op : BitVec 7) : Instr.opcode (op.setWidth 32) = op := by
  apply BitVec.eq_of_getLsbD_eq
  intro i hi
  simp [opcode, field, hi]
  omega

end Instr

namespace CodeGenerator

/-- The encodings of a format. -/
def Format.encodings : Format → List (String × InstructionSet.Encoding)
  | .R => InstructionSet.rTypeInstructionEncodingMap
  | .RL => InstructionSet.rlTypeInstructionEncodingMap
  | .SR => InstructionSet.srTypeInstructionEncodingMap
  | .I1 => InstructionSet.i1TypeInstructionEncodingMap
  | .I2 => InstructionSet.i2TypeInstructionEncodingMap
  | .I3 => InstructionSet.i3TypeInstructionEncodingMap
  | .S => InstructionSet.sTypeInstructionEncodingMap
  | .B => InstructionSet.bTypeInstructionEncodingMap
  | .U => InstructionSet.uTypeInstructionEncodingMap
  | .J => InstructionSet.jTypeInstructionEncodingMap
  | .CSRR => InstructionSet.csrRTypeInstructionEncodingMap
  | .CSRI => InstructionSet.csrITypeInstructionEncodingMap
  | .FDR => InstructionSet.fdRTypeInstructionEncodingMap
  | .FDR1 => InstructionSet.fdR1TypeInstructionEncodingMap
  | .FDR2 => InstructionSet.fdR2TypeInstructionEncodingMap
  | .FDR3 => InstructionSet.fdR3TypeInstructionEncodingMap
  | .FDR4 => InstructionSet.fdR4TypeInstructionEncodingMap
  | .FDI => InstructionSet.fdITypeInstructionEncodingMap
  | .FDS => InstructionSet.fdSTypeInstructionEncodingMap

section

variable {w : Instr}

/-- The opcode of `w` is that of the mnemonic. -/
def HasOpcode (map : List (String × InstructionSet.Encoding)) (block : ICUnit) (w : Instr) : Prop :=
  ∃ e, mapAt map block.opcode = .ok e ∧ w.opcode = e.opcode

/-- The other fields lie above the opcode. -/
theorem opcode_of_fields {x : Instr} (he : mapAt map block.opcode = .ok e)
    (hx : x.opcode = 0#7) :
    Loop.Ensures (HasOpcode map block) (.ok (x ||| e.opcode.setWidth 32) : Except Thrown Instr) :=
  .ok ⟨e, he, by rw [Instr.opcode_or, hx, Instr.opcode_setWidth, BitVec.zero_or]⟩

theorem encodeRegisters_opcode :
    Loop.Ensures (HasOpcode map block) (encodeRegisters block map) :=
  .bind fun _ he => .bind fun _ _ => .bind fun _ _ => .bind fun _ _ =>
    opcode_of_fields he (by simp [Instr.opcode_or, Instr.opcode_shiftLeft])

theorem encodeImmediate_opcode :
    Loop.Ensures (HasOpcode map block) (encodeImmediate block map) :=
  .bind fun _ he => .bind fun _ _ => .bind fun _ _ => .bind fun _ _ =>
    opcode_of_fields he (by simp [Instr.opcode_or, Instr.opcode_shiftLeft])

theorem encodeStore_opcode : Loop.Ensures (HasOpcode map block) (encodeStore block map) :=
  .bind fun _ he => .bind fun _ _ => .bind fun _ _ => .bind fun _ _ =>
    opcode_of_fields he (by simp [Instr.opcode_or, Instr.opcode_shiftLeft])

/-- The part of an immediate that JAL leaves in place is above the opcode. -/
theorem opcode_mask (x : BitVec 32) : Instr.opcode (x &&& 0xFF000#32) = 0#7 := by
  rw [Instr.opcode, Instr.field, BitVec.extractLsb'_and]
  exact BitVec.and_zero

/-- The word of a unit has the opcode of its mnemonic. -/
theorem machineCode_opcode (f : Format) (hformat : formatOf block.opcode = some f) :
    Loop.Ensures (HasOpcode f.encodings block) (machineCode block) := by
  unfold machineCode
  rw [hformat]
  cases f with
  | R => exact encodeRegisters_opcode
  | RL => exact encodeRegisters_opcode
  | SR => exact encodeStore_opcode
  | I1 => exact encodeImmediate_opcode
  | I2 =>
    exact .bind fun _ he => .bind fun _ _ => .bind fun _ _ => .bind fun _ _ =>
      opcode_of_fields he (by simp [Instr.opcode_or, Instr.opcode_shiftLeft])
  | I3 =>
    exact .bind fun _ he => opcode_of_fields he (by simp [Instr.opcode_shiftLeft])
  | S => exact encodeStore_opcode
  | B =>
    exact .bind fun _ he => .bind fun _ _ => .bind fun _ _ => .bind fun _ _ =>
      opcode_of_fields he (by simp [Instr.opcode_or, Instr.opcode_shiftLeft])
  | U =>
    exact .bind fun _ he => .bind fun _ _ => .bind fun _ _ =>
      opcode_of_fields he (by simp [Instr.opcode_or, Instr.opcode_shiftLeft])
  | J =>
    exact .bind fun _ he => .bind fun _ _ => .bind fun _ _ =>
      opcode_of_fields he (by simp [Instr.opcode_or, Instr.opcode_shiftLeft, opcode_mask])
  | CSRR =>
    exact .bind fun _ he => .bind fun _ _ => .bind fun _ _ =>
      opcode_of_fields he (by simp [Instr.opcode_or, Instr.opcode_shiftLeft])
  | CSRI =>
    exact .bind fun _ he => .bind fun _ _ => .bind fun _ _ =>
      opcode_of_fields he (by simp [Instr.opcode_or, Instr.opcode_shiftLeft])
  | FDR => exact encodeRegisters_opcode
  | FDR1 =>
    exact .bind fun _ he => .bind fun _ _ => .bind fun _ _ => .bind fun _ _ =>
      opcode_of_fields he (by simp [Instr.opcode_or, Instr.opcode_shiftLeft])
  | FDR2 =>
    exact .bind fun _ he => .bind fun _ _ => .bind fun _ _ =>
      opcode_of_fields he (by simp [Instr.opcode_or, Instr.opcode_shiftLeft])
  | FDR3 =>
    exact .bind fun _ he => .bind fun _ _ => .bind fun _ _ =>
      opcode_of_fields he (by simp [Instr.opcode_or, Instr.opcode_shiftLeft])
  | FDR4 =>
    exact .bind fun _ he => .bind fun _ _ => .bind fun _ _ => .bind fun _ _ => .bind fun _ _ =>
      opcode_of_fields he (by simp [Instr.opcode_or, Instr.opcode_shiftLeft])
  | FDI => exact encodeImmediate_opcode
  | FDS => exact encodeStore_opcode

theorem formatOf_of_machineCode {w : Instr} (h : machineCode block = .ok w) :
    ∃ f, formatOf block.opcode = some f := by
  unfold machineCode at h
  cases hformat : formatOf block.opcode with
  | none =>
    rw [hformat] at h
    cases h
  | some f => exact ⟨f, rfl⟩

end

end CodeGenerator

end RiscvSim
