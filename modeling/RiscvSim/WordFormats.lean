import RiscvSim.Formats

/-! The formats of three and four registers, of branches and of jumps. -/

namespace RiscvSim

namespace Instr

def rType (funct7 : BitVec 7) (rs2 rs1 : BitVec 5) (funct3 : BitVec 3) (rd : BitVec 5)
    (opcode : BitVec 7) : Instr :=
  funct7 ++ rs2 ++ rs1 ++ funct3 ++ rd ++ opcode

/-- Three sources; the third is above `funct2`. -/
def r4Type (rs3 : BitVec 5) (funct2 : BitVec 2) (rs2 rs1 : BitVec 5) (funct3 : BitVec 3)
    (rd : BitVec 5) (opcode : BitVec 7) : Instr :=
  rType (rs3 ++ funct2) rs2 rs1 funct3 rd opcode

/-- Two sources and an offset in halfwords. -/
def bType (half : BitVec 12) (rs2 rs1 : BitVec 5) (funct3 : BitVec 3) (opcode : BitVec 7) :
    Instr :=
  half.extractLsb' 11 1 ++ half.extractLsb' 4 6 ++ rs2 ++ rs1 ++ funct3 ++ half.extractLsb' 0 4 ++
    half.extractLsb' 10 1 ++ opcode

/-- A destination and an offset in halfwords. -/
def jType (half : BitVec 20) (rd : BitVec 5) (opcode : BitVec 7) : Instr :=
  half.extractLsb' 19 1 ++ half.extractLsb' 0 10 ++ half.extractLsb' 10 1 ++
    half.extractLsb' 11 8 ++ rd ++ opcode

section

variable (funct7 op : BitVec 7) (rs3 rs2 rs1 rd : BitVec 5) (funct3 : BitVec 3)
  (funct2 : BitVec 2) (half : BitVec 12) (far : BitVec 20)

theorem rType_toNat : (rType funct7 rs2 rs1 funct3 rd op).toNat =
    funct7.toNat * 2 ^ 25 + rs2.toNat * 2 ^ 20 + rs1.toNat * 2 ^ 15 + funct3.toNat * 2 ^ 12 +
      rd.toNat * 2 ^ 7 + op.toNat := by
  simp only [rType, append_toNat]
  omega

theorem bType_toNat : (bType half rs2 rs1 funct3 op).toNat =
    half.toNat / 2 ^ 11 % 2 * 2 ^ 31 + half.toNat / 2 ^ 4 % 2 ^ 6 * 2 ^ 25 + rs2.toNat * 2 ^ 20 +
      rs1.toNat * 2 ^ 15 + funct3.toNat * 2 ^ 12 + half.toNat % 2 ^ 4 * 2 ^ 8 +
      half.toNat / 2 ^ 10 % 2 * 2 ^ 7 + op.toNat := by
  simp only [bType, append_toNat, BitVec.extractLsb'_toNat, Nat.shiftRight_eq_div_pow]
  omega

theorem jType_toNat : (jType far rd op).toNat =
    far.toNat / 2 ^ 19 % 2 * 2 ^ 31 + far.toNat % 2 ^ 10 * 2 ^ 21 +
      far.toNat / 2 ^ 10 % 2 * 2 ^ 20 + far.toNat / 2 ^ 11 % 2 ^ 8 * 2 ^ 12 + rd.toNat * 2 ^ 7 +
      op.toNat := by
  simp only [jType, append_toNat, BitVec.extractLsb'_toNat, Nat.shiftRight_eq_div_pow]
  omega

@[simp] theorem rType_opcode : (rType funct7 rs2 rs1 funct3 rd op).opcode = op := by
  simp (disch := decide) only [opcode, field, rType, BitVec.extractLsb'_append_eq_of_add_le,
    BitVec.extractLsb'_eq_self]

@[simp] theorem rType_rd : (rType funct7 rs2 rs1 funct3 rd op).rd = rd := by
  simp (disch := decide) only [Instr.rd, field, rType, BitVec.extractLsb'_append_eq_of_le,
    BitVec.extractLsb'_append_eq_of_add_le, BitVec.extractLsb'_eq_self, Nat.reduceSub]

@[simp] theorem rType_funct3 : (rType funct7 rs2 rs1 funct3 rd op).funct3 = funct3 := by
  simp (disch := decide) only [Instr.funct3, field, rType, BitVec.extractLsb'_append_eq_of_le,
    BitVec.extractLsb'_append_eq_of_add_le, BitVec.extractLsb'_eq_self, Nat.reduceSub]

@[simp] theorem rType_rs1 : (rType funct7 rs2 rs1 funct3 rd op).rs1 = rs1 := by
  simp (disch := decide) only [Instr.rs1, field, rType, BitVec.extractLsb'_append_eq_of_le,
    BitVec.extractLsb'_append_eq_of_add_le, BitVec.extractLsb'_eq_self, Nat.reduceSub]

@[simp] theorem rType_rs2 : (rType funct7 rs2 rs1 funct3 rd op).rs2 = rs2 := by
  simp (disch := decide) only [Instr.rs2, field, rType, BitVec.extractLsb'_append_eq_of_le,
    BitVec.extractLsb'_append_eq_of_add_le, BitVec.extractLsb'_eq_self, Nat.reduceSub]

@[simp] theorem rType_funct5 : (rType funct7 rs2 rs1 funct3 rd op).funct5 = rs2 :=
  rType_rs2 funct7 op rs2 rs1 rd funct3

@[simp] theorem rType_funct7 : (rType funct7 rs2 rs1 funct3 rd op).funct7 = funct7 := by
  simp (disch := decide) only [Instr.funct7, field, rType, BitVec.extractLsb'_append_eq_of_le,
    BitVec.extractLsb'_eq_self, Nat.reduceSub]

@[simp] theorem r4Type_rs3 : (r4Type rs3 funct2 rs2 rs1 funct3 rd op).rs3 = rs3 := by
  simp (disch := decide) only [Instr.rs3, field, r4Type, rType, BitVec.extractLsb'_append_eq_of_le,
    BitVec.extractLsb'_eq_self, Nat.reduceSub]

@[simp] theorem r4Type_funct2 : (r4Type rs3 funct2 rs2 rs1 funct3 rd op).funct2 = funct2 := by
  simp (disch := decide) only [Instr.funct2, field, r4Type, rType,
    BitVec.extractLsb'_append_eq_of_le, BitVec.extractLsb'_append_eq_of_add_le,
    BitVec.extractLsb'_eq_self, Nat.reduceSub]

theorem iType_csr (imm : BitVec 12) : (iType imm rs1 funct3 rd op).csr = imm :=
  iType_imm imm rs1 rd funct3 op

@[simp] theorem bType_opcode : (bType half rs2 rs1 funct3 op).opcode = op := by
  simp (disch := decide) only [opcode, field, bType, BitVec.extractLsb'_append_eq_of_add_le,
    BitVec.extractLsb'_eq_self]

@[simp] theorem bType_funct3 : (bType half rs2 rs1 funct3 op).funct3 = funct3 := by
  simp (disch := decide) only [Instr.funct3, field, bType, BitVec.extractLsb'_append_eq_of_le,
    BitVec.extractLsb'_append_eq_of_add_le, BitVec.extractLsb'_eq_self, Nat.reduceSub]

@[simp] theorem bType_rs1 : (bType half rs2 rs1 funct3 op).rs1 = rs1 := by
  simp (disch := decide) only [Instr.rs1, field, bType, BitVec.extractLsb'_append_eq_of_le,
    BitVec.extractLsb'_append_eq_of_add_le, BitVec.extractLsb'_eq_self, Nat.reduceSub]

@[simp] theorem bType_rs2 : (bType half rs2 rs1 funct3 op).rs2 = rs2 := by
  simp (disch := decide) only [Instr.rs2, field, bType, BitVec.extractLsb'_append_eq_of_le,
    BitVec.extractLsb'_append_eq_of_add_le, BitVec.extractLsb'_eq_self, Nat.reduceSub]

@[simp] theorem jType_opcode : (jType far rd op).opcode = op := by
  simp (disch := decide) only [opcode, field, jType, BitVec.extractLsb'_append_eq_of_add_le,
    BitVec.extractLsb'_eq_self]

@[simp] theorem jType_rd : (jType far rd op).rd = rd := by
  simp (disch := decide) only [Instr.rd, field, jType, BitVec.extractLsb'_append_eq_of_le,
    BitVec.extractLsb'_append_eq_of_add_le, BitVec.extractLsb'_eq_self, Nat.reduceSub]

/-- The parts of the offset of a branch. -/
theorem bType_parts :
    field (bType half rs2 rs1 funct3 op) 8 4 = half.extractLsb' 0 4 ∧
      field (bType half rs2 rs1 funct3 op) 25 6 = half.extractLsb' 4 6 ∧
      field (bType half rs2 rs1 funct3 op) 7 1 = half.extractLsb' 10 1 ∧
      field (bType half rs2 rs1 funct3 op) 31 1 = half.extractLsb' 11 1 := by
  refine ⟨?_, ?_, ?_, ?_⟩ <;>
    simp (disch := decide) only [field, bType, BitVec.extractLsb'_append_eq_of_le,
      BitVec.extractLsb'_append_eq_of_add_le, BitVec.extractLsb'_eq_self, Nat.reduceSub]

/-- The parts of the offset of a jump. -/
theorem jType_parts :
    field (jType far rd op) 21 10 = far.extractLsb' 0 10 ∧
      field (jType far rd op) 20 1 = far.extractLsb' 10 1 ∧
      field (jType far rd op) 12 8 = far.extractLsb' 11 8 ∧
      field (jType far rd op) 31 1 = far.extractLsb' 19 1 := by
  refine ⟨?_, ?_, ?_, ?_⟩ <;>
    simp (disch := decide) only [field, jType, BitVec.extractLsb'_append_eq_of_le,
      BitVec.extractLsb'_append_eq_of_add_le, BitVec.extractLsb'_eq_self, Nat.reduceSub]

end

end Instr

/-- Parts of an immediate side by side, the lowest first. -/
theorem or_low_toNat {x y : BitVec 32} {a b : Nat} (k : Nat) (hx : x.toNat = a) (ha : a < 2 ^ k)
    (hy : y.toNat = b * 2 ^ k) : (x ||| y).toNat = b * 2 ^ k + a := by
  rw [BitVec.or_comm]
  exact or_toNat k hy hx ha

/-- A part of an immediate at its place. -/
theorem part_toNat {n : Nat} (x : BitVec n) (low len k : Nat) (hlen : len ≤ 32)
    (hk : 2 ^ len * 2 ^ k ≤ 2 ^ 32) :
    ((x.extractLsb' low len).setWidth 32 <<< k : BitVec 32).toNat =
      x.toNat / 2 ^ low % 2 ^ len * 2 ^ k := by
  have hpart : x.toNat / 2 ^ low % 2 ^ len < 2 ^ len := Nat.mod_lt _ (Nat.two_pow_pos len)
  refine shiftLeft_toNat k ?_ ?_
  · rw [setWidth_toNat _ hlen, BitVec.extractLsb'_toNat, Nat.shiftRight_eq_div_pow]
  · exact Nat.lt_of_lt_of_le (Nat.mul_lt_mul_of_pos_right hpart (Nat.two_pow_pos k)) hk

/-- An offset in halfwords, in bytes. -/
theorem shiftLeft_one {n : Nat} (half : BitVec n) (hn : n + 1 ≤ 32) :
    (half.setWidth 32 <<< 1 : BitVec 32) = (half ++ 0#1).setWidth 32 := by
  have hhalf := half.isLt
  have hpow : 2 ^ n ≤ 2 ^ 31 := Nat.pow_le_pow_right (by decide) (by omega)
  apply BitVec.eq_of_toNat_eq
  rw [shiftLeft_toNat 1 (setWidth_toNat half (by omega)) (by omega), setWidth_toNat _ (by omega),
    append_toNat]
  rfl

theorem immGenerator_bType (half : BitVec 12) (rs2 rs1 : BitVec 5) (funct3 : BitVec 3) :
    immGenerator (Instr.bType half rs2 rs1 funct3 0b1100011#7) = (half ++ 0#1).signExtend 32 := by
  have hhalf := half.isLt
  have hparts : (half.extractLsb' 0 4).setWidth 32 ||| (half.extractLsb' 4 6).setWidth 32 <<< 4 |||
      (half.extractLsb' 10 1).setWidth 32 <<< 10 ||| (half.extractLsb' 11 1).setWidth 32 <<< 11 =
      (half.setWidth 32 : BitVec 32) := by
    apply BitVec.eq_of_toNat_eq
    have h₁ := part_toNat half 0 4 0 (by decide) (by decide)
    rw [BitVec.shiftLeft_zero] at h₁
    have h₂ := or_low_toNat 4 h₁ (by omega) (part_toNat half 4 6 4 (by decide) (by decide))
    have h₃ := or_low_toNat 10 h₂ (by omega) (part_toNat half 10 1 10 (by decide) (by decide))
    have h₄ := or_low_toNat 11 h₃ (by omega) (part_toNat half 11 1 11 (by decide) (by decide))
    rw [h₄, setWidth_toNat _ (by decide)]
    omega
  obtain ⟨p₁, p₂, p₃, p₄⟩ := Instr.bType_parts 0b1100011#7 rs2 rs1 funct3 half
  simp only [immGenerator, Instr.bType_opcode, p₁, p₂, p₃, p₄, hparts]
  rw [shiftLeft_one half (by decide)]
  exact signExtendImm_setWidth (half ++ 0#1) (by decide) (by decide)

theorem immGenerator_jType (half : BitVec 20) (rd : BitVec 5) :
    immGenerator (Instr.jType half rd 0b1101111#7) = (half ++ 0#1).signExtend 32 := by
  have hhalf := half.isLt
  have hparts : (half.extractLsb' 0 10).setWidth 32 |||
      (half.extractLsb' 10 1).setWidth 32 <<< 10 ||| (half.extractLsb' 11 8).setWidth 32 <<< 11 |||
      (half.extractLsb' 19 1).setWidth 32 <<< 19 = (half.setWidth 32 : BitVec 32) := by
    apply BitVec.eq_of_toNat_eq
    have h₁ := part_toNat half 0 10 0 (by decide) (by decide)
    rw [BitVec.shiftLeft_zero] at h₁
    have h₂ := or_low_toNat 10 h₁ (by omega) (part_toNat half 10 1 10 (by decide) (by decide))
    have h₃ := or_low_toNat 11 h₂ (by omega) (part_toNat half 11 8 11 (by decide) (by decide))
    have h₄ := or_low_toNat 19 h₃ (by omega) (part_toNat half 19 1 19 (by decide) (by decide))
    rw [h₄, setWidth_toNat _ (by decide)]
    omega
  obtain ⟨p₁, p₂, p₃, p₄⟩ := Instr.jType_parts 0b1101111#7 rd half
  simp only [immGenerator, Instr.jType_opcode, p₁, p₂, p₃, p₄, hparts]
  rw [shiftLeft_one half (by decide)]
  exact signExtendImm_setWidth (half ++ 0#1) (by decide) (by decide)

/-- The offset in bytes. -/
theorem signExtend_half {n : Nat} (half : BitVec (n + 1)) (w : Nat) :
    (half ++ 0#1).signExtend w = BitVec.ofInt w (2 * half.toInt) := by
  rw [BitVec.signExtend, BitVec.toInt_append]
  simp

end RiscvSim
