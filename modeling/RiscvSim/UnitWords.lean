import RiscvSim.FirstPass
import RiscvSim.WordFormats

/-! The words of the units that the parser lets through, field by field. -/

namespace RiscvSim

open InstructionSet

/-- The operands of a unit as numbers. -/
structure Operands where
  rd : RegIndex
  rs1 : RegIndex
  rs2 : RegIndex
  rs3 : RegIndex
  imm : Int
  csr : CsrIndex
  rm : BitVec 3

/-- `o` are the operands of `u` that the layout has. -/
structure Layout.Reads (l : Layout) (u : ICUnit) (o : Operands) : Prop where
  rd : ∀ bank ∈ l.rd, u.rd = bank.name o.rd
  rs1 : ∀ bank ∈ l.rs1, u.rs1 = bank.name o.rs1
  rs2 : ∀ bank ∈ l.rs2, u.rs2 = bank.name o.rs2
  rs3 : ∀ bank ∈ l.rs3, u.rs3 = bank.name o.rs3
  imm : ∀ range ∈ l.imm, u.imm = toString o.imm ∧ range.1 ≤ o.imm ∧ o.imm ≤ range.2
  csr : u.csr = o.csr.setWidth 32
  rm : u.rm = o.rm.setWidth 8

theorem isRegister_index {bank : Option Bank} {name : String} (h : IsRegister bank name) :
    ∃ r : RegIndex, ∀ b ∈ bank, name = b.name r := by
  cases bank with
  | none => exact ⟨0, by simp⟩
  | some b =>
    obtain ⟨r, hr⟩ := h
    exact ⟨r, fun c hc => by rw [hr, Option.some.inj hc]⟩

theorem Layout.reads_of_good {l : Layout} {u : ICUnit} (hregisters : l.Registers u)
    (himm : l.Immediate u) : ∃ o, l.Reads u o := by
  obtain ⟨rd, hrd⟩ := isRegister_index hregisters.rd
  obtain ⟨rs1, hrs1⟩ := isRegister_index hregisters.rs1
  obtain ⟨rs2, hrs2⟩ := isRegister_index hregisters.rs2
  obtain ⟨rs3, hrs3⟩ := isRegister_index hregisters.rs3
  obtain ⟨imm, himm⟩ : ∃ imm : Int, ∀ range ∈ l.imm,
      u.imm = toString imm ∧ range.1 ≤ imm ∧ imm ≤ range.2 := by
    unfold Layout.Immediate at himm
    cases hrange : l.imm with
    | none => exact ⟨0, by simp⟩
    | some range =>
      rw [hrange] at himm
      obtain ⟨n, hn, hlow, hhigh⟩ := himm
      refine ⟨n, fun range' h => ?_⟩
      obtain rfl := Option.some.inj h
      exact ⟨hn, hlow, hhigh⟩
  have hcsr := hregisters.csr
  have hrm := hregisters.rm
  refine ⟨⟨rd, rs1, rs2, rs3, imm, u.csr.setWidth 12, u.rm.setWidth 3⟩, hrd, hrs1, hrs2, hrs3, himm,
    ?_, ?_⟩
  · apply BitVec.eq_of_toNat_eq
    have hsmall : u.csr.toNat < 0x1000 := hcsr
    simp only [BitVec.toNat_setWidth]
    omega
  · apply BitVec.eq_of_toNat_eq
    have hsmall : u.rm.toNat < 8 := hrm
    simp only [BitVec.toNat_setWidth]
    omega

namespace CodeGenerator

namespace Format

def mnemonics : Format → List String
  | .R => rTypeInstructions
  | .RL => rlTypeInstructions
  | .SR => srTypeInstructions
  | .I1 => i1TypeInstructions
  | .I2 => i2TypeInstructions
  | .I3 => i3TypeInstructions
  | .S => sTypeInstructions
  | .B => bTypeInstructions
  | .U => uTypeInstructions
  | .J => jTypeInstructions
  | .CSRR => csrrInstructions
  | .CSRI => csriInstructions
  | .FDR => fdExtensionRTypeInstructions
  | .FDR1 => fdExtensionR1TypeInstructions
  | .FDR2 => fdExtensionR2TypeInstructions
  | .FDR3 => fdExtensionR3TypeInstructions
  | .FDR4 => fdExtensionR4TypeInstructions
  | .FDI => fdExtensionITypeInstructions
  | .FDS => fdExtensionSTypeInstructions

/-- The layout has the operands that the encoder of the format reads. -/
def fits (f : Format) (l : Layout) : Bool :=
  match f with
  | .R | .RL | .FDR | .FDR1 => l.rd.isSome && l.rs1.isSome && l.rs2.isSome
  | .SR | .S | .FDS => l.rs1.isSome && l.rs2.isSome && l.imm == some (-2048, 2047)
  | .I1 | .FDI => l.rd.isSome && l.rs1.isSome && l.imm == some (-2048, 2047)
  | .I2 => l.rd.isSome && l.rs1.isSome && l.imm == some (0, 31)
  | .I3 => true
  | .B => l.rs1.isSome && l.rs2.isSome && l.imm == some (-4096, 4095)
  | .U => l.rd.isSome && l.imm == some (-2147483648, 2147483647)
  | .J => l.rd.isSome && l.imm == some (-1048576, 1048575)
  | .CSRR | .FDR2 | .FDR3 => l.rd.isSome && l.rs1.isSome
  | .CSRI => l.rd.isSome && l.imm == some (0, 31)
  | .FDR4 => l.rd.isSome && l.rs1.isSome && l.rs2.isSome && l.rs3.isSome

/-- The word of a unit with the encoding `e` and the operands `o`. -/
def word (f : Format) (e : Encoding) (o : Operands) : Instr :=
  match f with
  | .R | .RL | .FDR => Instr.rType e.funct7 o.rs2 o.rs1 e.funct3 o.rd e.opcode
  | .SR | .S | .FDS => Instr.sType (BitVec.ofInt 12 o.imm) o.rs2 o.rs1 e.funct3 e.opcode
  | .I1 | .FDI => Instr.iType (BitVec.ofInt 12 o.imm) o.rs1 e.funct3 o.rd e.opcode
  | .I2 => Instr.iType (e.funct6 ++ BitVec.ofInt 6 o.imm) o.rs1 e.funct3 o.rd e.opcode
  | .I3 => Instr.iType 0 0 e.funct3 0 e.opcode
  | .B => Instr.bType (BitVec.ofInt 12 (o.imm / 2)) o.rs2 o.rs1 e.funct3 e.opcode
  | .U => Instr.uType (BitVec.ofInt 20 o.imm) o.rd e.opcode
  | .J => Instr.jType (BitVec.ofInt 20 (o.imm / 2)) o.rd e.opcode
  | .CSRR => Instr.iType o.csr o.rs1 e.funct3 o.rd e.opcode
  | .CSRI => Instr.iType o.csr (BitVec.ofInt 5 o.imm) e.funct3 o.rd e.opcode
  | .FDR1 => Instr.rType e.funct7 o.rs2 o.rs1 o.rm o.rd e.opcode
  | .FDR2 => Instr.rType e.funct7 e.funct5 o.rs1 o.rm o.rd e.opcode
  | .FDR3 => Instr.rType e.funct7 e.funct5 o.rs1 e.funct3 o.rd e.opcode
  | .FDR4 => Instr.r4Type o.rs3 e.funct2 o.rs2 o.rs1 o.rm o.rd e.opcode

end Format

theorem of_ite {b : Bool} {f g : Format} {o : Option Format}
    (h : (if b = true then some g else o) = some f) : b = true ∧ g = f ∨ o = some f := by
  by_cases hb : b = true
  · rw [if_pos hb] at h
    exact .inl ⟨hb, Option.some.inj h⟩
  · rw [if_neg hb] at h
    exact .inr h

theorem formatOf_mem {f : Format} {m : String} (h : formatOf m = some f) : m ∈ f.mnemonics := by
  unfold formatOf at h
  repeat
    rcases of_ite h with ⟨hmem, rfl⟩ | h
    · exact List.contains_iff_mem.mp hmem
  cases h

/-- Every mnemonic of a format has an encoding, and its syntaxes have the operands of it. -/
theorem format_table (f : Format) : ∀ m ∈ f.mnemonics,
    (f.encodings.lookup m).isSome ∧ ∀ s ∈ syntaxes m, ∀ l ∈ layout m s, f.fits l := by
  cases f <;> decide +kernel

/-- A mask of neighbouring bits. -/
theorem and_mask (x low len : Nat) :
    x &&& (2 ^ len - 1) * 2 ^ low = x / 2 ^ low % 2 ^ len * 2 ^ low := by
  apply Nat.eq_of_testBit_eq
  intro i
  rw [Nat.testBit_and, Nat.testBit_mul_two_pow, Nat.testBit_two_pow_sub_one, Nat.testBit_mul_two_pow,
    Nat.testBit_mod_two_pow, Nat.testBit_div_two_pow]
  by_cases hi : low ≤ i
  · rw [Nat.sub_add_cancel hi]
    simp [hi, Bool.and_comm]
  · simp [hi]

/-- Two parts of a word side by side. -/
theorem or_shiftLeft {m l k j : Nat} (x : BitVec m) (y : BitVec l) (hj : j = l + k)
    (hfit : m + l + k ≤ 32) :
    (x.setWidth 32 <<< j ||| y.setWidth 32 <<< k : BitVec 32) = (x ++ y).setWidth 32 <<< k := by
  have hx : x.toNat * 2 ^ j < 2 ^ 32 := by
    calc x.toNat * 2 ^ j < 2 ^ m * 2 ^ j := Nat.mul_lt_mul_of_pos_right x.isLt (Nat.two_pow_pos j)
      _ = 2 ^ (m + j) := (Nat.pow_add 2 m j).symm
      _ ≤ 2 ^ 32 := Nat.pow_le_pow_right (by decide) (by omega)
  have hxy : (x ++ y).toNat * 2 ^ k < 2 ^ 32 := by
    calc (x ++ y).toNat * 2 ^ k < 2 ^ (m + l) * 2 ^ k :=
          Nat.mul_lt_mul_of_pos_right (x ++ y).isLt (Nat.two_pow_pos k)
      _ = 2 ^ (m + l + k) := (Nat.pow_add 2 (m + l) k).symm
      _ ≤ 2 ^ 32 := Nat.pow_le_pow_right (by decide) hfit
  have hy : y.toNat * 2 ^ k < 2 ^ j := by
    rw [hj, Nat.pow_add]
    exact Nat.mul_lt_mul_of_pos_right y.isLt (Nat.two_pow_pos k)
  have hj' : 2 ^ j ≤ 2 ^ 32 := by
    by_cases h : j ≤ 32
    · exact Nat.pow_le_pow_right (by decide) h
    · omega
  have sx := shiftLeft_toNat j (setWidth_toNat x (by omega)) hx
  have sy := shiftLeft_toNat k (setWidth_toNat y (by omega)) (by omega)
  apply BitVec.eq_of_toNat_eq
  rw [or_toNat j sx sy hy, shiftLeft_toNat k (setWidth_toNat (x ++ y) (by omega)) hxy, append_toNat,
    hj, Nat.pow_add, Nat.add_mul, Nat.mul_assoc]

theorem or_setWidth {m l : Nat} (x : BitVec m) (y : BitVec l) (hfit : m + l ≤ 32) :
    (x.setWidth 32 <<< l ||| y.setWidth 32 : BitVec 32) = (x ++ y).setWidth 32 := by
  have h := or_shiftLeft (k := 0) x y (show l = l + 0 from rfl) hfit
  simpa only [BitVec.shiftLeft_zero] using h

theorem pack_rType (funct7 : BitVec 7) (rs2 rs1 : BitVec 5) (funct3 : BitVec 3) (rd : BitVec 5)
    (op : BitVec 7) :
    funct7.setWidth 32 <<< 25 ||| rs2.setWidth 32 <<< 20 ||| rs1.setWidth 32 <<< 15 |||
      funct3.setWidth 32 <<< 12 ||| rd.setWidth 32 <<< 7 ||| op.setWidth 32 =
      Instr.rType funct7 rs2 rs1 funct3 rd op := by
  simp (disch := decide) only [or_shiftLeft, or_setWidth]
  exact BitVec.setWidth_eq _

theorem pack_iType {imm : BitVec 32} {field : BitVec 12} (himm : imm.toNat % 2 ^ 12 = field.toNat)
    (rs1 : BitVec 5) (funct3 : BitVec 3) (rd : BitVec 5) (op : BitVec 7) :
    imm <<< 20 ||| rs1.setWidth 32 <<< 15 ||| funct3.setWidth 32 <<< 12 ||| rd.setWidth 32 <<< 7 |||
      op.setWidth 32 = Instr.iType field rs1 funct3 rd op := by
  apply BitVec.eq_of_toNat_eq
  rw [pack_imm_toNat, himm, Instr.iType_toNat] <;>
    simp only [setWidth_toNat _ (by decide : 5 ≤ 32), setWidth_toNat _ (by decide : 7 ≤ 32),
      setWidth_toNat _ (by decide : 3 ≤ 32)] <;> omega

theorem and_toNat (x : BitVec 32) (len : Nat) (mask : BitVec 32) (hmask : mask.toNat = 2 ^ len - 1) :
    (x &&& mask).toNat = x.toNat % 2 ^ len := by
  rw [BitVec.toNat_and, hmask, Nat.and_two_pow_sub_one_eq_mod]

theorem sshiftRight_ofInt {n : Int} (hlow : -2147483648 ≤ n) (hhigh : n ≤ 2147483647) (k : Nat) :
    (BitVec.ofInt 32 n).sshiftRight k = BitVec.ofInt 32 (n / (2 ^ k : Nat)) := by
  have htoInt : (BitVec.ofInt 32 n).toInt = n := by
    rw [BitVec.toInt_ofInt]
    exact Int.bmod_eq_of_le (by omega) (by omega)
  rw [← BitVec.ofInt_toInt (x := (BitVec.ofInt 32 n).sshiftRight k), BitVec.toInt_sshiftRight, htoInt,
    Int.shiftRight_eq_div_pow]

variable {u : ICUnit} {e : Encoding} {rd rs1 rs2 rs3 : RegIndex} {n : Int}

theorem generateBTypeMachineCode_eq (hlow : -4096 ≤ n) (hhigh : n ≤ 4095)
    (he : mapAt bTypeInstructionEncodingMap u.opcode = .ok e)
    (himm : immediate u.imm = .ok (BitVec.ofInt 32 n))
    (hrs1 : extractRegisterIndex u.rs1 = .ok (rs1.setWidth 32))
    (hrs2 : extractRegisterIndex u.rs2 = .ok (rs2.setWidth 32)) :
    generateBTypeMachineCode u =
      .ok (Instr.bType (BitVec.ofInt 12 (n / 2)) rs2 rs1 e.funct3 e.opcode) := by
  have hhalf : (BitVec.ofInt 12 (n / 2)).toNat = (n / 2 % 2 ^ 12).toNat := by
    rw [BitVec.toNat_ofInt]
    rfl
  have hbits (k len : Nat) (mask : BitVec 32) (hmask : mask.toNat = 2 ^ len - 1) :
      ((BitVec.ofInt 32 n).sshiftRight k &&& mask).toNat =
        (n / (2 ^ k : Nat) % 2 ^ 32).toNat % 2 ^ len := by
    rw [and_toNat _ len mask hmask, sshiftRight_ofInt (by omega) (by omega), BitVec.toNat_ofInt]
    rfl
  generalize hh : BitVec.ofInt 12 (n / 2) = half at hhalf
  have f₁₂ : (BitVec.ofInt 32 n).sshiftRight 12 &&& 0b1 = (half.extractLsb' 11 1).setWidth 32 := by
    apply BitVec.eq_of_toNat_eq
    rw [hbits 12 1 _ (by decide), setWidth_toNat _ (by decide), BitVec.extractLsb'_toNat,
      Nat.shiftRight_eq_div_pow, hhalf]
    omega
  have f₅ : (BitVec.ofInt 32 n).sshiftRight 5 &&& 0b111111 =
      (half.extractLsb' 4 6).setWidth 32 := by
    apply BitVec.eq_of_toNat_eq
    rw [hbits 5 6 _ (by decide), setWidth_toNat _ (by decide), BitVec.extractLsb'_toNat,
      Nat.shiftRight_eq_div_pow, hhalf]
    omega
  have f₁ : (BitVec.ofInt 32 n).sshiftRight 1 &&& 0b1111 = (half.extractLsb' 0 4).setWidth 32 := by
    apply BitVec.eq_of_toNat_eq
    rw [hbits 1 4 _ (by decide), setWidth_toNat _ (by decide), BitVec.extractLsb'_toNat,
      Nat.shiftRight_eq_div_pow, hhalf]
    omega
  have f₁₁ : (BitVec.ofInt 32 n).sshiftRight 11 &&& 0b1 = (half.extractLsb' 10 1).setWidth 32 := by
    apply BitVec.eq_of_toNat_eq
    rw [hbits 11 1 _ (by decide), setWidth_toNat _ (by decide), BitVec.extractLsb'_toNat,
      Nat.shiftRight_eq_div_pow, hhalf]
    omega
  simp only [generateBTypeMachineCode, he, himm, hrs1, hrs2, Loop.bind_ok, f₁₂, f₅, f₁, f₁₁]
  simp (disch := decide) only [or_shiftLeft, or_setWidth]
  exact congrArg Except.ok (BitVec.setWidth_eq _)

theorem generateJTypeMachineCode_eq
    (he : mapAt jTypeInstructionEncodingMap u.opcode = .ok e)
    (himm : immediate u.imm = .ok (BitVec.ofInt 32 n))
    (hrd : extractRegisterIndex u.rd = .ok (rd.setWidth 32)) :
    generateJTypeMachineCode u = .ok (Instr.jType (BitVec.ofInt 20 (n / 2)) rd e.opcode) := by
  have hhalf : (BitVec.ofInt 20 (n / 2)).toNat = (n / 2 % 2 ^ 20).toNat := by
    rw [BitVec.toNat_ofInt]
    rfl
  have himmNat : (BitVec.ofInt 32 n).toNat = (n % 2 ^ 32).toNat := by
    rw [BitVec.toNat_ofInt]
    rfl
  have hbits (low len : Nat) (mask : BitVec 32) (hmask : mask.toNat = (2 ^ len - 1) * 2 ^ low) :
      (BitVec.ofInt 32 n &&& mask).toNat = (n % 2 ^ 32).toNat / 2 ^ low % 2 ^ len * 2 ^ low := by
    rw [BitVec.toNat_and, hmask, and_mask, himmNat]
  generalize hh : BitVec.ofInt 20 (n / 2) = half at hhalf
  have f₂₀ : (BitVec.ofInt 32 n &&& 0x100000) <<< 11 =
      (half.extractLsb' 19 1).setWidth 32 <<< 31 := by
    apply BitVec.eq_of_toNat_eq
    rw [part_toNat half 19 1 31 (by decide) (by decide),
      shiftLeft_toNat 11 (hbits 20 1 _ (by decide)) (by omega), hhalf]
    omega
  have f₁ : (BitVec.ofInt 32 n &&& 0x7FE) <<< 20 = (half.extractLsb' 0 10).setWidth 32 <<< 21 := by
    apply BitVec.eq_of_toNat_eq
    rw [part_toNat half 0 10 21 (by decide) (by decide),
      shiftLeft_toNat 20 (hbits 1 10 _ (by decide)) (by omega), hhalf]
    omega
  have f₁₁ : (BitVec.ofInt 32 n &&& 0x800) <<< 9 = (half.extractLsb' 10 1).setWidth 32 <<< 20 := by
    apply BitVec.eq_of_toNat_eq
    rw [part_toNat half 10 1 20 (by decide) (by decide),
      shiftLeft_toNat 9 (hbits 11 1 _ (by decide)) (by omega), hhalf]
    omega
  have f₁₂ : (BitVec.ofInt 32 n &&& 0xFF000) <<< 0 =
      (half.extractLsb' 11 8).setWidth 32 <<< 12 := by
    apply BitVec.eq_of_toNat_eq
    rw [part_toNat half 11 8 12 (by decide) (by decide),
      shiftLeft_toNat 0 (hbits 12 8 _ (by decide)) (by omega), hhalf]
    omega
  simp only [generateJTypeMachineCode, he, himm, hrd, Loop.bind_ok, f₂₀, f₁, f₁₁, f₁₂]
  simp (disch := decide) only [or_shiftLeft, or_setWidth]
  exact congrArg Except.ok (BitVec.setWidth_eq _)

end CodeGenerator

namespace Layout

open CodeGenerator

variable {l : Layout} {u : ICUnit} {o : Operands}

theorem extractRegisterIndex_name (bank : Bank) (r : RegIndex) :
    extractRegisterIndex (bank.name r) = .ok (r.setWidth 32) := by
  cases bank with
  | gpr => exact extractRegisterIndex_gprName r
  | fpr => exact extractRegisterIndex_fprName r

theorem index_of_isSome {bank : Option Bank} {name : String} {r : RegIndex}
    (hbank : bank.isSome = true) (h : ∀ b ∈ bank, name = b.name r) :
    extractRegisterIndex name = .ok (r.setWidth 32) := by
  obtain ⟨b, hb⟩ := Option.isSome_iff_exists.mp hbank
  rw [h b hb]
  exact extractRegisterIndex_name b r

theorem Reads.immediate {low high : Int} (h : l.Reads u o) (himm : l.imm = some (low, high))
    (hlow : -2147483648 ≤ low) (hhigh : high ≤ 2147483647) :
    CodeGenerator.immediate u.imm = .ok (BitVec.ofInt 32 o.imm) := by
  obtain ⟨htext, hl, hh⟩ := h.imm (low, high) himm
  rw [htext]
  exact immediate_toString (hlow.trans hl) (hh.trans hhigh)

end Layout

namespace CodeGenerator

variable {u : ICUnit} {e : Encoding} {l : Layout} {o : Operands}

theorem encodeRegisters_word {map : List (String × Encoding)} (he : mapAt map u.opcode = .ok e)
    (hrd : l.rd.isSome) (hrs1 : l.rs1.isSome) (hrs2 : l.rs2.isSome) (ho : l.Reads u o) :
    encodeRegisters u map = .ok (Instr.rType e.funct7 o.rs2 o.rs1 e.funct3 o.rd e.opcode) := by
  simp only [encodeRegisters, he, Layout.index_of_isSome hrd ho.rd,
    Layout.index_of_isSome hrs1 ho.rs1, Layout.index_of_isSome hrs2 ho.rs2, Loop.bind_ok, pack_rType]
  rfl

theorem encodeImmediate_word {map : List (String × Encoding)} (he : mapAt map u.opcode = .ok e)
    (hrd : l.rd.isSome) (hrs1 : l.rs1.isSome) (himm : l.imm = some (-2048, 2047))
    (ho : l.Reads u o) :
    encodeImmediate u map =
      .ok (Instr.iType (BitVec.ofInt 12 o.imm) o.rs1 e.funct3 o.rd e.opcode) :=
  encodeImmediate_eq he (ho.immediate himm (by decide) (by decide))
    (Layout.index_of_isSome hrd ho.rd) (Layout.index_of_isSome hrs1 ho.rs1)

theorem encodeStore_word {map : List (String × Encoding)} (he : mapAt map u.opcode = .ok e)
    (hrs1 : l.rs1.isSome) (hrs2 : l.rs2.isSome) (himm : l.imm = some (-2048, 2047))
    (ho : l.Reads u o) :
    encodeStore u map =
      .ok (Instr.sType (BitVec.ofInt 12 o.imm) o.rs2 o.rs1 e.funct3 e.opcode) := by
  obtain ⟨htext, hlow, hhigh⟩ := ho.imm _ himm
  obtain ⟨w, hw, hword⟩ := encodeStore_toNat (hlow.trans' (by decide)) (hhigh.trans (by decide)) he
    htext (Layout.index_of_isSome hrs1 ho.rs1) (Layout.index_of_isSome hrs2 ho.rs2)
  rw [hw]
  refine congrArg Except.ok (BitVec.eq_of_toNat_eq ?_)
  rw [hword, Instr.sType_toNat, BitVec.toNat_ofInt]
  omega

theorem roundingMode_eq (ho : l.Reads u o) : roundingMode u = o.rm.setWidth 32 := by
  have hrm := o.rm.isLt
  rw [roundingMode, ho.rm]
  apply BitVec.eq_of_toNat_eq
  have hmask : (o.rm.setWidth 8 &&& 0b111 : Byte).toNat = o.rm.toNat := by
    rw [BitVec.toNat_and, BitVec.toNat_setWidth]
    change o.rm.toNat % 2 ^ 8 &&& (2 ^ 3 - 1) = _
    rw [Nat.and_two_pow_sub_one_eq_mod]
    omega
  rw [setWidth_toNat _ (by decide), setWidth_toNat _ (by decide), hmask]

theorem csr_field (ho : l.Reads u o) : (u.csr &&& 0xFFF).toNat % 2 ^ 12 = o.csr.toNat := by
  rw [ho.csr, and_toNat _ 12 _ (by decide), setWidth_toNat _ (by decide)]
  omega

/-- The encoder of every format. -/
theorem machineCode_word {f : Format} (hformat : formatOf u.opcode = some f)
    (he : mapAt f.encodings u.opcode = .ok e) (hfits : f.fits l = true) (ho : l.Reads u o) :
    machineCode u = .ok (f.word e o) := by
  unfold machineCode
  rw [hformat]
  cases f <;> simp only [Format.fits, Bool.and_eq_true, beq_iff_eq] at hfits
  case R => exact encodeRegisters_word he hfits.1.1 hfits.1.2 hfits.2 ho
  case RL => exact encodeRegisters_word he hfits.1.1 hfits.1.2 hfits.2 ho
  case FDR => exact encodeRegisters_word he hfits.1.1 hfits.1.2 hfits.2 ho
  case SR => exact encodeStore_word he hfits.1.1 hfits.1.2 hfits.2 ho
  case S => exact encodeStore_word he hfits.1.1 hfits.1.2 hfits.2 ho
  case FDS => exact encodeStore_word he hfits.1.1 hfits.1.2 hfits.2 ho
  case I1 => exact encodeImmediate_word he hfits.1.1 hfits.1.2 hfits.2 ho
  case FDI => exact encodeImmediate_word he hfits.1.1 hfits.1.2 hfits.2 ho
  case I2 =>
    obtain ⟨⟨hrd, hrs1⟩, himm⟩ := hfits
    obtain ⟨-, hlow, hhigh⟩ := ho.imm _ himm
    have hvalue : BitVec.ofInt 32 o.imm = (BitVec.ofInt 6 o.imm).setWidth 32 := by
      apply BitVec.eq_of_toNat_eq
      rw [setWidth_toNat _ (by decide), BitVec.toNat_ofInt, BitVec.toNat_ofInt]
      omega
    refine generateI2TypeMachineCode_eq he ?_ (Layout.index_of_isSome hrd ho.rd)
      (Layout.index_of_isSome hrs1 ho.rs1)
    rw [← hvalue]
    exact ho.immediate himm (by decide) (by decide)
  case I3 =>
    have hop := e.opcode.isLt
    have hfunct3 := e.funct3.isLt
    change generateI3TypeMachineCode u = _
    have he' : mapAt i3TypeInstructionEncodingMap u.opcode = .ok e := he
    simp only [generateI3TypeMachineCode, he', Loop.bind_ok]
    refine congrArg Except.ok (BitVec.eq_of_toNat_eq ?_)
    have s₃ := shiftLeft_toNat 12 (setWidth_toNat e.funct3 (by decide)) (by omega)
    rw [or_toNat 12 s₃ (setWidth_toNat e.opcode (by decide)) (by omega), Format.word,
      Instr.iType_toNat]
    simp
  case B =>
    obtain ⟨⟨hrs1, hrs2⟩, himm⟩ := hfits
    obtain ⟨-, hlow, hhigh⟩ := ho.imm _ himm
    exact generateBTypeMachineCode_eq hlow hhigh he (ho.immediate himm (by decide) (by decide))
      (Layout.index_of_isSome hrs1 ho.rs1) (Layout.index_of_isSome hrs2 ho.rs2)
  case U =>
    exact generateUTypeMachineCode_eq he (ho.immediate hfits.2 (by decide) (by decide))
      (Layout.index_of_isSome hfits.1 ho.rd)
  case J =>
    exact generateJTypeMachineCode_eq he (ho.immediate hfits.2 (by decide) (by decide))
      (Layout.index_of_isSome hfits.1 ho.rd)
  case CSRR =>
    have he' : mapAt csrRTypeInstructionEncodingMap u.opcode = .ok e := he
    simp only [generateCSRRTypeMachineCode, he', Layout.index_of_isSome hfits.1 ho.rd,
      Layout.index_of_isSome hfits.2 ho.rs1, Loop.bind_ok, pack_iType (csr_field ho)]
    rfl
  case CSRI =>
    have he' : mapAt csrITypeInstructionEncodingMap u.opcode = .ok e := he
    have hzimm : BitVec.ofInt 32 o.imm &&& 0b11111 = (BitVec.ofInt 5 o.imm).setWidth 32 := by
      apply BitVec.eq_of_toNat_eq
      rw [and_toNat _ 5 _ (by decide), setWidth_toNat _ (by decide), BitVec.toNat_ofInt,
        BitVec.toNat_ofInt]
      omega
    simp only [generateCSRITypeMachineCode, he', Layout.index_of_isSome hfits.1 ho.rd,
      ho.immediate hfits.2 (by decide) (by decide), Loop.bind_ok, hzimm, pack_iType (csr_field ho)]
    rfl
  case FDR1 =>
    have he' : mapAt fdR1TypeInstructionEncodingMap u.opcode = .ok e := he
    simp only [generateFDR1TypeMachineCode, he', Layout.index_of_isSome hfits.1.1 ho.rd,
      Layout.index_of_isSome hfits.1.2 ho.rs1, Layout.index_of_isSome hfits.2 ho.rs2, Loop.bind_ok,
      roundingMode_eq ho, pack_rType]
    rfl
  case FDR2 =>
    have he' : mapAt fdR2TypeInstructionEncodingMap u.opcode = .ok e := he
    simp only [generateFDR2TypeMachineCode, he', Layout.index_of_isSome hfits.1 ho.rd,
      Layout.index_of_isSome hfits.2 ho.rs1, Loop.bind_ok, roundingMode_eq ho, pack_rType]
    rfl
  case FDR3 =>
    have he' : mapAt fdR3TypeInstructionEncodingMap u.opcode = .ok e := he
    simp only [generateFDR3TypeMachineCode, he', Layout.index_of_isSome hfits.1 ho.rd,
      Layout.index_of_isSome hfits.2 ho.rs1, Loop.bind_ok, pack_rType]
    rfl
  case FDR4 =>
    have he' : mapAt fdR4TypeInstructionEncodingMap u.opcode = .ok e := he
    simp only [generateFDR4TypeMachineCode, he', Layout.index_of_isSome hfits.1.1.1 ho.rd,
      Layout.index_of_isSome hfits.1.1.2 ho.rs1, Layout.index_of_isSome hfits.1.2 ho.rs2,
      Layout.index_of_isSome hfits.2 ho.rs3, Loop.bind_ok, roundingMode_eq ho]
    simp (disch := decide) only [or_shiftLeft, or_setWidth]
    exact congrArg Except.ok (BitVec.setWidth_eq _)

end CodeGenerator

namespace ICUnit

open CodeGenerator

variable {u : ICUnit}

/-- A unit that the parser lets through has an encoding and operands, and its word is made of
them. -/
theorem Good.word {f : Format} (h : u.Good) (hformat : formatOf u.opcode = some f) :
    ∃ e l o, mapAt f.encodings u.opcode = .ok e ∧ (∃ s ∈ syntaxes u.opcode, layout u.opcode s = some l) ∧
      f.fits l = true ∧ l.Reads u o ∧ machineCode u = .ok (f.word e o) := by
  obtain ⟨s, hs, l, hl, hregisters, himm⟩ := h
  obtain ⟨henc, hfits⟩ := format_table f u.opcode (formatOf_mem hformat)
  obtain ⟨e, he⟩ := Option.isSome_iff_exists.mp henc
  have he' : mapAt f.encodings u.opcode = .ok e := by rw [mapAt, he]
  obtain ⟨o, ho⟩ := Layout.reads_of_good hregisters himm
  exact ⟨e, l, o, he', ⟨s, hs, hl⟩, hfits s hs l hl, ho,
    machineCode_word hformat he' (hfits s hs l hl) ho⟩

end ICUnit

namespace Parser

variable {cfg : ParserConfig} {tokens : List Token} {q : Parser} {u : ICUnit} {b : Bool}

theorem UnitAt.good {i : Nat} (h : q.UnitAt i u) : u.Good := by
  cases h with
  | plain h => exact h.good
  | linked _ h _ => exact h

/-- The units of an accepted program, at their indices. -/
theorem Accepts.unitAt (hlexed : LexedTokens tokens) (h : Accepts cfg tokens q) {i : Nat}
    (hu : q.intermediateCode[i]? = some (u, b)) : q.UnitAt i u := by
  obtain ⟨p, r, haccepted⟩ := accepted_of_accepts hlexed h
  exact ((haccepted.code hlexed).1.units i u b hu).resolve_right List.not_mem_nil

theorem Accepts.good (hlexed : LexedTokens tokens) (h : Accepts cfg tokens q)
    (hu : (u, b) ∈ q.intermediateCode) : u.Good := by
  obtain ⟨i, hi⟩ := List.mem_iff_getElem?.mp hu
  exact (h.unitAt hlexed hi).good

end Parser

end RiscvSim
