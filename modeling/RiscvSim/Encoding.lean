import RiscvSim.CodeGenerator
import RiscvSim.Instructions

/-! The instruction words of the encoders as sums of their fields. -/

namespace RiscvSim

namespace Instr

theorem field_toNat (w : Instr) (low len : Nat) :
    (field w low len).toNat = w.toNat / 2 ^ low % 2 ^ len := by
  rw [field, BitVec.extractLsb'_toNat, Nat.shiftRight_eq_div_pow]

end Instr

/-- An `or` into the free low bits of a word is a sum. -/
theorem or_toNat {x y : BitVec 32} {a b : Nat} (k : Nat) (hx : x.toNat = a * 2 ^ k)
    (hy : y.toNat = b) (hb : b < 2 ^ k) : (x ||| y).toNat = a * 2 ^ k + b := by
  rw [BitVec.toNat_or, hx, hy, ← Nat.shiftLeft_eq, Nat.shiftLeft_add_eq_or_of_lt hb]

theorem shiftLeft_toNat {x : BitVec 32} {a : Nat} (k : Nat) (hx : x.toNat = a)
    (ha : a * 2 ^ k < 2 ^ 32) : (x <<< k).toNat = a * 2 ^ k := by
  rw [BitVec.toNat_shiftLeft, hx, Nat.shiftLeft_eq, Nat.mod_eq_of_lt ha]

theorem setWidth_toNat {n : Nat} (x : BitVec n) (hn : n ≤ 32) : (x.setWidth 32).toNat = x.toNat :=
  BitVec.toNat_setWidth_of_le hn

/-- Six fields side by side, from the highest to the lowest. -/
theorem pack_toNat {f₆ f₅ f₄ f₃ f₂ f₁ : BitVec 32} (h₆ : f₆.toNat < 2 ^ 7) (h₅ : f₅.toNat < 2 ^ 5)
    (h₄ : f₄.toNat < 2 ^ 5) (h₃ : f₃.toNat < 2 ^ 3) (h₂ : f₂.toNat < 2 ^ 5)
    (h₁ : f₁.toNat < 2 ^ 7) :
    (f₆ <<< 25 ||| f₅ <<< 20 ||| f₄ <<< 15 ||| f₃ <<< 12 ||| f₂ <<< 7 ||| f₁).toNat =
      f₆.toNat * 2 ^ 25 + f₅.toNat * 2 ^ 20 + f₄.toNat * 2 ^ 15 + f₃.toNat * 2 ^ 12 +
        f₂.toNat * 2 ^ 7 + f₁.toNat := by
  have s₆ := shiftLeft_toNat 25 (x := f₆) rfl (by omega)
  have s₅ := shiftLeft_toNat 20 (x := f₅) rfl (by omega)
  have s₄ := shiftLeft_toNat 15 (x := f₄) rfl (by omega)
  have s₃ := shiftLeft_toNat 12 (x := f₃) rfl (by omega)
  have s₂ := shiftLeft_toNat 7 (x := f₂) rfl (by omega)
  have o₅ := or_toNat 25 s₆ s₅ (by omega)
  have o₄ := or_toNat (a := f₆.toNat * 2 ^ 5 + f₅.toNat) 20 (by rw [o₅]; omega) s₄ (by omega)
  have o₃ := or_toNat (a := f₆.toNat * 2 ^ 10 + f₅.toNat * 2 ^ 5 + f₄.toNat) 15
    (by rw [o₄]; omega) s₃ (by omega)
  have o₂ := or_toNat (a := f₆.toNat * 2 ^ 13 + f₅.toNat * 2 ^ 8 + f₄.toNat * 2 ^ 3 + f₃.toNat) 12
    (by rw [o₃]; omega) s₂ (by omega)
  have o₁ := or_toNat (y := f₁) (a := f₆.toNat * 2 ^ 18 + f₅.toNat * 2 ^ 13 + f₄.toNat * 2 ^ 8 +
    f₃.toNat * 2 ^ 5 + f₂.toNat) 7 (by rw [o₂]; omega) rfl (by omega)
  rw [o₁]
  omega

namespace CodeGenerator

theorem extractRegisterIndex_append {bank : String} {c : Char} (hbank : bank.toList = [c])
    (r : RegIndex) : extractRegisterIndex (bank ++ Nat.repr r.toNat) = .ok (r.setWidth 32) := by
  have htext : (bank ++ Nat.repr r.toNat).toList = c :: (Nat.repr r.toNat).toList := by
    rw [String.toList_append, hbank]
    rfl
  have hvalue : stoi (String.ofList (Nat.repr r.toNat).toList) = .ok (r.toNat : Int) := by
    rw [String.ofList_toList, stoi, stoRange, Decimal.value_repr]
    simp only
    rw [if_pos (by omega)]
  have hindex : BitVec.ofInt 32 (r.toNat : Int) = r.setWidth 32 := by
    apply BitVec.eq_of_toNat_eq
    simp
  unfold extractRegisterIndex
  rw [htext]
  simp only [hvalue, Loop.bind_ok, hindex]
  rfl

theorem extractRegisterIndex_gprName (r : RegIndex) :
    extractRegisterIndex (gprName r) = .ok (r.setWidth 32) :=
  extractRegisterIndex_append (c := 'x') (by decide) r

theorem extractRegisterIndex_fprName (r : RegIndex) :
    extractRegisterIndex (fprName r) = .ok (r.setWidth 32) :=
  extractRegisterIndex_append (c := 'f') (by decide) r

theorem immediate_toString {n : Int} (hlow : -2147483648 ≤ n) (hhigh : n ≤ 2147483647) :
    immediate (toString n) = .ok (BitVec.ofInt 32 n) := by
  rw [immediate, stoi, stoRange, Decimal.value_toString]
  simp only
  rw [if_pos ⟨hlow, hhigh⟩]
  rfl

section

variable {block : ICUnit} {map : List (String × InstructionSet.Encoding)}
  {e : InstructionSet.Encoding} {rd rs1 rs2 : RegIndex}

theorem encodeRegisters_toNat (he : mapAt map block.opcode = .ok e)
    (hrd : extractRegisterIndex block.rd = .ok (rd.setWidth 32))
    (hrs1 : extractRegisterIndex block.rs1 = .ok (rs1.setWidth 32))
    (hrs2 : extractRegisterIndex block.rs2 = .ok (rs2.setWidth 32)) :
    ∃ w, encodeRegisters block map = .ok w ∧
      w.toNat = e.funct7.toNat * 2 ^ 25 + rs2.toNat * 2 ^ 20 + rs1.toNat * 2 ^ 15 +
        e.funct3.toNat * 2 ^ 12 + rd.toNat * 2 ^ 7 + e.opcode.toNat := by
  simp only [encodeRegisters, he, hrd, hrs1, hrs2, Loop.bind_ok]
  refine ⟨_, rfl, ?_⟩
  rw [pack_toNat] <;> simp only [setWidth_toNat _ (by decide : 5 ≤ 32),
    setWidth_toNat _ (by decide : 7 ≤ 32), setWidth_toNat _ (by decide : 3 ≤ 32)] <;> omega

theorem encodeStore_toNat {n : Int} (hlow : -2147483648 ≤ n) (hhigh : n ≤ 2147483647)
    (he : mapAt map block.opcode = .ok e) (himm : block.imm = toString n)
    (hrs1 : extractRegisterIndex block.rs1 = .ok (rs1.setWidth 32))
    (hrs2 : extractRegisterIndex block.rs2 = .ok (rs2.setWidth 32)) :
    ∃ w, encodeStore block map = .ok w ∧
      w.toNat = (n / 32 % 128).toNat * 2 ^ 25 + rs2.toNat * 2 ^ 20 + rs1.toNat * 2 ^ 15 +
        e.funct3.toNat * 2 ^ 12 + (n % 32).toNat * 2 ^ 7 + e.opcode.toNat := by
  have himmNat : (BitVec.ofInt 32 n).toNat = (n % 2 ^ 32).toNat := by
    rw [BitVec.toNat_ofInt]
    rfl
  have hlo : (BitVec.ofInt 32 n &&& 0b11111).toNat = (n % 32).toNat := by
    change ((BitVec.ofInt 32 n).toNat &&& (2 ^ 5 - 1)) = _
    rw [Nat.and_two_pow_sub_one_eq_mod, himmNat]
    omega
  have hhi : ((BitVec.ofInt 32 n >>> 5) &&& 0b1111111).toNat = (n / 32 % 128).toNat := by
    change ((BitVec.ofInt 32 n >>> 5).toNat &&& (2 ^ 7 - 1)) = _
    rw [Nat.and_two_pow_sub_one_eq_mod, BitVec.toNat_ushiftRight, himmNat,
      Nat.shiftRight_eq_div_pow]
    omega
  simp only [encodeStore, he, himm, immediate_toString hlow hhigh, hrs1, hrs2, Loop.bind_ok]
  refine ⟨_, rfl, ?_⟩
  rw [pack_toNat] <;> simp only [setWidth_toNat _ (by decide : 5 ≤ 32), hlo, hhi,
    setWidth_toNat _ (by decide : 7 ≤ 32), setWidth_toNat _ (by decide : 3 ≤ 32)] <;> omega

end

end CodeGenerator

end RiscvSim
