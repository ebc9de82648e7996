import RiscvSim.BigmulStall
import RiscvSim.HartSteps
import RiscvSim.LdbmLoad

/-! A hart with a multiplier for large numbers: the custom instructions on whole numbers instead
of words. -/

namespace RiscvSim

open Limbs

namespace Memory

variable {m : Memory} {base : Word}

/-- A load of many doublewords at once. -/
theorem load_toNat (m : Memory) (base : Word) (k : Nat) :
    (m.load base (64 * k) (8 * k)).toNat =
      limbValue (2 ^ 64) (fun i => (m.wordAt base i).toNat) k := by
  have hpow (i : Nat) : (2 ^ 64) ^ i = 2 ^ (64 * i) := (pow_mul 2 64 i).symm
  refine eq_limbValue ?_ fun i hi => ?_
  · rw [hpow]
    exact (m.load base (64 * k) (8 * k)).isLt
  · have hword : (m.load base (64 * k) (8 * k)).extractLsb' (64 * i) 64 = m.wordAt base i := by
      refine BitVec.eq_of_getLsbD_eq fun j hj => ?_
      have haddress : base + BitVec.ofNat 64 ((64 * i + j) / 8) =
          base + BitVec.ofNat 64 (8 * i) + BitVec.ofNat 64 (j / 8) := by
        rw [BitVec.add_assoc, ← BitVec.ofNat_add]
        congr 2
        omega
      have hbit : (64 * i + j) % 8 = j % 8 := by omega
      have hlow : 64 * i + j < 64 * k := by omega
      have hbyte : 64 * i + j < 8 * (8 * k) := by omega
      rw [BitVec.getLsbD_extractLsb', getLsbD_load, wordAt, getLsbD_load, haddress, hbit]
      simp [hj, hlow, hbyte]
    rw [← hword, BitVec.extractLsb'_toNat, Nat.shiftRight_eq_div_pow, hpow]

/-- A store of many doublewords at once. -/
theorem storeMany_eq_store {w k : Nat} {word : Nat → Word} {value : BitVec w}
    (h : ∀ i < k, word i = (value >>> (64 * i)).setWidth 64) :
    m.storeMany base word k = m.store base value (8 * k) := by
  refine Memory.ext rfl (funext fun x => ?_)
  simp only [storeMany, store]
  generalize (x - base).toNat = d
  by_cases hd : d < 8 * k
  · rw [if_pos hd, if_pos hd, h (d / 8) (by omega)]
    refine BitVec.eq_of_getLsbD_eq fun j hj => ?_
    have hinner : 8 * (d % 8) + j < 64 := by omega
    have hposition : 64 * (d / 8) + (8 * (d % 8) + j) = 8 * d + j := by omega
    rw [BitVec.getLsbD_setWidth, BitVec.getLsbD_ushiftRight, BitVec.getLsbD_setWidth,
      BitVec.getLsbD_ushiftRight, BitVec.getLsbD_setWidth, BitVec.getLsbD_ushiftRight, hposition]
    simp [hinner]
  · rw [if_neg hd, if_neg hd]

end Memory

/-- A hart whose multiplier holds two numbers, and a clock. -/
@[ext] structure MulHart where
  hart : Hart
  a : Nat
  b : Nat
  clock : BitVec 32

/-- The destination of an LDBM is not used. -/
inductive CustomInstruction where
  | ldbm (rd rs1 rs2 : RegIndex)
  | bigmul (rs1 rs2 : RegIndex)
  deriving DecidableEq, Repr

namespace CustomInstruction

def word : CustomInstruction → Instr
  | .ldbm rd rs1 rs2 => Instr.rType 0 rs2 rs1 0 rd 0b0101010#7
  | .bigmul rs1 rs2 => Instr.sType 0 rs2 rs1 0 0b0111111#7

/-- Where the machine decodes the registers of the instruction: its seven bits for `rs1` take in
two bits of `rs2`. -/
def Conforms : CustomInstruction → Prop
  | .ldbm _ _ rs2 | .bigmul _ rs2 => rs2.toNat % 4 = 0

end CustomInstruction

namespace MulHart

/-- The product of the low `n` doublewords of the operands. -/
def product (h : MulHart) (n : Nat) : Nat := h.a % 2 ^ (64 * n) * (h.b % 2 ^ (64 * n))

/-- A custom instruction; `none` where the unit gives no product or an operand lies outside the
memory. -/
def exec (h : MulHart) : CustomInstruction → Option MulHart
  | .ldbm _ rs1 rs2 =>
    if h.hart.memory.InRange (h.hart.x rs1) 512 ∧ h.hart.memory.InRange (h.hart.x rs2) 512 then
      some
        { hart := h.hart.next
          a := (h.hart.memory.load (h.hart.x rs1) 4096 512).toNat
          b := (h.hart.memory.load (h.hart.x rs2) 4096 512).toNat
          clock := h.clock + 16 }
    else none
  | .bigmul rs1 rs2 =>
    let n := (h.hart.x rs2).toNat
    if (0 < n ∧ n ≤ 64) ∧ h.hart.memory.InRange (h.hart.x rs1) (16 * n) then
      let memory := h.hart.memory.store (h.hart.x rs1) (BitVec.ofNat 8192 (h.product n)) (16 * n)
      some { h with
        hart := { h.hart with memory }.next
        clock := h.clock + BitVec.ofNat 32 (1 + (computeCycles n + writeCycles n)) }
    else none

/-- One step of a program that ends at `size`. -/
inductive Follows (size : Word) : MulHart → MulHart → Prop
  | integer {h : MulHart} {h' : Hart} (hstep : h.hart.Follows size h') :
      Follows size h { h with hart := h', clock := h.clock + 1 }
  | custom {h h' : MulHart} (i : CustomInstruction) (hin : h.hart.pc < size)
      (hrange : h.hart.memory.InRange h.hart.pc 4) (hword : h.hart.memory.load h.hart.pc 32 4 = i.word)
      (hconforms : i.Conforms) (hexec : h.exec i = some h') : Follows size h h'

variable {h h' : MulHart} {rd rs1 rs2 : RegIndex}

theorem exec_ldbm_eq_some_iff : h.exec (.ldbm rd rs1 rs2) = some h' ↔
    (h.hart.memory.InRange (h.hart.x rs1) 512 ∧ h.hart.memory.InRange (h.hart.x rs2) 512) ∧
      h' = ⟨h.hart.next, (h.hart.memory.load (h.hart.x rs1) 4096 512).toNat,
        (h.hart.memory.load (h.hart.x rs2) 4096 512).toNat, h.clock + 16⟩ := by
  rw [exec, Option.ite_none_right_eq_some, Option.some.injEq, eq_comm (a := h')]

theorem exec_bigmul_eq_some_iff {n : Nat} (hn : (h.hart.x rs2).toNat = n) :
    h.exec (.bigmul rs1 rs2) = some h' ↔
      ((0 < n ∧ n ≤ 64) ∧ h.hart.memory.InRange (h.hart.x rs1) (16 * n)) ∧
        h' = { h with
          hart := { h.hart with
            memory := h.hart.memory.store (h.hart.x rs1) (BitVec.ofNat 8192 (h.product n)) (16 * n)
            pc := h.hart.pc + 4 }
          clock := h.clock + BitVec.ofNat 32 (1 + (computeCycles n + writeCycles n)) } := by
  subst hn
  rw [exec, Option.ite_none_right_eq_some, Option.some.injEq, eq_comm (a := h')]
  rfl

theorem Follows.inProgram {size : Word} (hstep : Follows size h h') : h.hart.pc < size := by
  cases hstep with
  | integer hinteger =>
    obtain ⟨i, hfetch, -⟩ := hinteger
    exact (Hart.fetch_eq_some_iff.mp hfetch).1
  | custom i hin => exact hin

end MulHart

end RiscvSim
