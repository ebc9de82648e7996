import Mathlib.Algebra.Group.Nat.Defs
import Mathlib.Data.Nat.Basic

/-! Rounding up to a multiple of an alignment. -/

namespace RiscvSim

def alignUp (a n : Nat) : Nat := n + (a - n % a) % a

namespace Alignment

variable {a n m : Nat}

theorem le_alignUp (a n : Nat) : n ≤ alignUp a n := Nat.le_add_right _ _

theorem alignUp_of_aligned (h : n % a = 0) : alignUp a n = n := by
  simp [alignUp, h]

theorem alignUp_aligned (ha : 0 < a) (n : Nat) : alignUp a n % a = 0 := by
  have hr := Nat.mod_lt n ha
  by_cases h : n % a = 0
  · rw [alignUp_of_aligned h, h]
  · rw [alignUp, Nat.mod_eq_of_lt (by omega : a - n % a < a), Nat.add_mod,
      Nat.mod_eq_of_lt (by omega : a - n % a < a), Nat.add_sub_cancel' (Nat.le_of_lt hr),
      Nat.mod_self]

/-- It is the least multiple that is not smaller. -/
theorem alignUp_le (ha : 0 < a) (hn : n ≤ m) (hm : m % a = 0) : alignUp a n ≤ m := by
  have hr := Nat.mod_lt n ha
  by_cases h : n % a = 0
  · rw [alignUp_of_aligned h]
    exact hn
  · rw [alignUp, Nat.mod_eq_of_lt (by omega : a - n % a < a)]
    have hq : n / a < m / a := by
      by_contra hq
      have h₁ := Nat.div_add_mod n a
      have h₂ := Nat.div_add_mod m a
      have h₃ := Nat.mul_le_mul_left a (Nat.not_lt.mp hq)
      omega
    have h₁ := Nat.div_add_mod n a
    have h₂ := Nat.div_add_mod m a
    have h₃ := Nat.mul_le_mul_left a hq
    rw [Nat.mul_succ] at h₃
    omega

theorem alignUp_mono (ha : 0 < a) (h : n ≤ m) : alignUp a n ≤ alignUp a m :=
  alignUp_le ha (Nat.le_trans h (le_alignUp a m)) (alignUp_aligned ha m)

/-- Nothing changes between a number and its multiple. -/
theorem alignUp_between (ha : 0 < a) (h : n ≤ m) (h' : m ≤ alignUp a n) :
    alignUp a m = alignUp a n :=
  Nat.le_antisymm (alignUp_le ha h' (alignUp_aligned ha n)) (alignUp_mono ha h)

theorem alignUp_alignUp (ha : 0 < a) (n : Nat) : alignUp a (alignUp a n) = alignUp a n :=
  alignUp_of_aligned (alignUp_aligned ha n)

theorem alignUp_mod (h : a ∣ m) (n : Nat) : alignUp a (n % m) % m = alignUp a n % m := by
  rw [alignUp, alignUp, Nat.mod_mod_of_dvd n h, Nat.mod_add_mod]

/-- The usual way to round up a machine word: the sum may wrap, the difference does not. -/
theorem toNat_roundUp {w : Nat} {a : BitVec w} (ha : 0 < a.toNat) (x : BitVec w) :
    (if x % a ≠ 0 then x + (a - x % a) else x).toNat = alignUp a.toNat x.toNat % 2 ^ w := by
  have hzero : x % a = 0 ↔ x.toNat % a.toNat = 0 := by
    rw [← BitVec.toNat_inj, BitVec.toNat_umod]
    exact Iff.rfl
  by_cases h : x.toNat % a.toNat = 0
  · rw [if_neg (not_not.mpr (hzero.mpr h)), alignUp_of_aligned h, Nat.mod_eq_of_lt x.isLt]
  · have hr := Nat.mod_lt x.toNat ha
    have hle : x % a ≤ a := by
      rw [BitVec.le_def, BitVec.toNat_umod]
      exact Nat.le_of_lt hr
    rw [if_pos (mt hzero.mp h), BitVec.toNat_add, BitVec.toNat_sub_of_le hle, BitVec.toNat_umod,
      alignUp, Nat.mod_eq_of_lt (Nat.sub_lt ha (Nat.pos_of_ne_zero h))]

end Alignment

end RiscvSim
