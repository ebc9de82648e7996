import RiscvSim.Fractions

/-! Finite double-precision numbers. Without its sign bit a number is its place in the order of
all magnitudes, so that rounding looks for a place in this order. -/

/-- The magnitude at a place, in units of the smallest one: a fraction of 52 bits below an
exponent, with a leading one unless the exponent is zero. -/
def Binary64.scaled (place : Nat) : Nat :=
  if place / 2 ^ 52 = 0 then place
  else (2 ^ 52 + place % 2 ^ 52) * 2 ^ (place / 2 ^ 52 - 1)

/-- The place after that of the last finite number. -/
def Binary64.infinity : Nat := 2047 * 2 ^ 52

structure Binary64 where
  negative : Bool
  place : Nat
  finite : place < Binary64.infinity
  deriving DecidableEq, Repr

namespace Binary64

def bits (d : Binary64) : BitVec 64 :=
  BitVec.ofNat 64 (d.place + if d.negative then 2 ^ 63 else 0)

def magnitude (d : Binary64) : ℚ := scaled d.place / 2 ^ 1074

def toRat (d : Binary64) : ℚ := Decimal.withSign d.negative d.magnitude

/-- The last place whose magnitude is at most `n`. -/
def below (n : Nat) : Nat := (n.log2 - 52) * 2 ^ 52 + n / 2 ^ (n.log2 - 52)

/-- The place of the nearest magnitude, the even one of two that are as near. -/
def nearest (x : ℚ) : Nat :=
  let place := below ⌊x⌋₊
  Decimal.closer x (scaled place) (scaled (place + 1)) place

def Representable (x : ℚ) : Prop := ∃ d : Binary64, d.toRat = x

theorem scaled_lt_succ (n : Nat) : scaled n < scaled (n + 1) := by
  unfold scaled
  by_cases hlast : n % 2 ^ 52 = 2 ^ 52 - 1
  · have hdiv : (n + 1) / 2 ^ 52 = n / 2 ^ 52 + 1 := by omega
    have hmod : (n + 1) % 2 ^ 52 = 0 := by omega
    rw [hdiv, hmod, hlast, if_neg (Nat.succ_ne_zero _), Nat.add_sub_cancel]
    by_cases hzero : n / 2 ^ 52 = 0
    · rw [if_pos hzero, hzero]
      omega
    · obtain ⟨k, hk⟩ := Nat.exists_eq_succ_of_ne_zero hzero
      rw [if_neg hzero, hk, Nat.succ_sub_one, Nat.succ_eq_add_one, pow_succ' 2 k, ← Nat.mul_assoc]
      exact Nat.mul_lt_mul_of_pos_right (by omega) (by positivity)
  · have hdiv : (n + 1) / 2 ^ 52 = n / 2 ^ 52 := by omega
    have hmod : (n + 1) % 2 ^ 52 = n % 2 ^ 52 + 1 := by omega
    rw [hdiv, hmod]
    by_cases hzero : n / 2 ^ 52 = 0
    · rw [if_pos hzero, if_pos hzero]
      exact Nat.lt_succ_self n
    · rw [if_neg hzero, if_neg hzero]
      exact Nat.mul_lt_mul_of_pos_right (by omega) (by positivity)

/-- The place of a magnitude is found again. -/
theorem below_scaled (n : Nat) : below (scaled n) = n := by
  unfold scaled
  by_cases hzero : n / 2 ^ 52 = 0
  · have hlog : n.log2 - 52 = 0 := by
      have hlt : n < 2 ^ 52 := by omega
      by_cases hn : n = 0
      · rw [hn]
        rfl
      · have := (Nat.log2_lt hn).mpr hlt
        omega
    rw [if_pos hzero, below, hlog]
    omega
  · have hlog : ((2 ^ 52 + n % 2 ^ 52) * 2 ^ (n / 2 ^ 52 - 1)).log2 =
        52 + (n / 2 ^ 52 - 1) := by
      rw [Nat.log2_eq_iff (by positivity)]
      have hlt : n % 2 ^ 52 < 2 ^ 52 := Nat.mod_lt _ (by positivity)
      constructor
      · rw [Nat.pow_add]
        exact Nat.mul_le_mul_right _ (by omega)
      · rw [show 52 + (n / 2 ^ 52 - 1) + 1 = 53 + (n / 2 ^ 52 - 1) by omega, Nat.pow_add]
        exact Nat.mul_lt_mul_of_pos_right (by omega) (by positivity)
    rw [if_neg hzero, below, hlog, Nat.add_sub_cancel_left,
      Nat.mul_div_cancel _ (by positivity)]
    omega

/-- A magnitude is its own nearest one. -/
theorem nearest_scaled (n : Nat) : nearest (scaled n) = n := by
  rw [nearest, Nat.floor_natCast, below_scaled]
  exact Decimal.closer_lower (Nat.cast_lt.mpr (scaled_lt_succ n)) n

end Binary64
