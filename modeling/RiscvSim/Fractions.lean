import Mathlib.Data.Rat.Floor
import Mathlib.Tactic.FieldSimp
import Mathlib.Tactic.Linarith
import Mathlib.Tactic.Positivity
import Mathlib.Tactic.Ring
import RiscvSim.Decimal

/-! Decimal text of fractions: the fixed-point form, and the value that a conversion reads from the
front of a text with a point or an exponent. -/

namespace Decimal

/-- An exponent after its letter; without digits it is zero. -/
def signedDigits : List Char → Int
  | '-' :: cs => -((digits cs).getD 0 : Int)
  | '+' :: cs => (digits cs).getD 0
  | cs => (digits cs).getD 0

def exponent : List Char → Int
  | 'e' :: cs | 'E' :: cs => signedDigits cs
  | _ => 0

/-- The digits after the point. -/
def fraction : List Char → List Char
  | '.' :: cs => cs.takeWhile Char.isDigit
  | _ => []

def afterFraction : List Char → List Char
  | '.' :: cs => cs.dropWhile Char.isDigit
  | cs => cs

/-- Digits with an optional point and an optional exponent; what follows is not read. -/
def magnitude (cs : List Char) : Option ℚ :=
  let whole := cs.takeWhile Char.isDigit
  let rest := cs.dropWhile Char.isDigit
  if whole ++ fraction rest = [] then none
  else some (Nat.ofDigitChars 10 (whole ++ fraction rest) 0 *
    10 ^ (exponent (afterFraction rest) - (fraction rest).length))

/-- White space, an optional sign and a magnitude. -/
def signed (s : String) : Option (Bool × ℚ) :=
  match s.toList.dropWhile isSpace with
  | '-' :: cs => (magnitude cs).map fun x => (true, x)
  | '+' :: cs => (magnitude cs).map fun x => (false, x)
  | cs => (magnitude cs).map fun x => (false, x)

def withSign (negative : Bool) (x : ℚ) : ℚ := if negative then -x else x

/-- The number that a text denotes. -/
def rational (s : String) : Option ℚ := (signed s).map fun a => withSign a.1 a.2

/-- A number below `10 ^ n` in `n` digits. -/
def padded (n k : Nat) : List Char :=
  List.replicate (n - (Nat.toDigits 10 k).length) '0' ++ Nat.toDigits 10 k

/-- The number `k / 10 ^ n` with `n` digits after the point. -/
def fixed (n : Nat) (negative : Bool) (k : Nat) : String :=
  String.ofList ((if negative then ['-'] else []) ++
    (Nat.toDigits 10 (k / 10 ^ n) ++ '.' :: padded n (k % 10 ^ n)))

/-- Of the neighbours `n` and `n + 1` in an order, with `x` between their values, the closer one,
and the even one if both are as close. -/
def closer (x lower upper : ℚ) (n : Nat) : Nat :=
  if x - lower < upper - x ∨ x - lower = upper - x ∧ n % 2 = 0 then n else n + 1

def roundEven (x : ℚ) : Nat := closer x ⌊x⌋₊ (⌊x⌋₊ + 1) ⌊x⌋₊

theorem closer_lower {lower upper : ℚ} (h : lower < upper) (n : Nat) :
    closer lower lower upper n = n := by
  rw [closer, if_pos]
  left
  rw [sub_self]
  exact sub_pos.mpr h

theorem roundEven_natCast (n : Nat) : roundEven n = n := by
  rw [roundEven, Nat.floor_natCast]
  exact closer_lower (lt_add_one _) n

/-- Rounding is exact only for integers. -/
theorem roundEven_eq_iff {x : ℚ} : (roundEven x : ℚ) = x ↔ ∃ n : Nat, x = n := by
  constructor
  · intro h
    exact ⟨_, h.symm⟩
  · rintro ⟨n, rfl⟩
    rw [roundEven_natCast]

section

variable {n k : Nat} {cs : List Char}

theorem padded_digits {c : Char} (h : c ∈ padded n k) : c.isDigit = true := by
  rcases List.mem_append.mp h with h | h
  · rw [List.eq_of_mem_replicate h]
    rfl
  · exact Nat.isDigit_of_mem_toDigits (by omega) (by omega) h

theorem padded_length (hn : 0 < n) (hk : k < 10 ^ n) : (padded n k).length = n := by
  have hlength : (Nat.toDigits 10 k).length ≤ n :=
    (Nat.length_toDigits_le_iff (by omega) hn).mpr hk
  rw [padded, List.length_append, List.length_replicate]
  omega

theorem ofDigitChars_padded (init : Nat) (hn : 0 < n) (hk : k < 10 ^ n) :
    Nat.ofDigitChars 10 (padded n k) init = 10 ^ n * init + k := by
  rw [Nat.ofDigitChars_eq_ofDigitChars_zero, padded_length hn hk, padded, Nat.ofDigitChars_append,
    Nat.ofDigitChars_replicate_zero, Nat.mul_zero, Nat.ofDigitChars_toDigits (by omega) (by omega)]

theorem magnitude_nonneg {x : ℚ} (h : magnitude cs = some x) : 0 ≤ x := by
  unfold magnitude at h
  dsimp only at h
  split at h
  · cases h
  · rw [← Option.some.inj h]
    exact mul_nonneg (Nat.cast_nonneg _) (zpow_nonneg (by norm_num) _)

theorem signed_nonneg {s : String} {a : Bool × ℚ} (h : signed s = some a) : 0 ≤ a.2 := by
  unfold signed at h
  split at h
  all_goals
    obtain ⟨x, hx, rfl⟩ := Option.map_eq_some_iff.mp h
    exact magnitude_nonneg hx

/-- Two magnitudes with signs are the same number only if they are the same magnitude. -/
theorem withSign_injective {x y : ℚ} (hx : 0 ≤ x) (hy : 0 ≤ y) {a b : Bool}
    (h : withSign a x = withSign b y) : x = y := by
  have habs (z : ℚ) (hz : 0 ≤ z) (negative : Bool) : |withSign negative z| = z := by
    cases negative with
    | true => exact (abs_neg z).trans (abs_of_nonneg hz)
    | false => exact abs_of_nonneg hz
  rw [← habs x hx a, h, habs y hy b]

/-- The fixed-point form without its sign. -/
theorem magnitude_fixed (hn : 0 < n) :
    magnitude (Nat.toDigits 10 (k / 10 ^ n) ++ '.' :: padded n (k % 10 ^ n)) =
      some ((k : ℚ) / 10 ^ n) := by
  have hwhole : ∀ c ∈ Nat.toDigits 10 (k / 10 ^ n), c.isDigit = true := fun c hc =>
    Nat.isDigit_of_mem_toDigits (by omega) (by omega) hc
  have hlt : k % 10 ^ n < 10 ^ n := Nat.mod_lt _ (by positivity)
  have htake : (padded n (k % 10 ^ n)).takeWhile Char.isDigit = padded n (k % 10 ^ n) :=
    List.takeWhile_eq_self_iff.mpr fun c hc => padded_digits hc
  have hdrop : (padded n (k % 10 ^ n)).dropWhile Char.isDigit = [] :=
    List.dropWhile_eq_nil_iff.mpr fun c hc => padded_digits hc
  have hpoint : ¬ Char.isDigit '.' = true := by decide
  have hstart : (Nat.toDigits 10 (k / 10 ^ n) ++ '.' :: padded n (k % 10 ^ n)).takeWhile
      Char.isDigit = Nat.toDigits 10 (k / 10 ^ n) := by
    rw [List.takeWhile_append_of_pos hwhole, List.takeWhile_cons_of_neg hpoint, List.append_nil]
  have hrest : (Nat.toDigits 10 (k / 10 ^ n) ++ '.' :: padded n (k % 10 ^ n)).dropWhile
      Char.isDigit = '.' :: padded n (k % 10 ^ n) := by
    rw [List.dropWhile_append_of_pos hwhole, List.dropWhile_cons_of_neg hpoint]
  have hvalue : Nat.ofDigitChars 10 (Nat.toDigits 10 (k / 10 ^ n) ++ padded n (k % 10 ^ n)) 0 =
      k := by
    rw [Nat.ofDigitChars_append, Nat.ofDigitChars_toDigits (by omega) (by omega),
      ofDigitChars_padded _ hn hlt, Nat.div_add_mod]
  rw [magnitude, hstart, hrest]
  simp only [fraction, afterFraction, htake, hdrop, exponent, padded_length hn hlt, hvalue]
  rw [if_neg (by simp [Nat.toDigits_ne_nil]), zero_sub, zpow_neg, zpow_natCast, div_eq_mul_inv]

/-- The fixed-point form reads as the number it was made for. -/
theorem signed_fixed (hn : 0 < n) (negative : Bool) :
    signed (fixed n negative k) = some (negative, (k : ℚ) / 10 ^ n) := by
  rw [signed, fixed, String.toList_ofList]
  cases negative with
  | true =>
    rw [if_pos rfl, List.cons_append, List.dropWhile_cons_of_neg (by decide)]
    simp only [List.nil_append, magnitude_fixed hn]
    rfl
  | false =>
    have hmagnitude := magnitude_fixed (k := k) hn
    have hall : ∀ c ∈ Nat.toDigits 10 (k / 10 ^ n), c.isDigit = true := fun c hc =>
      Nat.isDigit_of_mem_toDigits (by omega) (by omega) hc
    rw [if_neg (by decide), List.nil_append]
    cases hlist : Nat.toDigits 10 (k / 10 ^ n) with
    | nil => exact absurd hlist Nat.toDigits_ne_nil
    | cons c cs =>
      rw [hlist] at hmagnitude hall
      obtain ⟨hspace, hminus, hplus⟩ := digit_plain (hall c List.mem_cons_self)
      rw [List.cons_append, List.dropWhile_cons_of_neg (by simp [hspace])]
      split
      · rename_i heq
        injection heq with heq
        exact absurd heq hminus
      · rename_i heq
        injection heq with heq
        exact absurd heq hplus
      · rw [← List.cons_append, hmagnitude]
        rfl

end

end Decimal
