import Mathlib.Algebra.BigOperators.Intervals
import Mathlib.Algebra.BigOperators.Ring.Finset
import Mathlib.Algebra.Order.BigOperators.Group.Finset
import Mathlib.Tactic.Ring
import Mathlib.Tactic.Linarith

/-! Schoolbook multiplication of limb vectors, diagonal by diagonal. A value is
a sum of limbs in base `B`; nothing here depends on the width of a limb. -/

namespace Limbs

open Finset

/-- The number whose first `n` base-`B` limbs, least significant first, are `f`. -/
def limbValue (B : Nat) (f : Nat → Nat) (n : Nat) : Nat :=
  ∑ k ∈ range n, f k * B ^ k

/-- The products `f i * g (s - i)` of diagonal `s` for the indices `lo ≤ i < hi`. -/
def partialDiagonal (f g : Nat → Nat) (s lo hi : Nat) : Nat :=
  ∑ i ∈ Ico lo hi, f i * g (s - i)

/-- The least index of diagonal `s` in an `n` by `n` square. -/
def diagonalStart (n s : Nat) : Nat := s + 1 - n

/-- One past the greatest index of diagonal `s` in an `n` by `n` square. -/
def diagonalStop (n s : Nat) : Nat := min (s + 1) n

def diagonal (f g : Nat → Nat) (n s : Nat) : Nat :=
  partialDiagonal f g s (diagonalStart n s) (diagonalStop n s)

@[simp] theorem limbValue_zero (B : Nat) (f : Nat → Nat) : limbValue B f 0 = 0 := rfl

theorem limbValue_succ (B : Nat) (f : Nat → Nat) (n : Nat) :
    limbValue B f (n + 1) = limbValue B f n + f n * B ^ n :=
  sum_range_succ _ _

theorem limbValue_congr {B n : Nat} {f g : Nat → Nat} (h : ∀ k < n, f k = g k) :
    limbValue B f n = limbValue B g n :=
  sum_congr rfl fun k hk => by rw [h k (mem_range.mp hk)]

theorem limbValue_lt {B : Nat} {f : Nat → Nat} (h : ∀ k, f k < B) (n : Nat) :
    limbValue B f n < B ^ n := by
  induction n with
  | zero => simp
  | succ n ih =>
    have hlow := Nat.mul_le_mul_right (B ^ n) (Nat.succ_le_of_lt (h n))
    rw [Nat.succ_mul] at hlow
    rw [limbValue_succ, pow_succ, Nat.mul_comm (B ^ n)]
    omega

/-- Limbs below the base are determined by their value. -/
theorem limbValue_injective {B n : Nat} {f g : Nat → Nat} (hf : ∀ k, f k < B) (hg : ∀ k, g k < B)
    (h : limbValue B f n = limbValue B g n) : ∀ k < n, f k = g k := by
  induction n with
  | zero => exact fun k hk => absurd hk (Nat.not_lt_zero k)
  | succ n ih =>
    have hpow : 0 < B ^ n := Nat.pow_pos (Nat.zero_lt_of_lt (hf 0))
    have hsplit {c : Nat → Nat} (hc : ∀ k, c k < B) : limbValue B c (n + 1) / B ^ n = c n := by
      rw [limbValue_succ, Nat.add_mul_div_right _ _ hpow, Nat.div_eq_of_lt (limbValue_lt hc n),
        Nat.zero_add]
    have hlast : f n = g n := by rw [← hsplit hf, ← hsplit hg, h]
    intro k hk
    rcases Nat.lt_succ_iff_lt_or_eq.mp hk with hlt | rfl
    · refine ih ?_ k hlt
      rw [limbValue_succ, limbValue_succ, hlast] at h
      exact Nat.add_right_cancel h
    · exact hlast

/-- A number is the value of its digits. -/
theorem eq_limbValue {B N k : Nat} {f : Nat → Nat} (hN : N < B ^ k) (h : ∀ i < k, N / B ^ i % B = f i) : N = limbValue B f k := by
  induction k generalizing N with
  | zero =>
    rw [pow_zero] at hN
    rw [limbValue_zero]
    omega
  | succ k ih =>
    have hB : 0 < B := by
      rcases Nat.eq_zero_or_pos B with rfl | hB
      · simp at hN
      · exact hB
    have hpow : 0 < B ^ k := Nat.pow_pos hB
    have hlast : N / B ^ k = f k := by
      rw [← h k (Nat.lt_succ_self k), Nat.mod_eq_of_lt]
      rw [Nat.div_lt_iff_lt_mul hpow, Nat.mul_comm, ← pow_succ]
      exact hN
    have hlow : N % B ^ k = limbValue B f k := by
      refine ih (Nat.mod_lt N hpow) fun i hi => ?_
      have hsplit : B ^ k = B ^ i * B ^ (k - i) := by rw [← pow_add, Nat.add_sub_of_le hi.le]
      have hdvd : B ∣ B ^ (k - i) := dvd_pow_self B (by omega)
      rw [← h i (Nat.lt_succ_of_lt hi), hsplit, Nat.mod_mul_right_div_self, Nat.mod_mod_of_dvd _ hdvd]
    rw [limbValue_succ, ← hlow, ← hlast, Nat.mul_comm, Nat.mod_add_div]

/-- The low digits of a number. -/
theorem limbValue_mod {B k n : Nat} {f : Nat → Nat} (hf : ∀ i, f i < B) (hk : k ≤ n) :
    limbValue B f n % B ^ k = limbValue B f k := by
  induction n with
  | zero =>
    obtain rfl := Nat.le_zero.mp hk
    simp
  | succ n ih =>
    rcases Nat.lt_or_eq_of_le hk with hlt | rfl
    · have hdvd : B ^ k ∣ f n * B ^ n :=
        Dvd.dvd.mul_left (pow_dvd_pow B (Nat.le_of_lt_succ hlt)) (f n)
      rw [limbValue_succ, Nat.add_mod, Nat.mod_eq_zero_of_dvd hdvd, Nat.add_zero, Nat.mod_mod,
        ih (Nat.le_of_lt_succ hlt)]
    · exact Nat.mod_eq_of_lt (limbValue_lt hf (n + 1))

theorem limbValue_mul_lt {B : Nat} {f g : Nat → Nat} (hf : ∀ k, f k < B) (hg : ∀ k, g k < B)
    (n : Nat) : limbValue B f n * limbValue B g n < B ^ (2 * n) := by
  rw [two_mul, pow_add]
  exact Nat.mul_lt_mul'' (limbValue_lt hf n) (limbValue_lt hg n)

theorem partialDiagonal_self (f g : Nat → Nat) (s a : Nat) : partialDiagonal f g s a a = 0 := by
  simp [partialDiagonal]

theorem partialDiagonal_succ {f g : Nat → Nat} {s a b : Nat} (h : a ≤ b) :
    partialDiagonal f g s a (b + 1) = partialDiagonal f g s a b + f b * g (s - b) :=
  sum_Ico_succ_top h _

theorem partialDiagonal_split {f g : Nat → Nat} {s a b c : Nat} (h : a ≤ b) (h' : b ≤ c) :
    partialDiagonal f g s a c = partialDiagonal f g s a b + partialDiagonal f g s b c :=
  (sum_Ico_consecutive _ h h').symm

theorem partialDiagonal_le {f g : Nat → Nat} {M : Nat} (hf : ∀ i, f i ≤ M) (hg : ∀ i, g i ≤ M)
    (s a b : Nat) : partialDiagonal f g s a b ≤ (b - a) * (M * M) := by
  have hterm : ∀ i ∈ Ico a b, f i * g (s - i) ≤ M * M := fun i _ =>
    Nat.mul_le_mul (hf i) (hg (s - i))
  simpa [partialDiagonal] using sum_le_card_nsmul _ _ _ hterm

theorem diagonal_length (n s : Nat) :
    diagonalStop n s - diagonalStart n s = min (s + 1) (2 * n - 1 - s) := by
  unfold diagonalStop diagonalStart
  omega

/-- A digit of a value whose limbs may exceed the base: the limb and what is carried into it. -/
theorem limbValue_div_mod {B n s : Nat} (f : Nat → Nat) (hB : 0 < B) (h : s < n) :
    limbValue B f n / B ^ s % B = (limbValue B f s / B ^ s + f s) % B := by
  have hpow : 0 < B ^ s := Nat.pow_pos hB
  induction n with
  | zero => exact absurd h (Nat.not_lt_zero s)
  | succ n ih =>
    rw [limbValue_succ]
    rcases Nat.lt_succ_iff_lt_or_eq.mp h with hlt | rfl
    · obtain ⟨d, rfl⟩ : ∃ d, n = s + 1 + d := ⟨n - (s + 1), by omega⟩
      have hterm : f (s + 1 + d) * B ^ (s + 1 + d) = B * (f (s + 1 + d) * B ^ d) * B ^ s := by
        rw [pow_add, pow_add, pow_one]
        ring
      rw [hterm, Nat.add_mul_div_right _ _ hpow, Nat.add_mul_mod_self_left]
      exact ih hlt
    · rw [Nat.add_mul_div_right _ _ hpow]

/-- The pairs of the square on diagonal `s`, listed by their first index. -/
theorem sum_diagonal_eq (B n s : Nat) (f g : Nat → Nat) :
    ∑ p ∈ range n ×ˢ range n with p.1 + p.2 = s, f p.1 * B ^ p.1 * (g p.2 * B ^ p.2) =
      diagonal f g n s * B ^ s := by
  rw [diagonal, partialDiagonal, sum_mul]
  refine sum_nbij' (fun p => p.1) (fun i => (i, s - i)) ?_ ?_ ?_ ?_ ?_
  · intro p hp
    simp only [mem_filter, mem_product, mem_range] at hp
    simp only [diagonalStart, diagonalStop, mem_Ico]
    omega
  · intro i hi
    simp only [diagonalStart, diagonalStop, mem_Ico] at hi
    simp only [mem_filter, mem_product, mem_range]
    omega
  · intro p hp
    simp only [mem_filter, mem_product, mem_range] at hp
    refine Prod.ext rfl ?_
    change s - p.1 = p.2
    omega
  · intro i _
    rfl
  · intro p hp
    simp only [mem_filter] at hp
    have hj : s - p.1 = p.2 := by omega
    rw [hj, ← hp.2, pow_add]
    ring

/-- The product of two `n`-limb numbers is the sum of its diagonals. -/
theorem limbValue_mul (B n : Nat) (f g : Nat → Nat) :
    limbValue B f n * limbValue B g n = limbValue B (diagonal f g n) (2 * n - 1) := by
  have hmaps : ∀ p ∈ range n ×ˢ range n, p.1 + p.2 ∈ range (2 * n - 1) := by
    intro p hp
    simp only [mem_product, mem_range] at hp ⊢
    omega
  calc limbValue B f n * limbValue B g n
      = ∑ p ∈ range n ×ˢ range n, f p.1 * B ^ p.1 * (g p.2 * B ^ p.2) := by
        rw [limbValue, limbValue, sum_mul_sum, ← sum_product']
    _ = ∑ s ∈ range (2 * n - 1), ∑ p ∈ range n ×ˢ range n with p.1 + p.2 = s,
          f p.1 * B ^ p.1 * (g p.2 * B ^ p.2) := (sum_fiberwise_of_maps_to hmaps _).symm
    _ = limbValue B (diagonal f g n) (2 * n - 1) :=
        sum_congr rfl fun s _ => sum_diagonal_eq B n s f g

/-- Emitting the low limb of an accumulator and shifting the rest down keeps the
value of the limbs and the accumulator together. -/
theorem limbValue_emit {B s acc : Nat} {out out' : Nat → Nat}
    (hlow : out' s = acc % B) (hsame : ∀ k < s, out' k = out k) :
    limbValue B out' (s + 1) + acc / B * B ^ (s + 1) = limbValue B out s + acc * B ^ s := by
  rw [limbValue_succ, limbValue_congr hsame, hlow, pow_succ]
  calc limbValue B out s + acc % B * B ^ s + acc / B * (B ^ s * B)
      = limbValue B out s + (acc % B + B * (acc / B)) * B ^ s := by ring
    _ = limbValue B out s + acc * B ^ s := by rw [Nat.mod_add_div]

theorem carry_eq_zero {v c P : Nat} (h : v + c * P < P) : c = 0 := by
  by_contra hne
  have := Nat.le_mul_of_pos_left P (Nat.pos_of_ne_zero hne)
  omega

/-- The carry out of a diagonal of at most `L` products stays below `L * B`. -/
theorem carry_le {B L acc : Nat} (hB : 0 < B)
    (h : acc ≤ L * B + L * ((B - 1) * (B - 1))) : acc / B ≤ L * B := by
  obtain ⟨b, rfl⟩ : ∃ b, B = b + 1 := ⟨B - 1, by omega⟩
  apply Nat.div_le_of_le_mul
  calc acc ≤ L * (b + 1) + L * (b * b) := h
    _ ≤ (b + 1) * (L * (b + 1)) := by nlinarith [Nat.zero_le (L * b)]

end Limbs
