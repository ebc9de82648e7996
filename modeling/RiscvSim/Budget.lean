import RiscvSim.Loop
import Mathlib.Data.BitVec

/-! Loops that count some of their turns in a machine counter and compare it with a limit
at the head of each turn. -/

namespace Loop

variable {ε σ : Type}

/-- The states that a loop reaches, with the number of the counted turns before them. -/
inductive Counted (turn : σ → Except ε (ForInStep σ)) (counts : σ → Bool) (s : σ) :
    Nat → σ → Prop where
  | start : Counted turn counts s 0 s
  | skip {n : Nat} {t u : σ} (h : Counted turn counts s n t) (hturn : turn t = .ok (.yield u))
      (hcounts : counts t = false) : Counted turn counts s n u
  | count {n : Nat} {t u : σ} (h : Counted turn counts s n t) (hturn : turn t = .ok (.yield u))
      (hcounts : counts t = true) : Counted turn counts s (n + 1) u

namespace Counted

variable {turn : σ → Except ε (ForInStep σ)} {counts : σ → Bool} {s t u : σ} {n : Nat}

theorem yield (h : Counted turn counts s n t) (hturn : turn t = .ok (.yield u)) :
    Counted turn counts s (if counts t then n + 1 else n) u := by
  cases hcounts : counts t with
  | true => exact .count h hturn hcounts
  | false => exact .skip h hturn hcounts

theorem of_run {k : Nat} {t : σ} (h : Counted turn counts s n t)
    (hrun : run turn k t = .ok (.yield u)) : ∃ m, Counted turn counts s m u := by
  induction k generalizing n t with
  | zero =>
    obtain rfl : t = u := ForInStep.yield.inj (Except.ok.inj hrun)
    exact ⟨n, h⟩
  | succ k ih =>
    cases hturn : turn t with
    | error e =>
      rw [run_succ_error hturn] at hrun
      cases hrun
    | ok r =>
      cases r with
      | done v =>
        rw [run_succ_done hturn] at hrun
        cases hrun
      | yield v =>
        rw [run_succ_yield hturn] at hrun
        exact ih (h.yield hturn) hrun

/-- The states of the counted runs are those of the runs. -/
theorem exists_iff : (∃ n, Counted turn counts s n t) ↔ ∃ k, run turn k s = .ok (.yield t) := by
  constructor
  · rintro ⟨n, h⟩
    induction h with
    | start => exact ⟨0, rfl⟩
    | skip _ hturn _ ih | count _ hturn _ ih =>
      obtain ⟨k, hk⟩ := ih
      exact ⟨k + 1, by rw [run_add hk, run_succ_yield hturn]; rfl⟩
  · rintro ⟨k, hk⟩
    exact of_run .start hk

/-- A property that turns without a count keep, seen back at the counted turn. -/
theorem last_of {P : σ → Prop} (hback : ∀ t u, counts t = false → turn t = .ok (.yield u) → P u → P t)
    (h : Counted turn counts s (n + 1) t) (ht : P t) :
    ∃ p q, Counted turn counts s n p ∧ counts p = true ∧ turn p = .ok (.yield q) ∧ P q := by
  generalize hm : n + 1 = m at h
  induction h with
  | start => cases hm
  | skip _ hturn hcounts ih => exact ih (hback _ _ hcounts hturn ht) hm
  | count h hturn hcounts _ =>
    cases hm
    exact ⟨_, _, h, hcounts, hturn, ht⟩

/-- Before a counted turn the loop has counted each smaller number. -/
theorem earlier {m : Nat} (h : Counted turn counts s n t) (hm : m ≤ n) :
    ∃ u, Counted turn counts s m u := by
  induction n generalizing t with
  | zero =>
    obtain rfl : m = 0 := by omega
    exact ⟨t, h⟩
  | succ n ih =>
    by_cases heq : m = n + 1
    · exact heq ▸ ⟨t, h⟩
    · obtain ⟨p, -, hp, -⟩ := h.last_of (P := fun _ => True) (fun _ _ _ _ _ => trivial) trivial
      exact ih hp (by omega)

end Counted

/-- The loop goes round as `free` does while its counter is not above the limit. -/
def Budget {w : Nat} (turn : σ × BitVec w → Except ε (ForInStep (σ × BitVec w)))
    (free : σ → Except ε (ForInStep σ)) (counts : σ → Bool) (limit : BitVec w) : Prop :=
  ∀ s t i j, turn (s, i) = .ok (.yield (t, j)) ↔
    i ≤ limit ∧ free s = .ok (.yield t) ∧ j = if counts s then i + 1 else i

namespace Budget

variable {w : Nat} {turn : σ × BitVec w → Except ε (ForInStep (σ × BitVec w))}
  {free : σ → Except ε (ForInStep σ)} {counts : σ → Bool} {limit : BitVec w} {s t : σ}
  {i : BitVec w} {n : Nat}

/-- The runs of a loop with a counter that starts at zero. -/
abbrev Reaches (turn : σ × BitVec w → Except ε (ForInStep (σ × BitVec w))) (counts : σ → Bool)
    (s : σ) : Nat → σ × BitVec w → Prop :=
  Counted turn (fun r => counts r.1) (s, 0)

theorem counter (h : Budget turn free counts limit) {r : σ × BitVec w}
    (hr : Reaches turn counts s n r) : r.2 = BitVec.ofNat w n ∧ Counted free counts s n r.1 := by
  induction hr with
  | start => exact ⟨rfl, .start⟩
  | skip _ hturn hcounts ih =>
    obtain ⟨-, hfree, hj⟩ := (h _ _ _ _).mp hturn
    rw [if_neg (by simp [hcounts])] at hj
    exact ⟨hj.trans ih.1, .skip ih.2 hfree hcounts⟩
  | count _ hturn hcounts ih =>
    obtain ⟨-, hfree, hj⟩ := (h _ _ _ _).mp hturn
    rw [if_pos hcounts] at hj
    refine ⟨?_, .count ih.2 hfree hcounts⟩
    rw [hj, ih.1, BitVec.ofNat_add]
    rfl

/-- Up to the limit the loop does what it does without one. -/
theorem of_free (h : Budget turn free counts limit) (hs : Counted free counts s n t)
    (hn : n ≤ limit.toNat) : Reaches turn counts s n (t, BitVec.ofNat w n) := by
  have hle {n : Nat} (hn : n ≤ limit.toNat) : BitVec.ofNat w n ≤ limit := by
    rw [BitVec.le_def, BitVec.toNat_ofNat, Nat.mod_eq_of_lt (by have := limit.isLt; omega)]
    exact hn
  induction hs with
  | start => exact .start
  | @skip n p q _ hturn hcounts ih =>
    refine .skip (ih hn) ((h _ _ _ _).mpr ⟨hle hn, hturn, ?_⟩) hcounts
    rw [if_neg (by simp [hcounts])]
  | @count n p q _ hturn hcounts ih =>
    refine .count (ih (by omega)) ((h _ _ _ _).mpr ⟨hle (by omega), hturn, ?_⟩) hcounts
    rw [if_pos hcounts, BitVec.ofNat_add]
    rfl

/-- The loop makes one counted turn more than its limit allows, if it can. -/
theorem of_free_succ (h : Budget turn free counts limit) {P : σ → Prop}
    (hback : ∀ t u, counts t = false → free t = .ok (.yield u) → P u → P t)
    (hs : Counted free counts s (limit.toNat + 1) t) (ht : P t) :
    ∃ q, Reaches turn counts s (limit.toNat + 1) (q, BitVec.ofNat w (limit.toNat + 1)) ∧ P q := by
  obtain ⟨p, q, hp, hcounts, hturn, hq⟩ := hs.last_of hback ht
  have hreach := h.of_free hp (Nat.le_refl _)
  refine ⟨q, .count hreach ((h _ _ _ _).mpr ⟨?_, hturn, ?_⟩) hcounts, hq⟩
  · rw [BitVec.ofNat_toNat, BitVec.setWidth_eq]
    exact BitVec.le_refl _
  · rw [if_pos hcounts, BitVec.ofNat_add]
    rfl

/-- A counter that cannot wrap stops the loop after one turn too many. -/
theorem le_succ (h : Budget turn free counts limit) (hlimit : limit.toNat + 1 < 2 ^ w)
    {r : σ × BitVec w} (hr : Reaches turn counts s n r) : n ≤ limit.toNat + 1 := by
  induction hr with
  | start => exact Nat.zero_le _
  | skip _ _ _ ih => exact ih
  | @count n p q hp hturn hcounts ih =>
    obtain ⟨hle, -, -⟩ := (h _ _ _ _).mp hturn
    rw [(h.counter hp).1, BitVec.le_def, BitVec.toNat_ofNat, Nat.mod_eq_of_lt (by omega)] at hle
    omega

/-- The loop keeps to its limit exactly when it would not pass it without one. -/
theorem keeps_iff (h : Budget turn free counts limit) :
    (∀ n r, Reaches turn counts s n r → n ≤ limit.toNat) ↔
      ∀ n t, Counted free counts s n t → n ≤ limit.toNat := by
  constructor
  · intro hkeep n t ht
    by_contra hgt
    obtain ⟨u, hu⟩ := ht.earlier (show limit.toNat + 1 ≤ n by omega)
    obtain ⟨q, hq, -⟩ := h.of_free_succ (P := fun _ => True) (fun _ _ _ _ _ => trivial) hu trivial
    have := hkeep _ _ hq
    omega
  · exact fun hfree n r hr => hfree n r.1 (h.counter hr).2

/-- The limit zero ends the loop exactly when the loop goes on after its first counted turn. -/
theorem zero_iff (h : Budget turn free counts (0 : BitVec w)) (hw : 0 < w) {P : σ → Prop}
    (hback : ∀ t u, counts t = false → free t = .ok (.yield u) → P u → P t) :
    (∀ n r, Reaches turn counts s n r → ¬ (P r.1 ∧ r.2 > 0)) ↔
      ∀ t, Counted free counts s 1 t → ¬ P t := by
  have hone : 1 < 2 ^ w := Nat.one_lt_two_pow (by omega)
  constructor
  · intro hkeep t ht hP
    obtain ⟨q, hq, hPq⟩ := h.of_free_succ hback ht hP
    refine hkeep _ _ hq ⟨hPq, ?_⟩
    rw [gt_iff_lt, BitVec.lt_def, BitVec.toNat_ofNat]
    simp [Nat.mod_eq_of_lt hone]
  · intro hfree n r hr hstop
    obtain ⟨hcounter, hcounted⟩ := h.counter hr
    have hle : n ≤ 1 := by simpa using h.le_succ (by simpa using hone) hr
    have hne : n ≠ 0 := by
      rintro rfl
      rw [hcounter] at hstop
      exact absurd hstop.2 (by simp)
    obtain rfl : n = 1 := by omega
    exact hfree r.1 hcounted hstop.1

end Budget

end Loop
