import RiscvSim.EngineRuns

/-! `systolicmultiply` against `singlecycle`. Every result word is the low half of the sum of its
own diagonal, so the words that diagonals carry into each other are missing. -/

namespace RiscvSim

open Limbs Finset

section

variable {s : Nat} {A B : Vector Word 64} {u : BigmulUnit}

/-- The sum of a diagonal, cut off at 128 bits. -/
theorem systolicSum_eq {count i : Nat} (sum : BitVec 128)
    (hin : ∀ k, i ≤ k → k < i + count → k ≤ s ∧ k < 64 ∧ s - k < 64) :
    ∃ r, u.systolicSum s count i sum = .ok r ∧
      r.toNat = (sum.toNat + partialDiagonal (limb u.cacheA) (limb u.cacheB) s i (i + count)) %
        2 ^ 128 := by
  induction count generalizing i sum with
  | zero =>
    refine ⟨sum, rfl, ?_⟩
    rw [Nat.add_zero, partialDiagonal_self, Nat.add_zero, Nat.mod_eq_of_lt sum.isLt]
  | succ count ih =>
    obtain ⟨his, hA, hB⟩ := hin i le_rfl (by omega)
    have hj : (s : Int) - (i : Int) = ((s - i : Nat) : Int) := by omega
    obtain ⟨r, hr, hval⟩ := ih (i := i + 1)
      (sum + u.cacheA[i].setWidth 128 * u.cacheB[s - i].setWidth 128)
      (fun k hk hlt => hin k (by omega) (by omega))
    refine ⟨r, ?_, ?_⟩
    · simp only [BigmulUnit.systolicSum, hj, readAt_ofNat _ hA, readAt_ofNat _ hB, Loop.bind_ok]
      exact hr
    · have hx : u.cacheA[i].toNat = limb u.cacheA i := (limb_of_lt _ hA).symm
      have hy : u.cacheB[s - i].toNat = limb u.cacheB (s - i) := (limb_of_lt _ hB).symm
      have hxlt := limb_lt u.cacheA i
      have hylt := limb_lt u.cacheB (s - i)
      have hadd : i + 1 + count = i + (count + 1) := by omega
      rw [hval, hadd, partialDiagonal_split (a := i) (b := i + 1) (by omega) (by omega),
        partialDiagonal_succ le_rfl, partialDiagonal_self, Nat.zero_add]
      simp only [BitVec.toNat_add, BitVec.toNat_mul, BitVec.toNat_setWidth, hx, hy]
      rw [Nat.mod_eq_of_lt (show limb u.cacheA i < 2 ^ 128 by omega),
        Nat.mod_eq_of_lt (show limb u.cacheB (s - i) < 2 ^ 128 by omega)]
      simp only [Nat.add_mod_mod, Nat.mod_add_mod, Nat.add_assoc]

/-- A unit before the call for diagonal `s`. -/
structure SystolicState (s : Nat) (A B : Vector Word 64) (u : BigmulUnit) : Prop where
  notDone : u.bigmulDone = false
  started : u.bigmulProg ≠ 0
  writeDone : u.writeDone = true
  sDiag : u.sDiag = s
  cacheA : u.cacheA = A
  cacheB : u.cacheB = B
  words : ∀ k < s, limb u.resultCache k = diagonal (limb A) (limb B) 64 k % 2 ^ 64

/-- The call for a diagonal stores the low half of its sum. -/
theorem SystolicState.call (h : SystolicState s A B u) (hs : s < 128) :
    ∃ rc : Vector Word 128, (∀ k < s + 1, limb rc k = diagonal (limb A) (limb B) 64 k % 2 ^ 64) ∧
      u.systolicmultiply = .ok (if s + 1 = 128 then
        { u with
          resultCache := rc, sDiag := (s : Int) + 1, bigmulDone := false, writeDone := false
          bigmulProg := 0 }
        else { u with resultCache := rc, sDiag := (s : Int) + 1 }) := by
  have hmin : (if (s : Int) > 63 then (s : Int) - 63 else 0) = ((diagonalStart 64 s : Nat) : Int) := by
    simp only [diagonalStart]
    split <;> omega
  have hcount : ((if (s : Int) < 63 then (s : Int) else 63) + 1 -
      ((diagonalStart 64 s : Nat) : Int)).toNat = diagonalStop 64 s - diagonalStart 64 s := by
    simp only [diagonalStart, diagonalStop]
    split <;> omega
  have hle : diagonalStart 64 s ≤ diagonalStop 64 s := by
    simp only [diagonalStart, diagonalStop]
    omega
  have hin : ∀ k, diagonalStart 64 s ≤ k →
      k < diagonalStart 64 s + (diagonalStop 64 s - diagonalStart 64 s) →
      k ≤ s ∧ k < 64 ∧ s - k < 64 := by
    intro k hk hlt
    simp only [diagonalStart, diagonalStop] at hk hlt
    omega
  obtain ⟨r, hr, hval⟩ := systolicSum_eq (u := u) 0 hin
  rw [Nat.add_sub_cancel' hle, h.cacheA, h.cacheB] at hval
  refine ⟨u.resultCache.setIfInBounds s (r.setWidth 64), ?_, ?_⟩
  · intro k hk
    rcases Nat.lt_succ_iff_lt_or_eq.mp hk with hlt | rfl
    · rw [limb_setIfInBounds_ne _ _ (by omega)]
      exact h.words k hlt
    · rw [limb_setIfInBounds_self _ _ hs, BitVec.toNat_setWidth, hval]
      change (0 + diagonal (limb A) (limb B) 64 k) % 2 ^ 128 % 2 ^ 64 = _
      rw [Nat.zero_add]
      omega
  · have hnd : ¬ (u.bigmulDone = true) := by simp [h.notDone]
    have hlt : u.sDiag < 128 := by
      rw [h.sDiag]
      omega
    rw [BigmulUnit.systolicmultiply, if_neg hnd, if_neg h.started, if_pos hlt]
    simp only [h.sDiag, hmin, hcount, hr, writeAt_ofNat _ _ hs, Loop.bind_ok]
    by_cases hlast : s + 1 = 128
    · rw [if_pos hlast, if_pos (by omega)]
      rfl
    · rw [if_neg hlast, if_neg (by omega)]
      rfl

theorem SystolicState.step (h : SystolicState s A B u) (hs : s + 1 < 128) :
    ∃ v, u.systolicmultiply = .ok v ∧ SystolicState (s + 1) A B v := by
  obtain ⟨rc, hwords, hcall⟩ := h.call (by omega)
  rw [if_neg (by omega)] at hcall
  exact ⟨_, hcall, h.notDone, h.started, h.writeDone, rfl, h.cacheA, h.cacheB, hwords⟩

theorem SystolicState.last (h : SystolicState s A B u) (hs : s + 1 = 128) :
    ∃ v, u.systolicmultiply = .ok v ∧ v.writeDone = false ∧
      ∀ k < 128, limb v.resultCache k = diagonal (limb A) (limb B) 64 k % 2 ^ 64 := by
  obtain ⟨rc, hwords, hcall⟩ := h.call (by omega)
  rw [if_pos hs] at hcall
  rw [hs] at hwords
  exact ⟨_, hcall, rfl, hwords⟩

theorem SystolicState.run (h : SystolicState 0 A B u) {t : Nat} (ht : t < 128) :
    ∃ v, Loop.iter BigmulUnit.systolicmultiply t u = .ok v ∧ SystolicState t A B v := by
  induction t with
  | zero => exact ⟨u, rfl, h⟩
  | succ t ih =>
    obtain ⟨v, hv, hstate⟩ := ih (by omega)
    obtain ⟨w, hw, hnext⟩ := hstate.step ht
    exact ⟨w, by rw [Loop.iter_succ_last, hv, Loop.bind_ok, hw], hnext⟩

end

/-- The first call only starts the unit; each of the 128 others stores a word. -/
theorem systolicmultiply_completes {u : BigmulUnit} (hdone : u.bigmulDone = false)
    (hprog : u.bigmulProg = 0) (hwrite : u.writeDone = true) :
    ∃ v, Completes BigmulUnit.systolicmultiply u v ∧
      ∀ k < 128, limb v.resultCache k =
        diagonal (limb u.cacheA) (limb u.cacheB) 64 k % 2 ^ 64 := by
  have hnd : ¬ (u.bigmulDone = true) := by simp [hdone]
  have hfirst : u.systolicmultiply = .ok u.startBigmul := by
    rw [BigmulUnit.systolicmultiply, if_neg hnd, if_pos hprog]
  have hstart : SystolicState 0 u.cacheA u.cacheB u.startBigmul :=
    ⟨rfl, by simp [BigmulUnit.startBigmul], rfl, rfl, rfl, rfl,
      fun k hk => absurd hk (Nat.not_lt_zero k)⟩
  obtain ⟨w, hw, hstate⟩ := hstart.run (t := 127) (by omega)
  obtain ⟨v, hv, hvw, hwords⟩ := hstate.last rfl
  refine ⟨v, ⟨129, ?_, hvw, fun t ht => ?_⟩, hwords⟩
  · rw [Loop.iter_succ, hfirst, Loop.bind_ok, Loop.iter_succ_last, hw, Loop.bind_ok, hv]
  · cases t with
    | zero => exact ⟨u, rfl, hwrite⟩
    | succ t =>
      obtain ⟨x, hx, hstate⟩ := hstart.run (t := t) (by omega)
      exact ⟨x, by rw [Loop.iter_succ, hfirst, Loop.bind_ok, hx], hstate.writeDone⟩

/-- What the diagonals below `s` carry into word `s` of a product of 64 words. -/
def carryInto (A B : Vector Word 64) (s : Nat) : Nat :=
  limbValue (2 ^ 64) (diagonal (limb A) (limb B) 64) s / (2 ^ 64) ^ s

/-- A word of the product is the low half of its diagonal and of what is carried into it. -/
theorem product_word {A B : Vector Word 64} {rc : Vector Word 128}
    (h : limbValue (2 ^ 64) (limb rc) 128 =
      limbValue (2 ^ 64) (limb A) 64 * limbValue (2 ^ 64) (limb B) 64) {s : Nat} (hs : s < 128) :
    limb rc s = (carryInto A B s + diagonal (limb A) (limb B) 64 s) % 2 ^ 64 := by
  have hlast : diagonal (limb A) (limb B) 64 127 = 0 := by
    rw [diagonal, partialDiagonal, Ico_eq_empty_of_le, sum_empty]
    simp only [diagonalStart, diagonalStop]
    omega
  have hproduct : limbValue (2 ^ 64) (limb rc) 128 =
      limbValue (2 ^ 64) (diagonal (limb A) (limb B) 64) 128 := by
    rw [h, limbValue_mul, limbValue_succ _ _ 127, hlast, Nat.zero_mul, Nat.add_zero]
  have hdigit := limbValue_div_mod (limb rc) (B := 2 ^ 64) (by norm_num) hs
  have hcarry := limbValue_div_mod (diagonal (limb A) (limb B) 64) (B := 2 ^ 64) (by norm_num) hs
  rw [Nat.div_eq_of_lt (limbValue_lt (limb_lt rc) s), Nat.zero_add,
    Nat.mod_eq_of_lt (limb_lt rc s)] at hdigit
  rw [← hdigit, hproduct, hcarry]
  rfl

/-- `singlecycle` and `systolicmultiply` agree on the words that nothing is carried into. -/
theorem systolic_word {u v w : BigmulUnit} {k : Nat} (hk : k < 128)
    (hv : ∀ k < 128, limb v.resultCache k = diagonal (limb u.cacheA) (limb u.cacheB) 64 k % 2 ^ 64)
    (hw : Multiplied 64 u.cacheA u.cacheB w) :
    v.resultCache[k]? = w.resultCache[k]? ↔ carryInto u.cacheA u.cacheB k % 2 ^ 64 = 0 := by
  have hleft := hv k hk
  have hright := product_word hw.2 hk
  have hiff : v.resultCache[k]? = w.resultCache[k]? ↔
      limb v.resultCache k = limb w.resultCache k := by
    rw [Vector.getElem?_eq_getElem hk, Vector.getElem?_eq_getElem hk, limb_of_lt _ hk,
      limb_of_lt _ hk]
    exact ⟨fun h => congrArg BitVec.toNat (Option.some.inj h), fun h =>
      congrArg some (BitVec.eq_of_toNat_eq h)⟩
  rw [hiff, hleft, hright]
  omega

/-- One diagonal per cycle gives the product exactly when nothing is carried between words. -/
theorem systolicmultiply_agrees_iff (u : BigmulUnit) (hn : u.sizeOfOperand.toNat = 64)
    (hdone : u.bigmulDone = false) (hprog : u.bigmulProg = 0) (hwrite : u.writeDone = true) :
    ∃ v w, Completes BigmulUnit.systolicmultiply u v ∧ Completes BigmulUnit.singlecycle u w ∧
      ((∀ k < 128, v.resultCache[k]? = w.resultCache[k]?) ↔
        ∀ s < 128, carryInto u.cacheA u.cacheB s % 2 ^ 64 = 0) := by
  obtain ⟨v, hv, hwords⟩ := systolicmultiply_completes hdone hprog hwrite
  obtain ⟨w, hw, hproduct⟩ := singlecycle_completes hn le_rfl hdone hprog hwrite
  refine ⟨v, w, hv, hw, ?_⟩
  constructor
  · intro heq s hs
    exact (systolic_word hs hwords hproduct).mp (heq s hs)
  · intro hcarry k hk
    exact (systolic_word hk hwords hproduct).mpr (hcarry k hk)

/-- Two operands of one word, whose product takes two. -/
def carryingUnit : BigmulUnit :=
  startedUnit .default ((Vector.replicate 64 0).set 0 (2 ^ 32))
    ((Vector.replicate 64 0).set 0 (2 ^ 32))

theorem carryingUnit_carry : carryInto carryingUnit.cacheA carryingUnit.cacheB 1 % 2 ^ 64 = 1 := by
  decide +kernel

theorem systolicmultiply_agrees_iff_carrying :
    ∃ v w, Completes BigmulUnit.systolicmultiply carryingUnit v ∧
      Completes BigmulUnit.singlecycle carryingUnit w ∧
      ¬ ∀ k < 128, v.resultCache[k]? = w.resultCache[k]? := by
  obtain ⟨v, w, hv, hw, hiff⟩ := systolicmultiply_agrees_iff carryingUnit rfl rfl rfl rfl
  refine ⟨v, w, hv, hw, fun heq => ?_⟩
  have hzero := hiff.mp heq 1 (by norm_num)
  rw [carryingUnit_carry] at hzero
  exact absurd hzero (by norm_num)

/-- The carry out of the first diagonal is lost. -/
theorem systolicmultiply_disagrees :
    ¬ ∀ u : BigmulUnit, u.sizeOfOperand.toNat = 64 → u.bigmulDone = false → u.bigmulProg = 0 →
      u.writeDone = true → ∃ v w, Completes BigmulUnit.systolicmultiply u v ∧
        Completes BigmulUnit.singlecycle u w ∧
        ∀ k < 128, v.resultCache[k]? = w.resultCache[k]? := by
  intro hclaim
  obtain ⟨v, w, hv, hw, heq⟩ := hclaim carryingUnit rfl rfl rfl rfl
  obtain ⟨v', hv', hwords⟩ := systolicmultiply_completes (u := carryingUnit) rfl rfl rfl
  obtain ⟨w', hw', hproduct⟩ :=
    singlecycle_completes (u := carryingUnit) (n := 64) rfl le_rfl rfl rfl rfl
  obtain rfl := hv.unique hv'
  obtain rfl := hw.unique hw'
  have hzero := (systolic_word (k := 1) (by norm_num) hwords hproduct).mp (heq 1 (by norm_num))
  rw [carryingUnit_carry] at hzero
  exact absurd hzero (by norm_num)

end RiscvSim
