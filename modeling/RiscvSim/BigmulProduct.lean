import RiscvSim.BigmulUnit
import RiscvSim.Limbs
import RiscvSim.Loop
import Mathlib.Algebra.Order.Floor.Div

/-! `singlecycle` computes the product of the two operand caches. A half-done
diagonal is related to a partial convolution sum, and the accumulator is bounded
so that no carry leaves its third limb. -/

namespace RiscvSim

open Limbs Finset

/-- The word at index `i` of an array as a number, zero outside the array. -/
def limb {n : Nat} (v : Vector Word n) (i : Nat) : Nat := (v[i]?.getD 0).toNat

theorem limb_of_lt {n i : Nat} (v : Vector Word n) (h : i < n) : limb v i = v[i].toNat := by
  simp [limb, h]

theorem limb_lt {n : Nat} (v : Vector Word n) (i : Nat) : limb v i < 2 ^ 64 :=
  (v[i]?.getD 0).isLt

theorem limb_le {n : Nat} (v : Vector Word n) (i : Nat) : limb v i ≤ 2 ^ 64 - 1 :=
  Nat.le_pred_of_lt (limb_lt v i)

namespace Acc

def toNat (acc : Acc) : Nat :=
  acc.a0.toNat + 2 ^ 64 * acc.a1.toNat + 2 ^ 128 * acc.a2.toNat

@[simp] theorem toNat_clear : clear.toNat = 0 := rfl

theorem addU128_toNat (acc : Acc) (lo hi : Word) :
    (acc.addU128 lo hi).toNat = (acc.toNat + (lo.toNat + 2 ^ 64 * hi.toNat)) % 2 ^ 192 := by
  have h0 := acc.a0.isLt
  have h1 := acc.a1.isLt
  have h2 := acc.a2.isLt
  have hl := lo.isLt
  have hh := hi.isLt
  simp only [addU128, toNat, BitVec.toNat_add, BitVec.toNat_setWidth, BitVec.toNat_ushiftRight,
    Nat.shiftRight_eq_div_pow]
  omega

theorem addU192_toNat (acc : Acc) (lo hi hi2 : Word) :
    (acc.addU192 lo hi hi2).toNat =
      (acc.toNat + (Acc.mk lo hi hi2).toNat) % 2 ^ 192 := by
  have h := addU128_toNat acc lo hi
  have hacc : (acc.addU192 lo hi hi2).toNat =
      (acc.addU128 lo hi).a0.toNat + 2 ^ 64 * (acc.addU128 lo hi).a1.toNat +
        2 ^ 128 * (((acc.addU128 lo hi).a2.toNat + hi2.toNat) % 2 ^ 64) := by
    simp only [addU192, toNat, BitVec.toNat_add]
  rw [hacc]
  simp only [toNat] at h ⊢
  have h0 := (acc.addU128 lo hi).a0.isLt
  have h1 := (acc.addU128 lo hi).a1.isLt
  have h2 := (acc.addU128 lo hi).a2.isLt
  omega

theorem shr64_toNat (acc : Acc) : acc.shr64.toNat = acc.toNat / 2 ^ 64 := by
  have h0 := acc.a0.isLt
  simp only [shr64, toNat]
  have : (0 : Word).toNat = 0 := rfl
  omega

theorem low64_toNat (acc : Acc) : acc.low64.toNat = acc.toNat % 2 ^ 64 := by
  have h0 := acc.a0.isLt
  simp only [low64, toNat]
  omega

end Acc

/-- A bound on the product of two words. -/
def productBound : Nat := (2 ^ 64 - 1) * (2 ^ 64 - 1)

theorem limb_mul_le {m n : Nat} (v : Vector Word m) (w : Vector Word n) (i j : Nat) :
    limb v i * limb w j ≤ productBound :=
  Nat.mul_le_mul (limb_le v i) (limb_le w j)

theorem products_le {m n : Nat} (v : Vector Word m) (w : Vector Word n) (s a b : Nat) :
    partialDiagonal (limb v) (limb w) s a b ≤ (b - a) * productBound :=
  partialDiagonal_le (limb_le v) (limb_le w) s a b

theorem shifted_le {n acc : Nat} (h : acc ≤ n * 2 ^ 64 + n * productBound) :
    acc / 2 ^ 64 ≤ n * 2 ^ 64 := by
  unfold productBound at h
  exact carry_le (by norm_num) h

theorem Acc.addProduct_toNat (acc : Acc) (x y : Word) :
    (acc.addProduct x y).toNat = (acc.toNat + x.toNat * y.toNat) % 2 ^ 192 := by
  have hlt : x.toNat * y.toNat < 2 ^ 64 * 2 ^ 64 := Nat.mul_lt_mul'' x.isLt y.isLt
  have hx := x.isLt
  have hy := y.isLt
  rw [addProduct, addU128_toNat]
  simp only [BitVec.toNat_mul, BitVec.toNat_setWidth, BitVec.toNat_ushiftRight,
    Nat.shiftRight_eq_div_pow]
  rw [Nat.mod_eq_of_lt (show x.toNat < 2 ^ 128 by omega),
    Nat.mod_eq_of_lt (show y.toNat < 2 ^ 128 by omega)]
  omega

theorem batchStep_eq {u : BigmulUnit} {s k p : Nat} {b : Acc} (hs : u.sDiag = s)
    (hks : k ≤ s) (hk : k < 64) (hj : s - k < 64) (hb : b.toNat + productBound < 2 ^ 192) :
    ∃ b', u.batchStep ⟨p, k, b⟩ = .ok ⟨p + 1, (k + 1 : Nat), b'⟩ ∧
      b'.toNat = b.toNat + limb u.cacheA k * limb u.cacheB (s - k) := by
  have hjj : u.sDiag - (k : Int) = ((s - k : Nat) : Int) := by omega
  refine ⟨b.addProduct u.cacheA[k] u.cacheB[s - k], ?_, ?_⟩
  · simp only [BigmulUnit.batchStep, hjj, readAt_ofNat _ hk, readAt_ofNat _ hj, Loop.bind_ok]
    rfl
  · rw [Acc.addProduct_toNat, ← limb_of_lt _ hk, ← limb_of_lt _ hj]
    apply Nat.mod_eq_of_lt
    have := limb_mul_le u.cacheA u.cacheB k (s - k)
    omega

/-- The batch loop on a diagonal whose remaining indices `k ≤ i < stop` stay
inside the caches. -/
theorem batchLoop_eq {u : BigmulUnit} {s stop : Nat} (hs : u.sDiag = s)
    (hmax : u.iMax = (stop : Int) - 1) (hin : ∀ i, i < stop → i ≤ s ∧ i < 64)
    {k : Nat} (hkstop : k ≤ stop) (hj : s - k < 64) (left p : Nat) (b : Acc)
    (hb : b.toNat + left * productBound < 2 ^ 192) :
    ∃ b', u.batchLoop left ⟨p, k, b⟩ =
        .ok ⟨p + min left (stop - k), (k + min left (stop - k) : Nat), b'⟩ ∧
      b'.toNat = b.toNat + partialDiagonal (limb u.cacheA) (limb u.cacheB) s k
        (k + min left (stop - k)) := by
  induction left generalizing k p b with
  | zero => exact ⟨b, by simp [BigmulUnit.batchLoop], by simp [partialDiagonal_self]⟩
  | succ left ih =>
    rcases Nat.lt_or_ge k stop with hk | hk
    · obtain ⟨hks, hk64⟩ := hin k hk
      rw [Nat.succ_mul] at hb
      obtain ⟨c, hc, hcval⟩ := batchStep_eq (p := p) (b := b) hs hks hk64 hj (by omega)
      have hterm := limb_mul_le u.cacheA u.cacheB k (s - k)
      obtain ⟨d, hd, hdval⟩ := ih (k := k + 1) hk (by omega) (p + 1) c (by omega)
      have hcount : min (left + 1) (stop - k) = 1 + min left (stop - (k + 1)) := by omega
      refine ⟨d, ?_, ?_⟩
      · have hle : (k : Int) ≤ u.iMax := by omega
        simp only [BigmulUnit.batchLoop, hle, if_true, hc, Loop.bind_ok, hd, hcount]
        simp only [Nat.add_assoc]
      · rw [hdval, hcval, hcount, ← Nat.add_assoc, Nat.add_assoc b.toNat,
          partialDiagonal_split (a := k) (b := k + 1) (by omega) (by omega),
          partialDiagonal_succ (Nat.le_refl k), partialDiagonal_self]
        omega
    · have hgt : ¬ (k : Int) ≤ u.iMax := by omega
      have hzero : min (left + 1) (stop - k) = 0 := by omega
      refine ⟨b, ?_, ?_⟩
      · simp only [BigmulUnit.batchLoop, hgt, if_false, hzero]
        rfl
      · rw [hzero, Nat.add_zero, partialDiagonal_self, Nat.add_zero]

/-- The parts of the unit that no compute cycle changes. -/
structure SameOperands (u v : BigmulUnit) : Prop where
  bigmulDone : v.bigmulDone = u.bigmulDone
  ldbmDone : v.ldbmDone = u.ldbmDone
  ldbmOffset : v.ldbmOffset = u.ldbmOffset
  writeOffset : v.writeOffset = u.writeOffset
  baseAddrA : v.baseAddrA = u.baseAddrA
  baseAddrB : v.baseAddrB = u.baseAddrB
  baseAddrRes : v.baseAddrRes = u.baseAddrRes
  cacheA : v.cacheA = u.cacheA
  cacheB : v.cacheB = u.cacheB
  sizeOfOperand : v.sizeOfOperand = u.sizeOfOperand

theorem SameOperands.refl (u : BigmulUnit) : SameOperands u u :=
  ⟨rfl, rfl, rfl, rfl, rfl, rfl, rfl, rfl, rfl, rfl⟩

theorem SameOperands.trans {u v w : BigmulUnit} (h : SameOperands u v)
    (h' : SameOperands v w) : SameOperands u w :=
  ⟨h'.bigmulDone.trans h.bigmulDone, h'.ldbmDone.trans h.ldbmDone,
    h'.ldbmOffset.trans h.ldbmOffset, h'.writeOffset.trans h.writeOffset,
    h'.baseAddrA.trans h.baseAddrA, h'.baseAddrB.trans h.baseAddrB,
    h'.baseAddrRes.trans h.baseAddrRes, h'.cacheA.trans h.cacheA, h'.cacheB.trans h.cacheB,
    h'.sizeOfOperand.trans h.sizeOfOperand⟩

theorem finishDiagonal_same {u v : BigmulUnit} (h : u.finishDiagonal = .ok v) :
    SameOperands u v := by
  obtain ⟨rc, -, h⟩ := Loop.bind_eq_ok h
  by_cases hlast : u.sDiag = (u.sizeOfOperand.toNat : Int) * 2 - 2
  · rw [if_pos hlast] at h
    obtain ⟨rc', -, h⟩ := Loop.bind_eq_ok h
    obtain rfl := Except.ok.inj h
    exact ⟨rfl, rfl, rfl, rfl, rfl, rfl, rfl, rfl, rfl, rfl⟩
  · rw [if_neg hlast] at h
    obtain rfl := Except.ok.inj h
    exact ⟨rfl, rfl, rfl, rfl, rfl, rfl, rfl, rfl, rfl, rfl⟩

theorem batchCycle_same {u v : BigmulUnit} (h : u.batchCycle = .ok v) : SameOperands u v := by
  obtain ⟨b, -, h⟩ := Loop.bind_eq_ok h
  by_cases hk : b.kIter > u.iMax
  · rw [if_pos hk] at h
    refine SameOperands.trans ?_ (finishDiagonal_same h)
    exact ⟨rfl, rfl, rfl, rfl, rfl, rfl, rfl, rfl, rfl, rfl⟩
  · rw [if_neg hk] at h
    obtain rfl := Except.ok.inj h
    exact ⟨rfl, rfl, rfl, rfl, rfl, rfl, rfl, rfl, rfl, rfl⟩

theorem executeBigmul_same {u v : BigmulUnit} (h : u.executeBigmul = .ok v) :
    SameOperands u v := by
  unfold BigmulUnit.executeBigmul BigmulUnit.singlecycle at h
  cases hdone : u.bigmulDone with
  | true =>
    rw [hdone, if_pos rfl] at h
    obtain rfl := Except.ok.inj h
    exact SameOperands.refl u
  | false =>
    rw [hdone, if_neg (by simp)] at h
    by_cases hprog : u.bigmulProg = 0
    · rw [if_pos hprog] at h
      refine SameOperands.trans ?_ (batchCycle_same h)
      exact ⟨hdone.symm, rfl, rfl, rfl, rfl, rfl, rfl, rfl, rfl, rfl⟩
    · rw [if_neg hprog] at h
      exact batchCycle_same h

/-- The result words below the current diagonal and the accumulator hold exactly
the partial products taken so far: no carry has been lost. -/
def AccExact (n : Nat) (u : BigmulUnit) : Prop :=
  ∃ s k : Nat, u.sDiag = s ∧ u.kIter = k ∧
    limbValue (2 ^ 64) (limb u.resultCache) s + u.acc.toNat * (2 ^ 64) ^ s =
      limbValue (2 ^ 64) (diagonal (limb u.cacheA) (limb u.cacheB) n) s +
        partialDiagonal (limb u.cacheA) (limb u.cacheB) s (diagonalStart n s) k * (2 ^ 64) ^ s

/-- The unit between two compute cycles, at index `k` of diagonal `s`. -/
structure Computing (n s k : Nat) (u : BigmulUnit) : Prop where
  size : u.sizeOfOperand.toNat = n
  notDone : u.bigmulDone = false
  started : u.bigmulProg ≠ 0
  writeDone : u.writeDone = true
  sDiag : u.sDiag = s
  iMax : u.iMax = (diagonalStop n s : Int) - 1
  kIter : u.kIter = k
  le_last : s + 2 ≤ 2 * n
  start_le : diagonalStart n s ≤ k
  lt_stop : k < diagonalStop n s
  exact : limbValue (2 ^ 64) (limb u.resultCache) s + u.acc.toNat * (2 ^ 64) ^ s =
    limbValue (2 ^ 64) (diagonal (limb u.cacheA) (limb u.cacheB) n) s +
      partialDiagonal (limb u.cacheA) (limb u.cacheB) s (diagonalStart n s) k * (2 ^ 64) ^ s
  bound : u.acc.toNat ≤ n * 2 ^ 64 + (k - diagonalStart n s) * productBound

theorem Computing.accExact {n s k : Nat} {u : BigmulUnit} (h : Computing n s k u) :
    AccExact n u :=
  ⟨s, k, h.sDiag, h.kIter, h.exact⟩

theorem startBigmul_computing {u : BigmulUnit} {n : Nat} (hn : u.sizeOfOperand.toNat = n)
    (hpos : 0 < n) : Computing n 0 0 u.startBigmul where
  size := hn
  notDone := rfl
  started := by simp [BigmulUnit.startBigmul]
  writeDone := rfl
  sDiag := rfl
  iMax := by simp only [BigmulUnit.startBigmul, diagonalStop]; omega
  kIter := rfl
  le_last := by omega
  start_le := by simp only [diagonalStart]; omega
  lt_stop := by simp only [diagonalStop]; omega
  exact := by
    have : diagonalStart n 0 = 0 := by simp only [diagonalStart]; omega
    simp [BigmulUnit.startBigmul, this, partialDiagonal_self]
  bound := Nat.zero_le _

/-- The state at the end of the compute phase. -/
structure Computed (n : Nat) (u : BigmulUnit) : Prop where
  notDone : u.bigmulDone = false
  prog : u.bigmulProg = 0
  writeDone : u.writeDone = false
  product : limbValue (2 ^ 64) (limb u.resultCache) (2 * n) =
    limbValue (2 ^ 64) (limb u.cacheA) n * limbValue (2 ^ 64) (limb u.cacheB) n

theorem finishDiagonal_next {u : BigmulUnit} {n s : Nat} (hn : u.sizeOfOperand.toNat = n)
    (hs : u.sDiag = s) (hs128 : s < 128) (hlast : s + 2 < 2 * n) :
    u.finishDiagonal = .ok { u with
      resultCache := u.resultCache.setIfInBounds s u.acc.low64
      acc := u.acc.shr64
      sDiag := (s + 1 : Nat)
      iMin := (diagonalStart n (s + 1) : Nat)
      iMax := (diagonalStop n (s + 1) : Int) - 1
      kIter := (diagonalStart n (s + 1) : Nat) } := by
  have hne : ¬ (s : Int) = (n : Int) * 2 - 2 := by omega
  have hmin : (if (s : Int) + 1 > (n : Int) - 1 then (s : Int) + 1 - ((n : Int) - 1) else 0) =
      (diagonalStart n (s + 1) : Nat) := by
    simp only [diagonalStart]
    split <;> omega
  have hmax : (if (s : Int) + 1 < (n : Int) - 1 then (s : Int) + 1 else (n : Int) - 1) =
      (diagonalStop n (s + 1) : Int) - 1 := by
    simp only [diagonalStop]
    split <;> omega
  simp only [BigmulUnit.finishDiagonal, hn, hs, writeAt_ofNat _ _ hs128, Loop.bind_ok, if_neg hne,
    hmin, hmax]
  rfl

theorem finishDiagonal_last {u : BigmulUnit} {n s : Nat} (hn : u.sizeOfOperand.toNat = n)
    (hs : u.sDiag = s) (hs128 : s + 1 < 128) (hlast : s + 2 = 2 * n) :
    u.finishDiagonal = .ok { u with
      resultCache := (u.resultCache.setIfInBounds s u.acc.low64).setIfInBounds (s + 1)
        u.acc.shr64.low64
      acc := u.acc.shr64
      bigmulProg := 0
      writeDone := false } := by
  have heq : (n : Int) * 2 - 2 = s := by omega
  have hnext : (s : Int) + 1 = ((s + 1 : Nat) : Int) := by omega
  have hs' : s < 128 := by omega
  simp only [BigmulUnit.finishDiagonal, hn, hs, writeAt_ofNat _ _ hs', Loop.bind_ok, heq, if_true,
    hnext, writeAt_ofNat _ _ hs128]
  rfl

/-- One batch of a diagonal: its products reach the accumulator without loss. -/
theorem Computing.batchCycle_eq {n s k : Nat} {u : BigmulUnit} (h : Computing n s k u)
    (hn : n ≤ 64) :
    ∃ acc : Acc, acc.toNat = u.acc.toNat + partialDiagonal (limb u.cacheA) (limb u.cacheB) s k
        (k + min 25 (diagonalStop n s - k)) ∧
      u.executeBigmul =
        if diagonalStop n s ≤ k + 25 then
          { u with kIter := (diagonalStop n s : Nat), acc }.finishDiagonal
        else .ok { u with kIter := (k + 25 : Nat), acc } := by
  have hstart := h.start_le
  have hstop := h.lt_stop
  have hin : ∀ i, i < diagonalStop n s → i ≤ s ∧ i < 64 := by
    intro i hi
    simp only [diagonalStop] at hi
    omega
  have hpb : productBound = 340282366920938463426481119284349108225 := rfl
  obtain ⟨b, hb, hbval⟩ := batchLoop_eq h.sDiag h.iMax hin (Nat.le_of_lt hstop)
    (by simp only [diagonalStart] at hstart; omega) 25 0 Acc.clear
    (by rw [Acc.toNat_clear, hpb]; norm_num)
  have hsum := products_le u.cacheA u.cacheB s k (k + min 25 (diagonalStop n s - k))
  rw [Acc.toNat_clear, Nat.zero_add] at hbval
  have hkn : (k - diagonalStart n s) * productBound ≤ 64 * productBound := by
    apply Nat.mul_le_mul_right
    simp only [diagonalStop] at hstop
    omega
  have hm : (k + min 25 (diagonalStop n s - k) - k) * productBound ≤ 25 * productBound := by
    apply Nat.mul_le_mul_right
    omega
  refine ⟨u.acc.addU192 b.a0 b.a1 b.a2, ?_, ?_⟩
  · rw [Acc.addU192_toNat, ← hbval]
    apply Nat.mod_eq_of_lt
    have hbound := h.bound
    change u.acc.toNat + b.toNat < _
    omega
  · have hnd : ¬ (u.bigmulDone = true) := by simp [h.notDone]
    have hprocessed : 0 + min 25 (diagonalStop n s - k) > 0 := by omega
    simp only [BigmulUnit.executeBigmul, BigmulUnit.singlecycle, if_neg hnd, if_neg h.started,
      BigmulUnit.batchCycle, BigmulUnit.batchSize, h.kIter, hb, Loop.bind_ok, hprocessed, if_true]
    by_cases hfin : diagonalStop n s ≤ k + 25
    · have hk : k + min 25 (diagonalStop n s - k) = diagonalStop n s := by omega
      have hgt : ((diagonalStop n s : Nat) : Int) > u.iMax := by rw [h.iMax]; omega
      rw [hk, if_pos hgt, if_pos hfin]
    · have hk : k + min 25 (diagonalStop n s - k) = k + 25 := by omega
      have hgt : ¬ ((k + 25 : Nat) : Int) > u.iMax := by rw [h.iMax]; omega
      rw [hk, if_neg hgt, if_neg hfin]
      rfl

theorem limb_setIfInBounds_self {n i : Nat} (v : Vector Word n) (x : Word) (h : i < n) :
    limb (v.setIfInBounds i x) i = x.toNat := by
  simp [limb, h]

theorem limb_setIfInBounds_ne {n i j : Nat} (v : Vector Word n) (x : Word) (h : i ≠ j) :
    limb (v.setIfInBounds i x) j = limb v j := by
  simp [limb, h]

/-- Emitting the low limb of the accumulator at the end of diagonal `s`. -/
theorem limbValue_setIfInBounds {s : Nat} (rc : Vector Word 128) (acc : Acc) (hs : s < 128) :
    limbValue (2 ^ 64) (limb (rc.setIfInBounds s acc.low64)) (s + 1) +
        acc.shr64.toNat * (2 ^ 64) ^ (s + 1) =
      limbValue (2 ^ 64) (limb rc) s + acc.toNat * (2 ^ 64) ^ s := by
  rw [Acc.shr64_toNat]
  apply limbValue_emit
  · rw [limb_setIfInBounds_self _ _ hs, Acc.low64_toNat]
  · intro k hk
    exact limb_setIfInBounds_ne _ _ (by omega)

/-- The result words below diagonal `s` and the accumulator hold exactly the products
taken up to index `k`, and the accumulator is small enough for the rest of the diagonal. -/
structure Taken (n s k : Nat) (a b : Nat → Nat) (result : Vector Word 128) (acc : Acc) : Prop where
  exact : limbValue (2 ^ 64) (limb result) s + acc.toNat * (2 ^ 64) ^ s =
    limbValue (2 ^ 64) (diagonal a b n) s +
      partialDiagonal a b s (diagonalStart n s) k * (2 ^ 64) ^ s
  bound : acc.toNat ≤ n * 2 ^ 64 + (k - diagonalStart n s) * productBound

section

variable {n s k m : Nat} {a b : Nat → Nat} {result : Vector Word 128} {acc acc' : Acc}

theorem Taken.batch (h : Taken n s k a b result acc) (hk : diagonalStart n s ≤ k) (hm : k ≤ m)
    (ha : ∀ i, a i ≤ 2 ^ 64 - 1) (hb : ∀ i, b i ≤ 2 ^ 64 - 1)
    (hacc : acc'.toNat = acc.toNat + partialDiagonal a b s k m) :
    Taken n s m a b result acc' where
  exact := by
    rw [hacc, partialDiagonal_split hk hm, Nat.add_mul, Nat.add_mul, ← Nat.add_assoc,
      ← Nat.add_assoc, h.exact]
  bound := by
    have hbound := h.bound
    have hsum : partialDiagonal a b s k m ≤ (m - k) * productBound := partialDiagonal_le ha hb s k m
    have hsplit : m - diagonalStart n s = k - diagonalStart n s + (m - k) := by omega
    rw [hacc, hsplit, Nat.add_mul]
    omega

/-- Emitting the low limb at the end of a diagonal. -/
theorem Taken.finish (h : Taken n s k a b result acc)
    (hk : k = max (diagonalStart n s) (diagonalStop n s)) (hs : s < 128) :
    Taken n (s + 1) (diagonalStart n (s + 1)) a b (result.setIfInBounds s acc.low64)
      acc.shr64 where
  exact := by
    have hwhole : partialDiagonal a b s (diagonalStart n s) k = diagonal a b n s := by
      rcases Nat.le_total (diagonalStart n s) (diagonalStop n s) with hle | hge
      · rw [hk, Nat.max_eq_right hle, diagonal]
      · rw [hk, Nat.max_eq_left hge, partialDiagonal_self, diagonal, partialDiagonal,
          Ico_eq_empty_of_le hge, sum_empty]
    rw [limbValue_setIfInBounds result acc hs, h.exact, hwhole, partialDiagonal_self, Nat.zero_mul,
      Nat.add_zero, limbValue_succ]
  bound := by
    have hlen : k - diagonalStart n s ≤ n := by
      rw [hk]
      simp only [diagonalStop]
      omega
    have hmul := Nat.mul_le_mul_right productBound hlen
    have hbound := h.bound
    have hacc : acc.toNat ≤ n * 2 ^ 64 + n * productBound :=
      hbound.trans (Nat.add_le_add_left hmul _)
    rw [Nat.sub_self, Nat.zero_mul, Nat.add_zero, Acc.shr64_toNat]
    exact shifted_le hacc

/-- Past the last diagonal the result words are the product and no carry is left. -/
theorem Taken.product (h : Taken n (2 * n) (diagonalStart n (2 * n)) a b result acc)
    (ha : ∀ i, a i < 2 ^ 64) (hb : ∀ i, b i < 2 ^ 64) (hn : 0 < n) :
    limbValue (2 ^ 64) (limb result) (2 * n) =
        limbValue (2 ^ 64) a n * limbValue (2 ^ 64) b n ∧ acc.toNat = 0 := by
  have hempty : diagonal a b n (2 * n - 1) = 0 := by
    rw [diagonal, partialDiagonal, Ico_eq_empty_of_le, sum_empty]
    simp only [diagonalStart, diagonalStop]
    omega
  have hexact := h.exact
  obtain ⟨d, hd⟩ : ∃ d, 2 * n = d + 1 := ⟨2 * n - 1, by omega⟩
  rw [partialDiagonal_self, Nat.zero_mul, Nat.add_zero] at hexact
  have hlast : limbValue (2 ^ 64) (diagonal a b n) (2 * n) =
      limbValue (2 ^ 64) a n * limbValue (2 ^ 64) b n := by
    rw [limbValue_mul, hd, limbValue_succ]
    simp only [hd, Nat.add_sub_cancel] at hempty ⊢
    rw [hempty, Nat.zero_mul, Nat.add_zero]
  have hlt := limbValue_mul_lt ha hb n
  rw [← hlast, ← hexact] at hlt
  have hzero := carry_eq_zero hlt
  rw [hzero, Nat.zero_mul, Nat.add_zero] at hexact
  exact ⟨hexact.trans hlast, hzero⟩

end

theorem Computing.taken {n s k : Nat} {u : BigmulUnit} (h : Computing n s k u) :
    Taken n s k (limb u.cacheA) (limb u.cacheB) u.resultCache u.acc :=
  ⟨h.exact, h.bound⟩

/-- One compute cycle takes a batch of the diagonal, ends the diagonal, or ends
the product. -/
theorem Computing.step {n s k : Nat} {u : BigmulUnit} (h : Computing n s k u) (hn : n ≤ 64) :
    ∃ v, u.executeBigmul = .ok v ∧ (∀ j, 2 * n ≤ j → v.resultCache[j]? = u.resultCache[j]?) ∧
      (k + 25 < diagonalStop n s ∧ Computing n s (k + 25) v ∨
        diagonalStop n s ≤ k + 25 ∧ s + 2 < 2 * n ∧
          Computing n (s + 1) (diagonalStart n (s + 1)) v ∨
        diagonalStop n s ≤ k + 25 ∧ s + 2 = 2 * n ∧ Computed n v) := by
  obtain ⟨acc, hacc, hcycle⟩ := h.batchCycle_eq hn
  have hstart := h.start_le
  have hstop := h.lt_stop
  have hlast := h.le_last
  have htaken := h.taken.batch hstart (Nat.le_add_right k _) (limb_le u.cacheA) (limb_le u.cacheB)
    hacc
  by_cases hfin : diagonalStop n s ≤ k + 25
  · have hkm : k + min 25 (diagonalStop n s - k) = diagonalStop n s := by omega
    rw [hkm] at htaken
    rw [if_pos hfin] at hcycle
    have hfinish := htaken.finish (by omega) (by omega)
    rcases Nat.lt_or_ge (s + 2) (2 * n) with hnext | hend
    · refine ⟨_, hcycle.trans (finishDiagonal_next h.size h.sDiag (by omega) hnext), ?_, ?_⟩
      · intro j hj
        exact Vector.getElem?_setIfInBounds_ne (by omega)
      · refine Or.inr (Or.inl ⟨hfin, hnext, ?_⟩)
        refine ⟨h.size, h.notDone, h.started, h.writeDone, rfl, rfl, rfl, by omega,
          Nat.le_refl _, ?_, hfinish.exact, hfinish.bound⟩
        simp only [diagonalStart, diagonalStop]
        omega
    · have hend : s + 2 = 2 * n := by omega
      refine ⟨_, hcycle.trans (finishDiagonal_last h.size h.sDiag (by omega) hend), ?_, ?_⟩
      · intro j hj
        rw [Vector.getElem?_setIfInBounds_ne (by omega), Vector.getElem?_setIfInBounds_ne (by omega)]
      · refine Or.inr (Or.inr ⟨hfin, hend, h.notDone, rfl, rfl, ?_⟩)
        -- the last word is the carry out of the last diagonal
        have hcarry := hfinish.finish (by simp only [diagonalStart, diagonalStop]; omega) (by omega)
        rw [show s + 1 + 1 = 2 * n by omega] at hcarry
        exact (hcarry.product (limb_lt u.cacheA) (limb_lt u.cacheB) (by omega)).1
  · have hkm : k + min 25 (diagonalStop n s - k) = k + 25 := by omega
    rw [hkm] at htaken
    rw [if_neg hfin] at hcycle
    refine ⟨_, hcycle, fun j _ => rfl, Or.inl ⟨by omega, ?_⟩⟩
    exact ⟨h.size, h.notDone, h.started, h.writeDone, h.sDiag, h.iMax, rfl, hlast, by omega,
      by omega, htaken.exact, htaken.bound⟩

/-- The cycles that diagonal `s` of an `n`-word product takes. -/
def diagonalCycles (n s : Nat) : Nat := min (s + 1) (2 * n - 1 - s) ⌈/⌉ 25

/-- The cycles of the compute phase of an `n`-word product. -/
def computeCycles (n : Nat) : Nat := ∑ s ∈ range (2 * n - 1), diagonalCycles n s

/-- The compute cycles left at index `k` of diagonal `s`. -/
def cyclesLeft (n s k : Nat) : Nat :=
  (diagonalStop n s - k) ⌈/⌉ 25 + ∑ d ∈ Ico (s + 1) (2 * n - 1), diagonalCycles n d

theorem cyclesLeft_start {n s : Nat} (h : s < 2 * n - 1) :
    cyclesLeft n s (diagonalStart n s) = ∑ d ∈ Ico s (2 * n - 1), diagonalCycles n d := by
  rw [cyclesLeft, diagonal_length, sum_eq_sum_Ico_succ_bot h]
  rfl

theorem computeCycles_eq {n : Nat} (h : 0 < n) : computeCycles n = cyclesLeft n 0 0 := by
  have hstart : diagonalStart n 0 = 0 := by
    simp only [diagonalStart]
    omega
  have hleft := cyclesLeft_start (n := n) (s := 0) (by omega)
  rw [hstart] at hleft
  rw [hleft, computeCycles, range_eq_Ico]

theorem cyclesLeft_batch {n s k : Nat} (h : k + 25 < diagonalStop n s) :
    cyclesLeft n s k = cyclesLeft n s (k + 25) + 1 := by
  simp only [cyclesLeft, Nat.ceilDiv_eq_add_pred_div]
  omega

theorem cyclesLeft_finish {n s k : Nat} (h : k < diagonalStop n s)
    (h' : diagonalStop n s ≤ k + 25) :
    cyclesLeft n s k = (∑ d ∈ Ico (s + 1) (2 * n - 1), diagonalCycles n d) + 1 := by
  simp only [cyclesLeft, Nat.ceilDiv_eq_add_pred_div]
  omega

/-- The whole compute phase from the middle of a product, by induction on the
cycles left. -/
theorem Computing.run {n s k r : Nat} {u : BigmulUnit} (h : Computing n s k u) (hn : n ≤ 64)
    (hr : cyclesLeft n s k = r) :
    (∀ t < r, ∃ v s' k', Loop.iter BigmulUnit.executeBigmul t u = .ok v ∧
      Computing n s' k' v) ∧
    ∃ v, Loop.iter BigmulUnit.executeBigmul r u = .ok v ∧ Computed n v ∧
      SameOperands u v ∧ ∀ j, 2 * n ≤ j → v.resultCache[j]? = u.resultCache[j]? := by
  induction r generalizing s k u with
  | zero =>
    have hstop := h.lt_stop
    simp only [cyclesLeft, Nat.ceilDiv_eq_add_pred_div] at hr
    omega
  | succ r ih =>
    obtain ⟨v, hv, hrest, hcases⟩ := h.step hn
    have hsame := executeBigmul_same hv
    -- the cycles after this one, whichever way it ended
    have htail : (∀ t < r, ∃ w s' k', Loop.iter BigmulUnit.executeBigmul t v = .ok w ∧
          Computing n s' k' w) ∧
        ∃ w, Loop.iter BigmulUnit.executeBigmul r v = .ok w ∧ Computed n w ∧
          SameOperands v w ∧ ∀ j, 2 * n ≤ j → w.resultCache[j]? = v.resultCache[j]? := by
      rcases hcases with ⟨hlt, hc⟩ | ⟨hle, hnext, hc⟩ | ⟨hle, hend, hc⟩
      · have hleft := cyclesLeft_batch hlt
        exact ih hc (by omega)
      · have hleft := cyclesLeft_finish h.lt_stop hle
        have hstart := cyclesLeft_start (n := n) (s := s + 1) (by omega)
        exact ih hc (by omega)
      · have hleft := cyclesLeft_finish h.lt_stop hle
        rw [show 2 * n - 1 = s + 1 by omega, Ico_self, sum_empty] at hleft
        obtain rfl : r = 0 := by omega
        exact ⟨fun t ht => absurd ht (Nat.not_lt_zero t), v, rfl, hc, SameOperands.refl v,
          fun j _ => rfl⟩
    obtain ⟨hmid, w, hw, hcomputed, hsame', hrest'⟩ := htail
    refine ⟨fun t ht => ?_, w, ?_, hcomputed, hsame.trans hsame',
      fun j hj => (hrest' j hj).trans (hrest j hj)⟩
    · cases t with
      | zero => exact ⟨u, s, k, rfl, h⟩
      | succ t =>
        obtain ⟨x, s', k', hx, hcx⟩ := hmid t (by omega)
        exact ⟨x, s', k', by rw [Loop.iter_succ, hv]; exact hx, hcx⟩
    · rw [Loop.iter_succ, hv]
      exact hw

/-- The first compute cycle starts the unit and then works as any other. -/
theorem executeBigmul_start {u : BigmulUnit} (hdone : u.bigmulDone = false)
    (hprog : u.bigmulProg = 0) : u.executeBigmul = u.startBigmul.executeBigmul := by
  have hnd : ¬ (u.bigmulDone = true) := by simp [hdone]
  simp only [BigmulUnit.executeBigmul, BigmulUnit.singlecycle, if_neg hnd, if_pos hprog]
  rfl

theorem startBigmul_same {u : BigmulUnit} (hdone : u.bigmulDone = false) :
    SameOperands u u.startBigmul :=
  ⟨hdone.symm, rfl, rfl, rfl, rfl, rfl, rfl, rfl, rfl, rfl⟩

/-- The compute phase of a unit that has just been started by `Decode`. -/
theorem compute_run {u : BigmulUnit} {n : Nat} (hn : u.sizeOfOperand.toNat = n) (hpos : 0 < n)
    (h64 : n ≤ 64) (hdone : u.bigmulDone = false) (hprog : u.bigmulProg = 0)
    (hwrite : u.writeDone = true) :
    (∀ t < computeCycles n, ∃ v, Loop.iter BigmulUnit.executeBigmul t u = .ok v ∧
      v.bigmulDone = false ∧ v.writeDone = true ∧ (0 < t → AccExact n v)) ∧
    ∃ v, Loop.iter BigmulUnit.executeBigmul (computeCycles n) u = .ok v ∧ Computed n v ∧
      SameOperands u v ∧ ∀ j, 2 * n ≤ j → v.resultCache[j]? = u.resultCache[j]? := by
  have hstart := startBigmul_computing hn hpos
  obtain ⟨hmid, v, hv, hcomputed, hsame, hrest⟩ := hstart.run h64 (computeCycles_eq hpos).symm
  have hiter : ∀ t, 0 < t → Loop.iter BigmulUnit.executeBigmul t u =
      Loop.iter BigmulUnit.executeBigmul t u.startBigmul := by
    intro t ht
    obtain ⟨t, rfl⟩ : ∃ r, t = r + 1 := ⟨t - 1, by omega⟩
    rw [Loop.iter_succ, Loop.iter_succ, executeBigmul_start hdone hprog]
  have hcycles : 0 < computeCycles n := by
    rw [computeCycles_eq hpos]
    have hstop := hstart.lt_stop
    simp only [cyclesLeft, Nat.ceilDiv_eq_add_pred_div]
    omega
  refine ⟨fun t ht => ?_, v, (hiter _ hcycles).trans hv, hcomputed,
    (startBigmul_same hdone).trans hsame, hrest⟩
  rcases Nat.eq_zero_or_pos t with rfl | htpos
  · exact ⟨u, rfl, hdone, hwrite, fun h => absurd h (Nat.lt_irrefl 0)⟩
  · obtain ⟨w, s, k, hw, hcw⟩ := hmid t ht
    exact ⟨w, (hiter t htpos).trans hw, hcw.notDone, hcw.writeDone, fun _ => hcw.accExact⟩

theorem limbValue_eq_sum (f : Nat → Nat) (n : Nat) :
    limbValue (2 ^ 64) f n = ∑ k ∈ range n, f k * 2 ^ (64 * k) :=
  sum_congr rfl fun k _ => by rw [pow_mul]

/-- Repeated calls of `executeBigmul` multiply the two caches: the number of calls
is exact, no access leaves its array, no carry is lost on the way, and nothing but
the `2 * n` result words is written. -/
theorem executeBigmul_product (u : BigmulUnit) (n : Nat) (hn : u.sizeOfOperand.toNat = n)
    (hpos : 1 ≤ n) (h64 : n ≤ 64) (hdone : u.bigmulDone = false) (hprog : u.bigmulProg = 0)
    (hwrite : u.writeDone = true) :
    (∀ t < computeCycles n, ∃ v, Loop.iter BigmulUnit.executeBigmul t u = .ok v ∧
      v.writeDone = true ∧ (0 < t → AccExact n v)) ∧
    ∃ v, Loop.iter BigmulUnit.executeBigmul (computeCycles n) u = .ok v ∧
      v.writeDone = false ∧
      ∑ k ∈ range (2 * n), limb v.resultCache k * 2 ^ (64 * k) =
        (∑ i ∈ range n, limb u.cacheA i * 2 ^ (64 * i)) *
          ∑ j ∈ range n, limb u.cacheB j * 2 ^ (64 * j) ∧
      v.cacheA = u.cacheA ∧ v.cacheB = u.cacheB ∧
      ∀ k, 2 * n ≤ k → v.resultCache[k]? = u.resultCache[k]? := by
  obtain ⟨hmid, v, hv, hcomputed, hsame, hrest⟩ := compute_run hn hpos h64 hdone hprog hwrite
  refine ⟨fun t ht => ?_, v, hv, hcomputed.writeDone, ?_, hsame.cacheA, hsame.cacheB, hrest⟩
  · obtain ⟨w, hw, -, hwd, hexact⟩ := hmid t ht
    exact ⟨w, hw, hwd, hexact⟩
  · rw [← limbValue_eq_sum, ← limbValue_eq_sum, ← limbValue_eq_sum, hcomputed.product,
      hsame.cacheA, hsame.cacheB]

/-- A unit that `Decode` has just started on an `n`-word product. -/
def startedUnit (n : OperandSize) (cacheA cacheB : Vector Word 64) : BigmulUnit :=
  { BigmulUnit.initial with sizeOfOperand := n, bigmulDone := false, cacheA, cacheB }

/-- The square of the greatest three-word number takes five cycles. -/
theorem executeBigmul_product_three :
    let u := startedUnit ⟨3, by decide, by decide⟩ (.replicate 64 (-1)) (.replicate 64 (-1))
    ∃ v, Loop.iter BigmulUnit.executeBigmul 5 u = .ok v ∧ v.writeDone = false ∧
      ∑ k ∈ range 6, limb v.resultCache k * 2 ^ (64 * k) = (2 ^ 192 - 1) * (2 ^ 192 - 1) := by
  intro u
  obtain ⟨-, v, hv, hwrite, hproduct, -⟩ := executeBigmul_product u 3 rfl (by decide) (by decide)
    rfl rfl rfl
  have hlimbs : ∑ i ∈ range 3, limb u.cacheA i * 2 ^ (64 * i) = 2 ^ 192 - 1 := by decide +kernel
  exact ⟨v, hv, hwrite, hproduct.trans (congrArg (fun x => x * x) hlimbs)⟩

end RiscvSim
