import Mathlib
import RiscvSim.BigmulEngines
import RiscvSim.BigmulProduct

/-! What the engines of the unit have in common: where a run stands on its diagonal, the partial
products between the caches and the accumulator, and the end of a diagonal. -/

namespace RiscvSim

open Limbs Finset

/-- `v` is where the calls of an engine from `u` first leave `writeDone` clear. -/
def Completes (engine : BigmulUnit → Except Fault BigmulUnit) (u v : BigmulUnit) : Prop :=
  ∃ n, Loop.iter engine n u = .ok v ∧ v.writeDone = false ∧
    ∀ t < n, ∃ w, Loop.iter engine t u = .ok w ∧ w.writeDone = true

theorem Completes.unique {engine : BigmulUnit → Except Fault BigmulUnit} {u v w : BigmulUnit}
    (hv : Completes engine u v) (hw : Completes engine u w) : v = w := by
  obtain ⟨m, hm, hvw, hbusy⟩ := hv
  obtain ⟨n, hn, hww, hbusy'⟩ := hw
  rcases Nat.lt_trichotomy m n with hlt | rfl | hgt
  · obtain ⟨x, hx, hxw⟩ := hbusy' m hlt
    obtain rfl := Except.ok.inj (hx.symm.trans hm)
    rw [hvw] at hxw
    exact nomatch hxw
  · exact Except.ok.inj (hm.symm.trans hn)
  · obtain ⟨x, hx, hxw⟩ := hbusy n hgt
    obtain rfl := Except.ok.inj (hx.symm.trans hn)
    rw [hww] at hxw
    exact nomatch hxw

/-- The end of a product of two caches. -/
def Multiplied (n : Nat) (A B : Vector Word 64) (v : BigmulUnit) : Prop :=
  v.writeDone = false ∧ limbValue (2 ^ 64) (limb v.resultCache) (2 * n) =
    limbValue (2 ^ 64) (limb A) n * limbValue (2 ^ 64) (limb B) n

/-- As `Taken`, where `total` is the accumulator with all that is on its way there. -/
structure Collected (n s k : Nat) (a b : Nat → Nat) (result : Vector Word 128) (total : Nat) :
    Prop where
  exact : limbValue (2 ^ 64) (limb result) s + total * (2 ^ 64) ^ s =
    limbValue (2 ^ 64) (diagonal a b n) s +
      partialDiagonal a b s (diagonalStart n s) k * (2 ^ 64) ^ s
  bound : total ≤ n * 2 ^ 64 + (k - diagonalStart n s) * productBound

section

variable {n s k m total : Nat} {a b : Nat → Nat} {result : Vector Word 128} {acc : Acc}

theorem Taken.collected (h : Taken n s k a b result acc) :
    Collected n s k a b result acc.toNat :=
  ⟨h.exact, h.bound⟩

theorem Collected.taken (h : Collected n s k a b result total) (hacc : acc.toNat = total) :
    Taken n s k a b result acc := by
  subst hacc
  exact ⟨h.exact, h.bound⟩

theorem Collected.batch (h : Collected n s k a b result total) (hk : diagonalStart n s ≤ k)
    (hm : k ≤ m) (ha : ∀ i, a i ≤ 2 ^ 64 - 1) (hb : ∀ i, b i ≤ 2 ^ 64 - 1) :
    Collected n s m a b result (total + partialDiagonal a b s k m) where
  exact := by
    rw [partialDiagonal_split hk hm, Nat.add_mul, Nat.add_mul, ← Nat.add_assoc, ← Nat.add_assoc,
      h.exact]
  bound := by
    have hbound := h.bound
    have hsum : partialDiagonal a b s k m ≤ (m - k) * productBound := partialDiagonal_le ha hb s k m
    have hsplit : m - diagonalStart n s = k - diagonalStart n s + (m - k) := by omega
    rw [hsplit, Nat.add_mul]
    omega

/-- The products of a diagonal fit the three limbs of the accumulator. -/
theorem Collected.lt (h : Collected n s k a b result total) (hn : n ≤ 64)
    (hk : k ≤ diagonalStop n s) : total < 2 ^ 192 := by
  have hbound := h.bound
  have hlen : (k - diagonalStart n s) * productBound ≤ 64 * productBound := by
    apply Nat.mul_le_mul_right
    simp only [diagonalStop] at hk
    omega
  have hpb : productBound = 340282366920938463426481119284349108225 := rfl
  omega

/-- A batch that leaves the pipeline reaches the accumulator without loss. -/
theorem Collected.retire (acc : Acc) {x : Acc} {waiting : Nat} (h : Collected n s k a b result total)
    (hn : n ≤ 64) (hk : k ≤ diagonalStop n s) (htotal : total = acc.toNat + (x.toNat + waiting)) :
    (acc.addU192 x.a0 x.a1 x.a2).toNat + waiting = total := by
  have hlt := h.lt hn hk
  have hsum : (acc.addU192 x.a0 x.a1 x.a2).toNat = (acc.toNat + x.toNat) % 2 ^ 192 :=
    Acc.addU192_toNat acc x.a0 x.a1 x.a2
  rw [Nat.mod_eq_of_lt (by omega)] at hsum
  omega

end

/-- A unit on diagonal `s` of the product of two caches. -/
structure OnDiagonal (n s : Nat) (A B : Vector Word 64) (u : BigmulUnit) : Prop where
  size : u.sizeOfOperand.toNat = n
  notDone : u.bigmulDone = false
  started : u.bigmulProg ≠ 0
  writeDone : u.writeDone = true
  sDiag : u.sDiag = s
  iMax : u.iMax = (diagonalStop n s : Int) - 1
  le_last : s + 2 ≤ 2 * n
  cacheA : u.cacheA = A
  cacheB : u.cacheB = B

theorem startBigmul_onDiagonal {u : BigmulUnit} {n : Nat} (hn : u.sizeOfOperand.toNat = n)
    (hpos : 0 < n) : OnDiagonal n 0 u.cacheA u.cacheB u.startBigmul := by
  have h := startBigmul_computing hn hpos
  exact ⟨h.size, h.notDone, h.started, h.writeDone, h.sDiag, h.iMax, h.le_last, rfl, rfl⟩

theorem startBigmul_collected {u : BigmulUnit} {n : Nat} (hn : u.sizeOfOperand.toNat = n)
    (hpos : 0 < n) :
    Collected n 0 0 (limb u.cacheA) (limb u.cacheB) u.startBigmul.resultCache 0 :=
  (startBigmul_computing hn hpos).taken.collected

theorem diagonalStart_lt_stop {n s : Nat} (h : s + 2 ≤ 2 * n) :
    diagonalStart n s < diagonalStop n s := by
  simp only [diagonalStart, diagonalStop]
  omega

theorem diagonalStart_zero {n : Nat} (h : 0 < n) : diagonalStart n 0 = 0 := by
  simp only [diagonalStart]
  omega

section

variable {n s k : Nat} {A B : Vector Word 64} {u : BigmulUnit}

theorem OnDiagonal.started_eq (h : OnDiagonal n s A B u) : u.started = u :=
  if_neg h.started

/-- The indices of a diagonal lie inside the caches. -/
theorem OnDiagonal.index_lt (h : OnDiagonal n s A B u) (hn : n ≤ 64)
    (hk : diagonalStart n s ≤ k) (hstop : k < diagonalStop n s) :
    k ≤ s ∧ k < 64 ∧ s - k < 64 := by
  have hlast := h.le_last
  simp only [diagonalStart] at hk
  simp only [diagonalStop] at hstop
  omega

theorem OnDiagonal.batchLoop (h : OnDiagonal n s A B u) (hn : n ≤ 64)
    (hk : diagonalStart n s ≤ k) (hstop : k ≤ diagonalStop n s) :
    ∃ b, u.batchLoop BigmulUnit.batchSize ⟨0, k, .clear⟩ =
        .ok ⟨min 25 (diagonalStop n s - k), (k + min 25 (diagonalStop n s - k) : Nat), b⟩ ∧
      b.toNat = partialDiagonal (limb A) (limb B) s k (k + min 25 (diagonalStop n s - k)) := by
  have hin : ∀ i, i < diagonalStop n s → i ≤ s ∧ i < 64 := by
    intro i hi
    simp only [diagonalStop] at hi
    omega
  have hlast := h.le_last
  obtain ⟨b, hb, hval⟩ := batchLoop_eq h.sDiag h.iMax hin hstop
    (by simp only [diagonalStart] at hk; omega) 25 0 Acc.clear
    (by rw [Acc.toNat_clear, productBound]; norm_num)
  rw [Nat.zero_add] at hb
  rw [Acc.toNat_clear, Nat.zero_add, h.cacheA, h.cacheB] at hval
  exact ⟨b, hb, hval⟩

/-- `emitDiagonal` ends a diagonal as `singlecycle` does, and then prepares the next one. -/
theorem emitDiagonal_eq {last lim : Int} {next : BigmulUnit → BigmulUnit}
    (hlast : last = u.sizeOfOperand.toNat * 2 - 2) (hlim : lim = u.sizeOfOperand.toNat - 1) :
    u.emitDiagonal last lim next =
      if u.sDiag = last then u.finishDiagonal
      else (do return next (← u.finishDiagonal)) := by
  subst hlast hlim
  simp only [BigmulUnit.emitDiagonal, BigmulUnit.finishDiagonal]
  cases writeAt u.resultCache u.sDiag u.acc.low64 with
  | error e => simp
  | ok rc =>
    simp only [Loop.bind_ok]
    split
    · rfl
    · rfl

/-- The end of a diagonal whose products are all in the accumulator. -/
theorem OnDiagonal.emit {last lim : Int} (next : BigmulUnit → BigmulUnit)
    (h : OnDiagonal n s A B u) (hn : n ≤ 64)
    (htaken : Taken n s (diagonalStop n s) (limb A) (limb B) u.resultCache u.acc)
    (hlast : last = n * 2 - 2) (hlim : lim = n - 1) :
    (∃ v, u.emitDiagonal last lim next = .ok (next v) ∧ s + 2 < 2 * n ∧
      OnDiagonal n (s + 1) A B v ∧ v.kIter = (diagonalStart n (s + 1) : Nat) ∧
      Taken n (s + 1) (diagonalStart n (s + 1)) (limb A) (limb B) v.resultCache v.acc ∧
      v.genDoneThisDiag = u.genDoneThisDiag ∧ v.pipeline = u.pipeline) ∨
    ∃ v, u.emitDiagonal last lim next = .ok v ∧ Multiplied n A B v := by
  have hstop := diagonalStart_lt_stop h.le_last
  have hle := h.le_last
  have hfinish := htaken.finish (by omega) (by omega)
  rw [emitDiagonal_eq (by rw [h.size, hlast]) (by rw [h.size, hlim]), h.sDiag, hlast]
  rcases Nat.lt_or_ge (s + 2) (2 * n) with hnext | hend
  · left
    rw [if_neg (by omega), finishDiagonal_next h.size h.sDiag (by omega) hnext]
    exact ⟨_, rfl, hnext, ⟨h.size, h.notDone, h.started, h.writeDone, rfl, rfl, by omega, h.cacheA,
      h.cacheB⟩, rfl, hfinish, rfl, rfl⟩
  · right
    have hend : s + 2 = 2 * n := by omega
    rw [if_pos (by omega), finishDiagonal_last h.size h.sDiag (by omega) hend]
    refine ⟨_, rfl, rfl, ?_⟩
    -- the last word is the carry out of the last diagonal
    have hcarry := hfinish.finish (by simp only [diagonalStart, diagonalStop]; omega) (by omega)
    rw [show s + 1 + 1 = 2 * n by omega] at hcarry
    exact (hcarry.product (limb_lt A) (limb_lt B) (by omega)).1

end

/-- The words of a result are determined by its value. -/
theorem resultCache_eq {n : Nat} (hn : n ≤ 64) {v w : Vector Word 128}
    (h : limbValue (2 ^ 64) (limb v) (2 * n) = limbValue (2 ^ 64) (limb w) (2 * n)) :
    ∀ k < 2 * n, v[k]? = w[k]? := by
  intro k hk
  have hk' : k < 128 := by omega
  have hlimb := limbValue_injective (limb_lt v) (limb_lt w) h k hk
  rw [limb_of_lt v hk', limb_of_lt w hk'] at hlimb
  rw [Vector.getElem?_eq_getElem hk', Vector.getElem?_eq_getElem hk',
    BitVec.eq_of_toNat_eq hlimb]

/-- `singlecycle` from a unit that has been started. -/
theorem singlecycle_completes {u : BigmulUnit} {n : Nat} (hn : u.sizeOfOperand.toNat = n)
    (h64 : n ≤ 64) (hdone : u.bigmulDone = false) (hprog : u.bigmulProg = 0)
    (hwrite : u.writeDone = true) :
    ∃ w, Completes BigmulUnit.singlecycle u w ∧ Multiplied n u.cacheA u.cacheB w := by
  have hpos : 0 < n := hn ▸ u.sizeOfOperand.pos
  obtain ⟨hbusy, w, hw, hcomputed, hsame, -⟩ := compute_run hn hpos h64 hdone hprog hwrite
  refine ⟨w, ⟨_, hw, hcomputed.writeDone, fun t ht => ?_⟩, hcomputed.writeDone, ?_⟩
  · obtain ⟨x, hx, -, hwd, -⟩ := hbusy t ht
    exact ⟨x, hx, hwd⟩
  · rw [hcomputed.product, hsame.cacheA, hsame.cacheB]

/-- An engine with an invariant that computes the product leaves what `singlecycle` leaves. -/
theorem engine_agrees {engine : BigmulUnit → Except Fault BigmulUnit}
    (Inv : Nat → BigmulUnit → Prop) {u : BigmulUnit} {n : Nat} (hn : u.sizeOfOperand.toNat = n)
    (h64 : n ≤ 64) (hdone : u.bigmulDone = false) (hprog : u.bigmulProg = 0)
    (hwrite : u.writeDone = true) (hfirst : engine u = engine u.startBigmul)
    (hstart : ∃ m, Inv m u.startBigmul) (hbusy : ∀ m v, Inv m v → v.writeDone = true)
    (hstep : ∀ m v, Inv m v →
      ∃ w, engine v = .ok w ∧ ((∃ r < m, Inv r w) ∨ Multiplied n u.cacheA u.cacheB w)) :
    ∃ N v w, Loop.iter engine N u = .ok v ∧ v.writeDone = false ∧
      (∀ t < N, ∃ x, Loop.iter engine t u = .ok x ∧ x.writeDone = true ∧
        (0 < t → ∃ m, Inv m x)) ∧
      Completes BigmulUnit.singlecycle u w ∧
      ∀ k < 2 * n, v.resultCache[k]? = w.resultCache[k]? := by
  obtain ⟨m, hinv⟩ := hstart
  obtain ⟨N, v, hN, hv, ⟨hvw, hproduct⟩, hrun⟩ := Loop.iter_until hstep hinv
  obtain ⟨w, hw, -, hproduct'⟩ := singlecycle_completes hn h64 hdone hprog hwrite
  refine ⟨N, v, w, (Loop.iter_congr_first hfirst hN).trans hv, hvw, fun t ht => ?_, hw,
    resultCache_eq h64 (hproduct.trans hproduct'.symm)⟩
  rcases Nat.eq_zero_or_pos t with rfl | hpos
  · exact ⟨u, rfl, hwrite, fun h => absurd h (Nat.lt_irrefl 0)⟩
  · obtain ⟨x, hx, r, hr⟩ := hrun t ht
    exact ⟨x, (Loop.iter_congr_first hfirst hpos).trans hx, hbusy r x hr, fun _ => ⟨r, hr⟩⟩

end RiscvSim
