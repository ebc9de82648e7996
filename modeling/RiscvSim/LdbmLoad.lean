import RiscvSim.Vm

/-! The 16 calls of `WriteMemory` that load the operands of an LDBM. One offset runs through both
operands, eight doublewords a call. -/

namespace RiscvSim

/-- Doubleword `i` of an operand. -/
def Memory.wordAt (m : Memory) (base : Word) (i : Nat) : Word :=
  m.load (base + BitVec.ofNat 64 (8 * i)) 64 8

/-- A cache whose first `k` words have been loaded. -/
def filledTo (cache : Vector Word 64) (word : Nat → Word) (k : Nat) : Vector Word 64 :=
  .ofFn fun i => if (i : Nat) < k then word i else cache[i]

section

variable {cache : Vector Word 64} {word : Nat → Word} {k : Nat}

theorem filledTo_zero : filledTo cache word 0 = cache := by
  refine Vector.ext fun i hi => ?_
  simp [filledTo]

theorem filledTo_full (cache : Vector Word 64) (word : Nat → Word) (hk : 64 ≤ k) :
    filledTo cache word k = filledTo cache word 64 := by
  refine Vector.ext fun i hi => ?_
  have hik : i < k := by omega
  simp [filledTo, hik]

theorem filledTo_succ :
    (filledTo cache word k).setIfInBounds k (word k) = filledTo cache word (k + 1) := by
  refine Vector.ext fun i hi => ?_
  rw [Vector.getElem_setIfInBounds]
  simp only [filledTo, Vector.getElem_ofFn]
  rcases Nat.lt_trichotomy i k with hlt | rfl | hgt
  · rw [if_neg (by omega), if_pos hlt, if_pos (by omega)]
  · rw [if_pos rfl, if_pos (by omega)]
  · rw [if_neg (by omega), if_neg (by omega), if_neg (by omega)]

theorem filledTo_getElem? {i : Nat} (hi : i < 64) (hk : i < k) :
    (filledTo cache word k)[i]? = some (word i) := by
  simp [filledTo, hi, hk]

end

section

variable {m : Memory} {base : Word} {cache : Vector Word 64}

/-- The addresses of an operand lie inside the memory. -/
theorem readDoubleWord_wordAt (h : m.InRange base 512) {i : Nat} (hi : i < 64) :
    m.readDoubleWord (base + BitVec.ofNat 64 i * 8) = .ok (m.wordAt base i) := by
  have hsize := m.size.isLt
  have haddress : base + BitVec.ofNat 64 i * 8 = base + BitVec.ofNat 64 (8 * i) := by
    rw [BitVec.ofNat_mul, BitVec.mul_comm]
    rfl
  unfold Memory.InRange at h
  rw [haddress]
  refine Memory.readDoubleWord_eq_ok_iff.mpr ⟨?_, rfl⟩
  unfold Memory.InRange
  rw [Memory.add_ofNat_toNat (by omega)]
  omega

theorem loadWords_eq (cache : Vector Word 64) (h : m.InRange base 512) (first : Nat) {k : Nat}
    (hk : first + k ≤ 64) :
    Core.loadWords m base (BitVec.ofNat 64 first) (filledTo cache (m.wordAt base) first) k =
      .ok (filledTo cache (m.wordAt base) (first + k)) := by
  induction k with
  | zero => rfl
  | succ k ih =>
    have hoffset : BitVec.ofNat 64 first + BitVec.ofNat 64 k = BitVec.ofNat 64 (first + k) :=
      (BitVec.ofNat_add first k).symm
    have hnat : (BitVec.ofNat 64 (first + k)).toNat = first + k := by
      rw [BitVec.toNat_ofNat]
      omega
    have hlt : BitVec.ofNat 64 (first + k) < 64 := by
      rw [BitVec.lt_def, hnat]
      change first + k < 64
      omega
    have hword := readDoubleWord_wordAt h (i := first + k) (by omega)
    simp only [Core.loadWords, ih (by omega), Loop.bind_ok, hoffset, if_pos hlt, hword, hnat,
      filledTo_succ]
    rfl

end

/-- The unit after `t` calls for an LDBM that `u` begins. -/
def loadingUnit (m : Memory) (u : BigmulUnit) (t : Nat) : BigmulUnit :=
  { u with
    cacheA := filledTo u.cacheA (m.wordAt u.baseAddrA) (8 * t)
    cacheB := filledTo u.cacheB (m.wordAt u.baseAddrB) (8 * t - 64)
    ldbmOffset := BitVec.ofNat 64 (8 * t)
    ldbmDone := decide (16 ≤ t) }

section

variable {m : Memory} {u : BigmulUnit} {t : Nat}

theorem loadingUnit_zero (hdone : u.ldbmDone = false) (hoffset : u.ldbmOffset = 0) :
    loadingUnit m u 0 = u := by
  simp only [loadingUnit, Nat.mul_zero, Nat.zero_sub, filledTo_zero]
  rw [show BitVec.ofNat 64 0 = u.ldbmOffset from hoffset.symm,
    show decide (16 ≤ 0) = u.ldbmDone from hdone.symm]

/-- The first eight calls load the first operand, the others the second. -/
theorem ldbmCycle_eq (hA : m.InRange u.baseAddrA 512) (hB : m.InRange u.baseAddrB 512)
    (ht : t < 16) : Core.ldbmCycle m (loadingUnit m u t) = .ok (loadingUnit m u (t + 1)) := by
  have hnat : (BitVec.ofNat 64 (8 * t)).toNat = 8 * t := by
    rw [BitVec.toNat_ofNat]
    omega
  have hnext : BitVec.ofNat 64 (8 * t) + 8 = BitVec.ofNat 64 (8 * (t + 1)) := by
    rw [Nat.mul_succ, BitVec.ofNat_add]
    rfl
  have hnextNat : (BitVec.ofNat 64 (8 * (t + 1))).toNat = 8 * (t + 1) := by
    rw [BitVec.toNat_ofNat]
    omega
  have hend : (BitVec.ofNat 64 (8 * (t + 1)) ≥ 128) ↔ 16 ≤ t + 1 := by
    rw [ge_iff_le, BitVec.le_def, hnextNat]
    change 128 ≤ _ ↔ _
    omega
  have hdone : decide (16 ≤ t) = false := decide_eq_false (Nat.not_le.mpr ht)
  rw [Core.ldbmCycle]
  rcases Nat.lt_or_ge t 8 with hlow | hhigh
  · have hlt : BitVec.ofNat 64 (8 * t) < 64 := by
      rw [BitVec.lt_def, hnat]
      change 8 * t < 64
      omega
    have hload := loadWords_eq u.cacheA hA (8 * t) (k := 8) (by omega)
    have hB0 : 8 * t - 64 = 8 * (t + 1) - 64 := by omega
    have h16 : ¬ 16 ≤ t + 1 := by omega
    simp only [loadingUnit, hlt, if_true, hload, Loop.bind_ok, pure, Except.pure, hnext, hend,
      if_neg h16, hdone, decide_eq_false h16, hB0]
    rfl
  · have hge : ¬ BitVec.ofNat 64 (8 * t) < 64 := by
      rw [BitVec.lt_def, hnat]
      change ¬ 8 * t < 64
      omega
    have hlt : BitVec.ofNat 64 (8 * t) < 128 := by
      rw [BitVec.lt_def, hnat]
      change 8 * t < 128
      omega
    have hfirst : BitVec.ofNat 64 (8 * t) - 64 = BitVec.ofNat 64 (8 * t - 64) := by
      apply BitVec.eq_of_toNat_eq
      rw [BitVec.toNat_sub, hnat, BitVec.toNat_ofNat]
      change (2 ^ 64 - 64 + 8 * t) % 2 ^ 64 = _
      omega
    have hload := loadWords_eq u.cacheB hB (8 * t - 64) (k := 8) (by omega)
    have hA0 := filledTo_full u.cacheA (m.wordAt u.baseAddrA)
      (show 64 ≤ 8 * t by omega)
    have hA1 := filledTo_full u.cacheA (m.wordAt u.baseAddrA)
      (show 64 ≤ 8 * (t + 1) by omega)
    have hB1 : 8 * t - 64 + 8 = 8 * (t + 1) - 64 := by omega
    rw [hB1] at hload
    by_cases h16 : 16 ≤ t + 1
    · simp only [loadingUnit, hge, hlt, if_true, if_false, hfirst, hload, Loop.bind_ok, pure,
        Except.pure, hnext, hend, if_pos h16, decide_eq_true h16, hA0, hA1]
    · simp only [loadingUnit, hge, hlt, if_true, if_false, hfirst, hload, Loop.bind_ok, pure,
        Except.pure, hnext, hend, if_neg h16, decide_eq_false h16, hdone, hA0, hA1]

end

/-- `WriteMemory` of the machine, which notes the changes for undo. -/
def Vm.writeMemory (v : Vm) : Except Fault Vm := do
  let (core, changes) ← v.core.writeMemory
  return { v with core }.record changes

/-- `Decode` has just started an LDBM. -/
structure JustStartedLdbm (c : Core) : Prop where
  ldbmStart : c.controlUnit.ldbmStart = true
  notDone : c.bigmul.ldbmDone = false
  offset : c.bigmul.ldbmOffset = 0

/-- The machine after `t` calls of `WriteMemory` for the LDBM that `v` begins. -/
def loading (v : Vm) (t : Nat) : Vm :=
  { v with core := { v.core with bigmul := loadingUnit v.core.memory v.core.bigmul t } }

section

variable {v : Vm}

theorem JustStartedLdbm.step (h : JustStartedLdbm v.core)
    (hA : v.core.memory.InRange v.core.bigmul.baseAddrA 512)
    (hB : v.core.memory.InRange v.core.bigmul.baseAddrB 512) {t : Nat} (ht : t < 16) :
    (loading v t).writeMemory = .ok (loading v (t + 1)) := by
  have hbusy : (loading v t).core.controlUnit.ldbmStart = true ∧
      ¬ (loading v t).core.bigmul.ldbmDone = true := by
    refine ⟨h.ldbmStart, ?_⟩
    simp only [loading, loadingUnit, decide_eq_true_eq]
    omega
  have hcycle := ldbmCycle_eq (m := v.core.memory) (u := v.core.bigmul) hA hB ht
  have hcall : (loading v t).core.writeMemory = .ok ((loading v (t + 1)).core, .none) := by
    rw [Core.writeMemory, if_pos hbusy]
    change (Core.ldbmCycle v.core.memory (loadingUnit v.core.memory v.core.bigmul t) >>= _) = _
    rw [hcycle]
    rfl
  rw [Vm.writeMemory, hcall]
  simp [Vm.record, StepDelta.record, Changes.none, loading, pure, Except.pure]

theorem JustStartedLdbm.run (h : JustStartedLdbm v.core)
    (hA : v.core.memory.InRange v.core.bigmul.baseAddrA 512)
    (hB : v.core.memory.InRange v.core.bigmul.baseAddrB 512) {t : Nat} (ht : t ≤ 16) :
    Loop.iter Vm.writeMemory t v = .ok (loading v t) := by
  induction t with
  | zero => rw [Loop.iter_zero, loading, loadingUnit_zero h.notDone h.offset]
  | succ t ih =>
    rw [Loop.iter_succ_last, ih (by omega), Loop.bind_ok, h.step hA hB (by omega)]

end

/-- Sixteen calls of `WriteMemory` end an LDBM. They fill both caches with the doublewords of the
operands, and change nothing else but the offset. -/
theorem ldbm_load (v : Vm) (h : JustStartedLdbm v.core)
    (hA : v.core.memory.InRange v.core.bigmul.baseAddrA 512)
    (hB : v.core.memory.InRange v.core.bigmul.baseAddrB 512) :
    (∀ t < 16, ∃ w, Loop.iter Vm.writeMemory t v = .ok w ∧ w.core.bigmul.ldbmDone = false) ∧
    ∃ w cacheA cacheB, Loop.iter Vm.writeMemory 16 v = .ok w ∧
      (∀ i < 64, cacheA[i]? =
        some (v.core.memory.load (v.core.bigmul.baseAddrA + BitVec.ofNat 64 (8 * i)) 64 8)) ∧
      (∀ i < 64, cacheB[i]? =
        some (v.core.memory.load (v.core.bigmul.baseAddrB + BitVec.ofNat 64 (8 * i)) 64 8)) ∧
      w = { v with core := { v.core with bigmul := { v.core.bigmul with
        cacheA := cacheA, cacheB := cacheB, ldbmOffset := 128, ldbmDone := true } } } := by
  refine ⟨fun t ht => ⟨_, h.run hA hB (Nat.le_of_lt ht), ?_⟩, loading v 16,
    filledTo v.core.bigmul.cacheA (v.core.memory.wordAt v.core.bigmul.baseAddrA) 128,
    filledTo v.core.bigmul.cacheB (v.core.memory.wordAt v.core.bigmul.baseAddrB) 64,
    h.run hA hB le_rfl, ?_, ?_, rfl⟩
  · exact decide_eq_false (Nat.not_le.mpr ht)
  · intro i hi
    exact filledTo_getElem? hi (by omega)
  · intro i hi
    exact filledTo_getElem? hi hi

/-- Two unaligned operands that overlap. -/
theorem ldbm_load_overlapping :
    let v : Vm := { Vm.initial 0x1000 with core := { Core.initial 0x1000 with
      controlUnit := .setControlSignals 0x2a
      bigmul := { BigmulUnit.initial with baseAddrA := 3, baseAddrB := 8, ldbmDone := false } } }
    ∃ w, Loop.iter Vm.writeMemory 16 v = .ok w ∧ w.core.bigmul.ldbmDone = true := by
  intro v
  obtain ⟨-, w, cacheA, cacheB, hw, -, -, rfl⟩ :=
    ldbm_load v ⟨rfl, rfl, rfl⟩ (by decide) (by decide)
  exact ⟨_, hw, rfl⟩

end RiscvSim
