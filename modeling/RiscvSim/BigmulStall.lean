import RiscvSim.BigmulProduct
import RiscvSim.Stages

/-! The stall cycles of a BIGMUL: the compute phase of the unit followed by the
write-back of the result, eight doublewords a cycle. -/

namespace RiscvSim

open Finset

/-- `Decode` has just started a BIGMUL. -/
structure JustStartedBigmul (c : Core) : Prop where
  control : c.controlUnit = .setControlSignals c.currentInstruction
  opcode : c.currentInstruction.opcode = 0b0111111#7
  notDone : c.bigmul.bigmulDone = false
  prog : c.bigmul.bigmulProg = 0
  writeDone : c.bigmul.writeDone = true
  writeOffset : c.bigmul.writeOffset = 0

theorem OperandSize.double_toNat (n : OperandSize) : (n.words * 2).toNat = 2 * n.toNat := by
  have := n.lt
  rw [BitVec.toNat_mul]
  change n.words.toNat * 2 % 2 ^ 64 = 2 * n.words.toNat
  omega

/-- The result words as the write-back phase reads them. -/
def resultWord (u : BigmulUnit) (i : Nat) : Word := u.resultCache[i]?.getD 0

theorem storeWords_eq {u : BigmulUnit} {m : Memory} {n j k : Nat}
    (hn : u.sizeOfOperand.toNat = n) (h64 : n ≤ 64) (hj : u.writeOffset = BitVec.ofNat 64 (8 * j))
    (hj64 : 8 * j < 2 * n) (hk : k ≤ 8) (hin : u.baseAddrRes.toNat + 16 * n ≤ m.size.toNat) :
    Core.storeWords u (u.sizeOfOperand.words * 2) (m.storeMany u.baseAddrRes (resultWord u) (8 * j))
      k = .ok (m.storeMany u.baseAddrRes (resultWord u) (min (8 * j + k) (2 * n))) := by
  induction k with
  | zero =>
    rw [Core.storeWords, Nat.add_zero, Nat.min_eq_left (Nat.le_of_lt hj64)]
  | succ k ih =>
    have hindex : u.writeOffset + BitVec.ofNat 64 k = BitVec.ofNat 64 (8 * j + k) := by
      rw [hj, BitVec.ofNat_add]
    have hindexNat : (BitVec.ofNat 64 (8 * j + k)).toNat = 8 * j + k := by
      rw [BitVec.toNat_ofNat]
      omega
    have hsize := u.sizeOfOperand.double_toNat
    rw [hn] at hsize
    simp only [Core.storeWords, ih (by omega), Loop.bind_ok, hindex, BitVec.lt_def, hindexNat, hsize]
    rcases Nat.lt_or_ge (8 * j + k) (2 * n) with hlt | hge
    · have haddress : u.baseAddrRes + BitVec.ofNat 64 (8 * j + k) * 8 =
          u.baseAddrRes + BitVec.ofNat 64 (8 * (8 * j + k)) := by
        rw [BitVec.ofNat_mul, BitVec.mul_comm]
        rfl
      have hword : readAt u.resultCache ((8 * j + k : Nat) : Int) =
          .ok (resultWord u (8 * j + k)) := by
        have h128 : 8 * j + k < 128 := by omega
        rw [readAt_ofNat _ h128, resultWord, Vector.getElem?_eq_getElem h128]
        rfl
      have hrange : ∀ k', (m.storeMany u.baseAddrRes (resultWord u) k').InRange
          (u.baseAddrRes + BitVec.ofNat 64 (8 * (8 * j + k))) 8 := by
        intro k'
        have hs := m.size.isLt
        unfold Memory.InRange
        rw [Memory.add_ofNat_toNat (by omega)]
        change _ ≤ m.size.toNat
        omega
      have hbytes : ∀ k', (m.storeMany u.baseAddrRes (resultWord u) k').readBytes
          (u.baseAddrRes + BitVec.ofNat 64 (8 * (8 * j + k))) 8 = .ok _ := fun k' =>
        Memory.readBytes_eq_ok_iff.mpr ⟨(Memory.inRange_iff (by omega)).mp (hrange k'), rfl⟩
      have hnext : (m.storeMany u.baseAddrRes (resultWord u) (8 * j + k)).store
          (u.baseAddrRes + BitVec.ofNat 64 (8 * (8 * j + k))) (resultWord u (8 * j + k)) 8 =
            m.storeMany u.baseAddrRes (resultWord u) (8 * j + k + 1) :=
        Memory.store_storeMany (by omega)
      have hstore := Memory.writeDoubleWord_eq_ok_iff.mpr ⟨hrange (8 * j + k), hnext⟩
      rw [if_pos hlt, Nat.min_eq_left (by omega), Nat.min_eq_left (by omega), haddress, hword]
      simp only [Loop.bind_ok, hbytes, hstore]
      rfl
    · rw [if_neg (by omega), Nat.min_eq_right (by omega), Nat.min_eq_right (by omega)]
      rfl

/-- One cycle of the write-back phase. -/
theorem bigmulWriteCycle_eq {u : BigmulUnit} {m : Memory} {n j : Nat}
    (hn : u.sizeOfOperand.toNat = n) (h64 : n ≤ 64) (hj : u.writeOffset = BitVec.ofNat 64 (8 * j))
    (hj64 : 8 * j < 2 * n) (hin : u.baseAddrRes.toNat + 16 * n ≤ m.size.toNat) :
    Core.bigmulWriteCycle (m.storeMany u.baseAddrRes (resultWord u) (8 * j)) u =
      .ok (m.storeMany u.baseAddrRes (resultWord u) (min (8 * (j + 1)) (2 * n)),
        if 2 * n ≤ 8 * (j + 1) then
          { u with
            writeOffset := BitVec.ofNat 64 (8 * (j + 1)), writeDone := true, bigmulDone := true }
        else { u with writeOffset := BitVec.ofNat 64 (8 * (j + 1)) }) := by
  have hsize := u.sizeOfOperand.double_toNat
  rw [hn] at hsize
  have hjNat : (BitVec.ofNat 64 (8 * j)).toNat = 8 * j := by
    rw [BitVec.toNat_ofNat]
    omega
  have hnext : BitVec.ofNat 64 (8 * j) + 8 = BitVec.ofNat 64 (8 * (j + 1)) := by
    rw [Nat.mul_succ, BitVec.ofNat_add]
    rfl
  have hnextNat : (BitVec.ofNat 64 (8 * (j + 1))).toNat = 8 * (j + 1) := by
    rw [BitVec.toNat_ofNat]
    omega
  have hlt : u.writeOffset < u.sizeOfOperand.words * 2 := by
    rw [hj, BitVec.lt_def, hjNat, hsize]
    exact hj64
  have hstore := storeWords_eq hn h64 hj hj64 (Nat.le_refl 8) hin
  rw [Core.bigmulWriteCycle]
  simp only [if_pos hlt, hstore, Loop.bind_ok, Core.finishWriteBack]
  rw [hj, hnext]
  by_cases hend : 2 * n ≤ 8 * (j + 1)
  · have hge : BitVec.ofNat 64 (8 * (j + 1)) ≥ u.sizeOfOperand.words * 2 := by
      rw [ge_iff_le, BitVec.le_def, hnextNat, hsize]
      exact hend
    rw [if_pos hge, if_pos (by omega), if_pos hend]
    rfl
  · have hge : ¬ BitVec.ofNat 64 (8 * (j + 1)) ≥ u.sizeOfOperand.words * 2 := by
      rw [ge_iff_le, BitVec.le_def, hnextNat, hsize]
      exact hend
    rw [if_neg hge, if_neg hend]
    rfl

/-- A machine that executes a BIGMUL, between two stall cycles. -/
structure InBigmul (c : Core) : Prop where
  control : c.controlUnit = { ControlUnit.reset with bigmulStart := true }
  opcode : c.currentInstruction.opcode = 0b0111111#7

theorem JustStartedBigmul.inBigmul {c : Core} (h : JustStartedBigmul c) : InBigmul c :=
  ⟨h.control.trans (setControlSignals_bigmul h.opcode), h.opcode⟩

theorem InBigmul.busy {c : Core} (h : InBigmul c) : c.busy = !c.bigmul.bigmulDone := by
  simp [Core.busy, Core.ldbmBusy, Core.bigmulBusy, h.control, ControlUnit.reset]

theorem InBigmul.stallCycle {v : Vm} (h : InBigmul v.core) : v.stallCycle = v.stallBigmul := by
  simp [Vm.stallCycle, Core.ldbmBusy, h.control, ControlUnit.reset]

/-- `WriteMemory` in the write-back phase of BIGMUL. -/
theorem InBigmul.writeMemory {c : Core} (h : InBigmul c) (hdone : c.bigmul.bigmulDone = false)
    (hwrite : c.bigmul.writeDone = false) {m : Memory} {u : BigmulUnit}
    (hcycle : Core.bigmulWriteCycle c.memory c.bigmul = .ok (m, u)) :
    c.writeMemory = .ok ({ c with memory := m, bigmul := u }, .none) := by
  have hF : isFInstruction c.currentInstruction = false := by
    simp [isFInstruction, h.opcode]
  have hD : isDInstruction c.currentInstruction = false := by
    simp [isDInstruction, h.opcode]
  simp [Core.writeMemory, Core.writeMemoryInteger, Core.readResult, h.control, h.opcode, hF, hD,
    ControlUnit.reset, hdone, hwrite, hcycle, pure, Except.pure]

theorem InBigmul.stallExecute {v : Vm} (h : InBigmul v.core) (hwrite : v.core.bigmul.writeDone = true)
    {u : BigmulUnit} (hu : v.core.bigmul.executeBigmul = .ok u) :
    v.stallCycle =
      .ok { v with core := { v.core with bigmul := u, cycleS := v.core.cycleS + 1 } } := by
  rw [h.stallCycle, Vm.stallBigmul, if_neg (by simp [hwrite]), Vm.stallExecute, hu]
  rfl

theorem InBigmul.stallWrite {v : Vm} (h : InBigmul v.core)
    (hdone : v.core.bigmul.bigmulDone = false) (hwrite : v.core.bigmul.writeDone = false)
    {m : Memory} {u : BigmulUnit}
    (hcycle : Core.bigmulWriteCycle v.core.memory v.core.bigmul = .ok (m, u)) :
    v.stallCycle = .ok { v with core := { v.core with
      memory := m, bigmul := u, cycleS := v.core.cycleS + 1 } } := by
  rw [h.stallCycle, Vm.stallBigmul, if_pos (by simp [hwrite]), Vm.stallWrite,
    h.writeMemory hdone hwrite hcycle, Loop.bind_ok]
  simp [Vm.record, StepDelta.record, Changes.none, pure, Except.pure]

/-- The machine after `t` compute cycles that leave the unit in state `u`. -/
def afterCompute (v : Vm) (t : Nat) (u : BigmulUnit) : Vm :=
  { v with core := { v.core with bigmul := u, cycleS := v.core.cycleS + BitVec.ofNat 32 t } }

theorem InBigmul.afterCompute {v : Vm} (h : InBigmul v.core) (t : Nat) (u : BigmulUnit) :
    InBigmul (afterCompute v t u).core :=
  ⟨h.control, h.opcode⟩

theorem stall_compute {v : Vm} (h : InBigmul v.core) {t : Nat} {u : BigmulUnit}
    (hmid : ∀ k < t, ∃ w, Loop.iter BigmulUnit.executeBigmul k v.core.bigmul = .ok w ∧
      w.writeDone = true)
    (hu : Loop.iter BigmulUnit.executeBigmul t v.core.bigmul = .ok u) :
    Loop.iter Vm.stallCycle t v = .ok (afterCompute v t u) := by
  induction t generalizing u with
  | zero =>
    obtain rfl := Except.ok.inj hu
    simp [Loop.iter_zero, afterCompute]
  | succ t ih =>
    rw [Loop.iter_succ_last] at hu ⊢
    obtain ⟨w, hw, hstep⟩ := Loop.bind_eq_ok hu
    obtain ⟨w', hw', hwrite⟩ := hmid t (Nat.lt_succ_self t)
    obtain rfl : w = w' := Except.ok.inj (hw.symm.trans hw')
    rw [ih (fun k hk => hmid k (Nat.lt_succ_of_lt hk)) hw, Loop.bind_ok,
      (h.afterCompute t w).stallExecute hwrite hstep]
    simp [afterCompute, BitVec.ofNat_add, BitVec.add_assoc]

/-- The machine after `j` cycles of the write-back phase that `v` begins. -/
def writingBack (v : Vm) (j : Nat) : Vm :=
  { v with core := { v.core with
    memory := v.core.memory.storeMany v.core.bigmul.baseAddrRes (resultWord v.core.bigmul) (8 * j)
    bigmul := { v.core.bigmul with writeOffset := BitVec.ofNat 64 (8 * j) }
    cycleS := v.core.cycleS + BitVec.ofNat 32 j } }

/-- The machine after the `r` cycles of the write-back phase that `v` begins. -/
def writtenBack (v : Vm) (r : Nat) : Vm :=
  { v with core := { v.core with
    memory := v.core.memory.storeMany v.core.bigmul.baseAddrRes (resultWord v.core.bigmul)
      (2 * v.core.bigmul.sizeOfOperand.toNat)
    bigmul := { v.core.bigmul with
      writeOffset := BitVec.ofNat 64 (8 * r), writeDone := true, bigmulDone := true }
    cycleS := v.core.cycleS + BitVec.ofNat 32 r } }

theorem writingBack_zero {v : Vm} (h : v.core.bigmul.writeOffset = 0) : writingBack v 0 = v := by
  have hu : { v.core.bigmul with writeOffset := BitVec.ofNat 64 (8 * 0) } = v.core.bigmul := by
    change { v.core.bigmul with writeOffset := 0 } = v.core.bigmul
    rw [← h]
  unfold writingBack
  rw [hu, Memory.storeMany_zero]
  simp

/-- The hypotheses under which the write-back phase runs. -/
structure WriteBackReady (n : Nat) (v : Vm) : Prop where
  inBigmul : InBigmul v.core
  size : v.core.bigmul.sizeOfOperand.toNat = n
  le : n ≤ 64
  notDone : v.core.bigmul.bigmulDone = false
  writeDone : v.core.bigmul.writeDone = false
  writeOffset : v.core.bigmul.writeOffset = 0
  inRange : v.core.bigmul.baseAddrRes.toNat + 16 * n ≤ v.core.memory.size.toNat

theorem WriteBackReady.step {n j : Nat} {v : Vm} (h : WriteBackReady n v) (hj : 8 * j < 2 * n) :
    (writingBack v j).stallCycle =
      .ok (if 2 * n ≤ 8 * (j + 1) then writtenBack v (j + 1) else writingBack v (j + 1)) := by
  have hcycle := bigmulWriteCycle_eq (u := { v.core.bigmul with
    writeOffset := BitVec.ofNat 64 (8 * j) }) (m := v.core.memory) h.size h.le rfl hj h.inRange
  have hstall := InBigmul.stallWrite (v := writingBack v j) ⟨h.inBigmul.control, h.inBigmul.opcode⟩
    h.notDone h.writeDone hcycle
  refine hstall.trans (congrArg Except.ok ?_)
  have hcount : BitVec.ofNat 32 (j + 1) = BitVec.ofNat 32 j + 1 := BitVec.ofNat_add j 1
  by_cases hend : 2 * n ≤ 8 * (j + 1)
  · rw [if_pos hend, if_pos hend, Nat.min_eq_right hend, ← h.size]
    simp only [writingBack, writtenBack, hcount, BitVec.add_assoc]
    rfl
  · rw [if_neg hend, if_neg hend, Nat.min_eq_left (by omega)]
    simp only [writingBack, hcount, BitVec.add_assoc]
    rfl

/-- The cycles of the write-back phase of an `n`-word product. -/
def writeCycles (n : Nat) : Nat := (2 * n) ⌈/⌉ 8

theorem WriteBackReady.run {n : Nat} {v : Vm} (h : WriteBackReady n v) (hpos : 0 < n) :
    (∀ t < writeCycles n, Loop.iter Vm.stallCycle t v = .ok (writingBack v t)) ∧
      Loop.iter Vm.stallCycle (writeCycles n) v = .ok (writtenBack v (writeCycles n)) := by
  have hr : writeCycles n = (2 * n + 7) / 8 := rfl
  have hmid : ∀ t < writeCycles n, Loop.iter Vm.stallCycle t v = .ok (writingBack v t) := by
    intro t ht
    induction t with
    | zero => rw [Loop.iter_zero, writingBack_zero h.writeOffset]
    | succ t ih =>
      rw [Loop.iter_succ_last, ih (by omega), Loop.bind_ok, h.step (by omega), if_neg (by omega)]
  refine ⟨hmid, ?_⟩
  obtain ⟨r, hr'⟩ : ∃ r, writeCycles n = r + 1 := ⟨writeCycles n - 1, by omega⟩
  rw [hr', Loop.iter_succ_last, hmid r (by omega), Loop.bind_ok, h.step (by omega),
    if_pos (by omega)]

/-- The stall cycles of a BIGMUL from its start: each of them finds the unit busy,
and together they leave the product in memory and nothing else changed. -/
theorem bigmul_stall {v : Vm} {n : Nat} (h : JustStartedBigmul v.core)
    (hn : v.core.bigmul.sizeOfOperand.toNat = n) (hpos : 0 < n) (h64 : n ≤ 64)
    (hin : v.core.bigmul.baseAddrRes.toNat + 16 * n ≤ v.core.memory.size.toNat) :
    (∀ t < computeCycles n + writeCycles n, ∃ w, Loop.iter Vm.stallCycle t v = .ok w ∧
      w.core.busy = true) ∧
    ∃ u, Computed n u ∧ SameOperands v.core.bigmul u ∧
      Loop.iter Vm.stallCycle (computeCycles n + writeCycles n) v =
        .ok (writtenBack (afterCompute v (computeCycles n) u) (writeCycles n)) := by
  have hbig := h.inBigmul
  obtain ⟨hmid, u, hu, hcomputed, hsame, -⟩ :=
    compute_run hn hpos h64 h.notDone h.prog h.writeDone
  have hcompute : ∀ t ≤ computeCycles n, ∀ u',
      Loop.iter BigmulUnit.executeBigmul t v.core.bigmul = .ok u' →
      Loop.iter Vm.stallCycle t v = .ok (afterCompute v t u') := by
    intro t ht u' hu'
    refine stall_compute hbig (fun k hk => ?_) hu'
    obtain ⟨w, hw, -, hwrite, -⟩ := hmid k (by omega)
    exact ⟨w, hw, hwrite⟩
  have hfirst := hcompute _ (Nat.le_refl _) u hu
  have hready : WriteBackReady n (afterCompute v (computeCycles n) u) :=
    { inBigmul := hbig.afterCompute _ _
      size := by
        change u.sizeOfOperand.toNat = n
        rw [hsame.sizeOfOperand, hn]
      le := h64
      notDone := hcomputed.notDone
      writeDone := hcomputed.writeDone
      writeOffset := hsame.writeOffset.trans h.writeOffset
      inRange := by
        change u.baseAddrRes.toNat + _ ≤ _
        rw [hsame.baseAddrRes]
        exact hin }
  obtain ⟨hwriting, hwritten⟩ := hready.run hpos
  refine ⟨fun t ht => ?_, u, hcomputed, hsame, ?_⟩
  · rcases Nat.lt_or_ge t (computeCycles n) with hlt | hge
    · obtain ⟨w, hw, hnd, -, -⟩ := hmid t hlt
      refine ⟨_, hcompute t (Nat.le_of_lt hlt) w hw, ?_⟩
      rw [(hbig.afterCompute t w).busy]
      simpa [afterCompute] using hnd
    · obtain ⟨k, rfl⟩ : ∃ k, t = computeCycles n + k := ⟨t - computeCycles n, by omega⟩
      refine ⟨_, by rw [Loop.iter_add, hfirst, Loop.bind_ok]; exact hwriting k (by omega), ?_⟩
      have hk : InBigmul (writingBack (afterCompute v (computeCycles n) u) k).core :=
        ⟨hbig.control, hbig.opcode⟩
      rw [hk.busy]
      simpa [writingBack, afterCompute] using hcomputed.notDone
  · rw [Loop.iter_add, hfirst, Loop.bind_ok, hwritten]

/-- `Decode` of a BIGMUL on an idle unit is such a start. -/
theorem decode_justStarted {c c' : Core} (hop : c.currentInstruction.opcode = 0b0111111#7)
    (hidle : c.bigmul.bigmulDone = true) (h : c.decode = .ok c') : JustStartedBigmul c' := by
  have hctl := setControlSignals_bigmul hop
  simp only [Core.decode, hctl, hop, ControlUnit.reset, hidle] at h
  rw [if_neg (by simp), if_pos (by simp)] at h
  obtain ⟨size, -, h⟩ := Loop.bind_eq_ok h
  obtain ⟨base, -, h⟩ := Loop.bind_eq_ok h
  obtain rfl := Except.ok.inj h
  exact ⟨hctl.symm, hop, rfl, rfl, rfl, rfl⟩

/-- The stall part of `Run` after the start of a BIGMUL ends with the product of the
operands in memory, little-endian, and everything else as it was. -/
theorem bigmul_stall_product (v : Vm) (n : Nat) (h : JustStartedBigmul v.core)
    (hn : v.core.bigmul.sizeOfOperand.toNat = n) (hpos : 1 ≤ n) (h64 : n ≤ 64)
    (hin : v.core.bigmul.baseAddrRes.toNat + 16 * n ≤ v.core.memory.size.toNat) :
    ∃ v' : Vm, (∀ m > computeCycles n + writeCycles n,
        Loop.run (Loop.whileTurn (fun v : Vm => v.core.busy) Vm.stallCycle) m v =
          .ok (.done v')) ∧
      v'.core.bigmul.bigmulDone = true ∧ v'.core.bigmul.writeDone = true ∧
      (∃ word : Nat → Word,
        (∀ i < 2 * n, v'.core.memory.readDoubleWord
          (v.core.bigmul.baseAddrRes + BitVec.ofNat 64 (8 * i)) = .ok (word i)) ∧
        ∑ i ∈ range (2 * n), (word i).toNat * 2 ^ (64 * i) =
          (∑ i ∈ range n, limb v.core.bigmul.cacheA i * 2 ^ (64 * i)) *
            ∑ i ∈ range n, limb v.core.bigmul.cacheB i * 2 ^ (64 * i)) ∧
      (∀ x : Word, x.toNat < v.core.bigmul.baseAddrRes.toNat ∨
        v.core.bigmul.baseAddrRes.toNat + 16 * n ≤ x.toNat →
          v'.core.memory.byte x = v.core.memory.byte x) ∧
      v'.core.programCounter = v.core.programCounter ∧ v'.core.registers = v.core.registers ∧
      v'.core.bigmul.cacheA = v.core.bigmul.cacheA ∧
      v'.core.bigmul.cacheB = v.core.bigmul.cacheB := by
  obtain ⟨hbusy, u, hcomputed, hsame, hend⟩ := bigmul_stall h hn hpos h64 hin
  have hsize := v.core.memory.size.isLt
  have hun : u.sizeOfOperand.toNat = n := by rw [hsame.sizeOfOperand, hn]
  refine ⟨_, fun m hm => Loop.run_while hbusy hend ?_ hm, rfl, rfl, ⟨resultWord u, ?_, ?_⟩, ?_,
    rfl, rfl, hsame.cacheA, hsame.cacheB⟩
  · have hin' : InBigmul (writtenBack (afterCompute v (computeCycles n) u) (writeCycles n)).core :=
      ⟨h.inBigmul.control, h.inBigmul.opcode⟩
    rw [hin'.busy]
    rfl
  · intro i hi
    rw [← hsame.baseAddrRes] at hin ⊢
    refine Memory.readDoubleWord_eq_ok_iff.mpr ⟨?_, ?_⟩
    · unfold Memory.InRange
      rw [Memory.add_ofNat_toNat (by omega)]
      change _ ≤ v.core.memory.size.toNat
      omega
    · change (v.core.memory.storeMany u.baseAddrRes (resultWord u)
        (2 * u.sizeOfOperand.toNat)).load _ 64 8 = _
      rw [hun]
      exact Memory.load_storeMany (by omega) hi
  · rw [← hsame.cacheA, ← hsame.cacheB, ← limbValue_eq_sum, ← limbValue_eq_sum,
      ← limbValue_eq_sum, ← hcomputed.product]
    rfl
  · intro x hx
    rw [← hsame.baseAddrRes] at hin hx
    change (v.core.memory.storeMany u.baseAddrRes (resultWord u)
      (2 * u.sizeOfOperand.toNat)).byte x = _
    rw [hun]
    exact Memory.storeMany_frame (by omega) (by omega)

/-- Three words at address 0 of a small memory. -/
theorem bigmul_stall_product_three :
    let v : Vm := { Vm.initial 0x1000 with core := { Core.initial 0x1000 with
      currentInstruction := 0x3f
      controlUnit := .setControlSignals 0x3f
      bigmul := startedUnit ⟨3, by decide, by decide⟩ (.replicate 64 (-1)) (.replicate 64 (-1)) } }
    ∃ v' : Vm, Loop.run (Loop.whileTurn (fun v : Vm => v.core.busy) Vm.stallCycle) 7 v =
      .ok (.done v') ∧ v'.core.bigmul.bigmulDone = true := by
  intro v
  obtain ⟨v', hrun, hdone, -⟩ := bigmul_stall_product v 3 ⟨rfl, by decide, rfl, rfl, rfl, rfl⟩ rfl
    (by decide) (by decide) (by decide)
  exact ⟨v', hrun 7 (by decide), hdone⟩

end RiscvSim
