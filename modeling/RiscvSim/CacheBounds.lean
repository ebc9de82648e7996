import Mathlib
import RiscvSim.BigmulStall
import RiscvSim.Stall

/-! The indices into the caches of the unit. A product of up to 64 words keeps them inside the
arrays; a longer one leaves the operand caches on diagonal 64. -/

namespace RiscvSim

open Limbs

theorem Memory.readByte_error {m : Memory} {address : Word} {e : Fault}
    (h : m.readByte address = .error e) : e = .memoryOutOfRange := by
  unfold Memory.readByte Memory.read at h
  split at h
  · exact (Except.error.inj h).symm
  · split at h
    · exact nomatch h
    · exact (Except.error.inj h).symm

theorem Memory.readBytes_error {m : Memory} {address : Word} {n : Nat} {e : Fault}
    (h : m.readBytes address n = .error e) : e = .memoryOutOfRange := by
  induction n with
  | zero => exact nomatch h
  | succ n ih =>
    rcases Loop.bind_eq_error h with hfront | ⟨bytes, -, h⟩
    · exact ih hfront
    · rcases Loop.bind_eq_error h with hbyte | ⟨b, -, h⟩
      · exact Memory.readByte_error hbyte
      · exact nomatch h

theorem Memory.writeGeneric_error {w : Nat} {m : Memory} {address : Word} {value : BitVec w}
    {n : Nat} {e : Fault} (h : m.writeGeneric address value n = .error e) :
    e = .memoryOutOfRange := by
  induction n with
  | zero => exact nomatch h
  | succ n ih =>
    rcases Loop.bind_eq_error h with hfront | ⟨m', -, h⟩
    · exact ih hfront
    · unfold Memory.write at h
      split at h
      · exact nomatch h
      · exact (Except.error.inj h).symm

theorem Memory.writeDoubleWord_error {m : Memory} {address value : Word} {e : Fault}
    (h : m.writeDoubleWord address value = .error e) : e = .memoryOutOfRange := by
  unfold Memory.writeDoubleWord at h
  split at h
  · exact (Except.error.inj h).symm
  · exact Memory.writeGeneric_error h

section

variable {u : BigmulUnit} {m : Memory} {e : Fault}

/-- A product of up to 64 words has its result words inside the result cache. -/
theorem storeWords_error (h64 : u.sizeOfOperand.toNat ≤ 64) {k : Nat}
    (h : Core.storeWords u (u.sizeOfOperand.words * 2) m k = .error e) :
    e = .memoryOutOfRange := by
  induction k with
  | zero => exact nomatch h
  | succ k ih =>
    rcases Loop.bind_eq_error h with hfront | ⟨m', -, h⟩
    · exact ih hfront
    · dsimp only at h
      split at h
      · rename_i hlt
        have hsize := u.sizeOfOperand.double_toNat
        rw [BitVec.lt_def, hsize] at hlt
        have hindex : (u.writeOffset + BitVec.ofNat 64 k).toNat < 128 := by omega
        rw [readAt_ofNat u.resultCache hindex, Loop.bind_ok] at h
        rcases Loop.bind_eq_error h with hold | ⟨old, -, h⟩
        · exact Memory.readBytes_error hold
        rcases Loop.bind_eq_error h with hwrite | ⟨m'', -, h⟩
        · exact Memory.writeDoubleWord_error hwrite
        rcases Loop.bind_eq_error h with hnew | ⟨new, -, h⟩
        · exact Memory.readBytes_error hnew
        · exact nomatch h
      · exact nomatch h

theorem bigmulWriteCycle_error (h64 : u.sizeOfOperand.toNat ≤ 64)
    (h : Core.bigmulWriteCycle m u = .error e) : e = .memoryOutOfRange := by
  have hsize := u.sizeOfOperand.double_toNat
  have hprint {m : Memory} {v : BigmulUnit} (hv : v.sizeOfOperand = u.sizeOfOperand) :
      Core.finishWriteBack m v ≠ .error e := by
    have hle : (u.sizeOfOperand.words * 2).toNat ≤ 128 := by omega
    simp only [Core.finishWriteBack, hv, if_pos hle]
    split <;> simp
  unfold Core.bigmulWriteCycle at h
  dsimp only at h
  split at h
  · rcases Loop.bind_eq_error h with hstore | ⟨m', -, h⟩
    · exact storeWords_error h64 hstore
    · exact absurd h (hprint rfl)
  · exact absurd h (hprint rfl)

end

/-- A BIGMUL of up to 64 words in its write-back phase, or behind it. -/
structure WritesBack (v : Vm) : Prop where
  inBigmul : InBigmul v.core
  size : v.core.bigmul.sizeOfOperand.toNat ≤ 64
  phase : v.core.bigmul.writeDone = false ∨ v.core.bigmul.bigmulDone = true

/-- What a write-back cycle keeps of the unit. -/
theorem bigmulWriteCycle_phase {m m' : Memory} {u u' : BigmulUnit}
    (h : Core.bigmulWriteCycle m u = .ok (m', u')) :
    u'.sizeOfOperand = u.sizeOfOperand ∧
      (u'.writeDone = u.writeDone ∧ u'.bigmulDone = u.bigmulDone ∨ u'.bigmulDone = true) := by
  have hfinish {m m' : Memory} {v v' : BigmulUnit} (h : Core.finishWriteBack m v = .ok (m', v')) :
      v'.sizeOfOperand = v.sizeOfOperand ∧
        (v'.writeDone = v.writeDone ∧ v'.bigmulDone = v.bigmulDone ∨ v'.bigmulDone = true) := by
    unfold Core.finishWriteBack at h
    dsimp only at h
    split at h
    · split at h
      · obtain ⟨rfl, rfl⟩ := Prod.mk.inj (Except.ok.inj h)
        exact ⟨rfl, .inr rfl⟩
      · exact nomatch h
    · obtain ⟨rfl, rfl⟩ := Prod.mk.inj (Except.ok.inj h)
      exact ⟨rfl, .inl ⟨rfl, rfl⟩⟩
  unfold Core.bigmulWriteCycle at h
  dsimp only at h
  split at h
  · obtain ⟨m₁, -, h⟩ := Loop.bind_eq_ok h
    obtain ⟨hsize, hphase⟩ := hfinish h
    exact ⟨hsize, hphase⟩
  · exact hfinish h

section

variable {v w : Vm}

theorem WritesBack.busy_iff (h : WritesBack v) (hbusy : v.core.busy = true) :
    v.core.bigmul.bigmulDone = false ∧ v.core.bigmul.writeDone = false := by
  rw [h.inBigmul.busy] at hbusy
  have hdone : v.core.bigmul.bigmulDone = false := by simpa using hbusy
  refine ⟨hdone, h.phase.resolve_right ?_⟩
  simp [hdone]

/-- A stall cycle of the write-back phase is one cycle of the unit. -/
theorem WritesBack.stallCycle_eq (h : WritesBack v) (hbusy : v.core.busy = true) :
    v.stallCycle = Core.bigmulWriteCycle v.core.memory v.core.bigmul >>= fun r =>
      .ok { v with core := { v.core with
        memory := r.1, bigmul := r.2, cycleS := v.core.cycleS + 1 } } := by
  obtain ⟨hdone, hwrite⟩ := h.busy_iff hbusy
  have hF : isFInstruction v.core.currentInstruction = false := by
    simp [isFInstruction, h.inBigmul.opcode]
  have hD : isDInstruction v.core.currentInstruction = false := by
    simp [isDInstruction, h.inBigmul.opcode]
  rw [h.inBigmul.stallCycle, Vm.stallBigmul, if_pos (by simp [hwrite]), Vm.stallWrite]
  cases hcycle : Core.bigmulWriteCycle v.core.memory v.core.bigmul with
  | error e =>
    have hcall : v.core.writeMemory = .error e := by
      simp [Core.writeMemory, Core.writeMemoryInteger, Core.readResult, h.inBigmul.control,
        h.inBigmul.opcode, hF, hD, ControlUnit.reset, hdone, hwrite, hcycle]
    rw [hcall]
    rfl
  | ok r =>
    rw [h.inBigmul.writeMemory hdone hwrite hcycle, Loop.bind_ok]
    simp [Vm.record, StepDelta.record, Changes.none, pure, Except.pure]

theorem WritesBack.step (h : WritesBack v) (hbusy : v.core.busy = true)
    (hstep : v.stallCycle = .ok w) : WritesBack w := by
  rw [h.stallCycle_eq hbusy] at hstep
  obtain ⟨⟨m, u⟩, hcycle, hstep⟩ := Loop.bind_eq_ok hstep
  obtain rfl := Except.ok.inj hstep
  obtain ⟨hdone, hwrite⟩ := h.busy_iff hbusy
  obtain ⟨hsize, hphase⟩ := bigmulWriteCycle_phase hcycle
  refine ⟨⟨h.inBigmul.control, h.inBigmul.opcode⟩, ?_, ?_⟩
  · change u.sizeOfOperand.toNat ≤ 64
    rw [hsize]
    exact h.size
  · exact hphase.imp (fun hsame => hsame.1.trans hwrite) id

theorem WritesBack.error (h : WritesBack v) (hbusy : v.core.busy = true) {e : Fault}
    (hstep : v.stallCycle = .error e) : e = .memoryOutOfRange := by
  rw [h.stallCycle_eq hbusy] at hstep
  rcases Loop.bind_eq_error hstep with hcycle | ⟨r, -, hstep⟩
  · exact bigmulWriteCycle_error h.size hcycle
  · exact nomatch hstep

/-- The stall loop of a BIGMUL of up to 64 words only ever leaves the memory. -/
theorem stall_error (h : JustStartedBigmul v.core) (h64 : v.core.bigmul.sizeOfOperand.toNat ≤ 64)
    {n : Nat} {e : Fault}
    (hrun : Loop.run (Loop.whileTurn (fun v : Vm => v.core.busy) Vm.stallCycle) n v = .error e) :
    e = .memoryOutOfRange := by
  obtain ⟨t, hreach, hbusy, herror⟩ := Loop.run_steps.2.2 e hrun
  have hpos := v.core.bigmul.sizeOfOperand.pos
  obtain ⟨hmid, u, hu, hcomputed, hsame, -⟩ :=
    compute_run rfl hpos h64 h.notDone h.prog h.writeDone
  have hcompute : ∀ k ≤ computeCycles v.core.bigmul.sizeOfOperand.toNat, ∀ u',
      Loop.iter BigmulUnit.executeBigmul k v.core.bigmul = .ok u' →
      Loop.iter Vm.stallCycle k v = .ok (afterCompute v k u') := by
    intro k hk u' hu'
    refine stall_compute h.inBigmul (fun j hj => ?_) hu'
    obtain ⟨w, hw, -, hwrite, -⟩ := hmid j (by omega)
    exact ⟨w, hw, hwrite⟩
  have hfirst := hcompute _ le_rfl u hu
  have hsteps : Loop.Steps (fun v : Vm => v.core.busy) Vm.stallCycle v
      (afterCompute v (computeCycles v.core.bigmul.sizeOfOperand.toNat) u) := by
    refine Loop.steps_of_iter (fun k hk => ?_) hfirst
    obtain ⟨w, hw, hdone, -⟩ := hmid k hk
    refine ⟨_, hcompute k (Nat.le_of_lt hk) w hw, ?_⟩
    rw [(h.inBigmul.afterCompute k w).busy]
    simpa [afterCompute] using hdone
  have hback : WritesBack (afterCompute v (computeCycles v.core.bigmul.sizeOfOperand.toNat) u) := by
    refine ⟨h.inBigmul.afterCompute _ _, ?_, .inl hcomputed.writeDone⟩
    change u.sizeOfOperand.toNat ≤ 64
    rw [hsame.sizeOfOperand]
    exact h64
  rcases hreach.total hsteps with hbefore | hafter
  · cases hbefore with
    | refl => exact hback.error hbusy herror
    | step _ hok =>
      rw [herror] at hok
      cases hok
  · exact (hafter.invariant WritesBack (fun _ _ => WritesBack.step) hback).error hbusy herror

end

/-- The unit on one of the first 65 diagonals of a product of more than 64 words. -/
structure Early (n s k : Nat) (u : BigmulUnit) : Prop where
  size : u.sizeOfOperand.toNat = n
  notDone : u.bigmulDone = false
  started : u.bigmulProg ≠ 0
  writeDone : u.writeDone = true
  sDiag : u.sDiag = s
  iMax : u.iMax = s
  kIter : u.kIter = k
  le : k ≤ s
  first : s = 64 → k = 0

section

variable {n s k : Nat} {u : BigmulUnit}

theorem Early.batchCycle_eq (h : Early n s k u) : u.executeBigmul = u.batchCycle := by
  have hnd : ¬ (u.bigmulDone = true) := by simp [h.notDone]
  rw [BigmulUnit.executeBigmul, BigmulUnit.singlecycle, if_neg hnd, if_neg h.started]

/-- The first 64 diagonals stay inside the operand caches. -/
theorem Early.step (h : Early n s k u) (hn : 64 < n) (hs : s < 64) :
    ∃ v, u.executeBigmul = .ok v ∧
      (Early n s (k + 25) v ∧ k + 25 ≤ s ∨ Early n (s + 1) 0 v) := by
  have hle := h.le
  obtain ⟨b, hb, -⟩ := batchLoop_eq h.sDiag
    (show u.iMax = ((s + 1 : Nat) : Int) - 1 by rw [h.iMax]; omega)
    (fun i hi => by omega) (k := k) (by omega) (by omega) 25 0 Acc.clear
    (by rw [Acc.toNat_clear, productBound]; norm_num)
  have hprocessed : 0 + min 25 (s + 1 - k) > 0 := by omega
  rw [h.batchCycle_eq, BigmulUnit.batchCycle, BigmulUnit.batchSize, h.kIter, hb, Loop.bind_ok]
  simp only [hprocessed, if_true]
  by_cases hend : s < k + 25
  · have hk : k + min 25 (s + 1 - k) = s + 1 := by omega
    have hgt : ((s + 1 : Nat) : Int) > u.iMax := by
      rw [h.iMax]
      omega
    have hstart : diagonalStart n (s + 1) = 0 := by
      simp only [diagonalStart]
      omega
    have hstop : (diagonalStop n (s + 1) : Int) - 1 = (s + 1 : Nat) := by
      simp only [diagonalStop]
      omega
    rw [hk, if_pos hgt]
    refine ⟨_, finishDiagonal_next (n := n) (s := s) h.size h.sDiag (by omega) (by omega),
      .inr ⟨h.size, h.notDone, h.started, h.writeDone, rfl, hstop, ?_, Nat.zero_le _, fun _ => rfl⟩⟩
    change ((diagonalStart n (s + 1) : Nat) : Int) = _
    rw [hstart]
  · have hk : k + min 25 (s + 1 - k) = k + 25 := by omega
    have hgt : ¬ ((k + 25 : Nat) : Int) > u.iMax := by
      rw [h.iMax]
      omega
    rw [hk, if_neg hgt]
    exact ⟨_, rfl, .inl ⟨⟨h.size, h.notDone, h.started, h.writeDone, h.sDiag, h.iMax, rfl, by omega,
      by omega⟩, by omega⟩⟩

/-- On diagonal 64 the first pair needs word 64 of the second operand. -/
theorem Early.fault (h : Early n 64 0 u) : u.executeBigmul = .error .arrayIndex := by
  have hstep : u.batchStep ⟨0, u.kIter, .clear⟩ = .error .arrayIndex := by
    simp only [BigmulUnit.batchStep, h.kIter, h.sDiag]
    rfl
  have hle : u.kIter ≤ u.iMax := by
    rw [h.kIter, h.iMax]
    omega
  rw [h.batchCycle_eq, BigmulUnit.batchCycle, BigmulUnit.batchSize, BigmulUnit.batchLoop,
    if_pos hle, hstep]
  rfl

/-- The compute phase of more than 64 words gets to diagonal 64. -/
theorem Early.reaches (hn : 64 < n) (h : Early n 0 0 u) :
    ∃ N t, 0 < N ∧ Loop.iter BigmulUnit.executeBigmul N u = .ok t ∧ Early n 64 0 t ∧
      ∀ j < N, ∃ w, Loop.iter BigmulUnit.executeBigmul j u = .ok w ∧
        w.bigmulDone = false ∧ w.writeDone = true := by
  have hbody : ∀ m v, (∃ s k, Early n s k v ∧ s < 64 ∧ (64 - s) * 100 - k = m) →
      ∃ w, v.executeBigmul = .ok w ∧
        ((∃ r < m, ∃ s k, Early n s k w ∧ s < 64 ∧ (64 - s) * 100 - k = r) ∨ Early n 64 0 w) := by
    rintro m v ⟨s, k, hv, hs, rfl⟩
    obtain ⟨w, hw, ⟨hnext, hle⟩ | hnext⟩ := hv.step hn hs
    · exact ⟨w, hw, .inl ⟨_, by omega, s, k + 25, hnext, hs, rfl⟩⟩
    · rcases Nat.lt_or_ge (s + 1) 64 with hlt | hge
      · have hle := hv.le
        exact ⟨w, hw, .inl ⟨_, by omega, s + 1, 0, hnext, hlt, rfl⟩⟩
      · obtain rfl : s = 63 := by omega
        exact ⟨w, hw, .inr hnext⟩
  obtain ⟨N, t, hN, ht, hend, hbusy⟩ := Loop.iter_until hbody ⟨0, 0, h, by omega, rfl⟩
  refine ⟨N, t, hN, ht, hend, fun j hj => ?_⟩
  obtain ⟨w, hw, -, s, k, hearly, -⟩ := hbusy j hj
  exact ⟨w, hw, hearly.notDone, hearly.writeDone⟩

theorem startBigmul_early (hn : u.sizeOfOperand.toNat = n) : Early n 0 0 u.startBigmul :=
  ⟨hn, rfl, by simp [BigmulUnit.startBigmul], rfl, rfl, rfl, rfl, le_rfl, fun h => absurd h (by omega)⟩

end

/-- A BIGMUL of more than 64 words leaves the operand caches. -/
theorem stall_fault {v : Vm} (h : JustStartedBigmul v.core)
    (h64 : 64 < v.core.bigmul.sizeOfOperand.toNat) :
    ∃ n, Loop.run (Loop.whileTurn (fun v : Vm => v.core.busy) Vm.stallCycle) n v =
      .error .arrayIndex := by
  obtain ⟨N, t, hN, ht, hearly, hmid⟩ :=
    Early.reaches h64 (startBigmul_early (u := v.core.bigmul) rfl)
  have hfirst := executeBigmul_start h.notDone h.prog
  have hcompute : ∀ k ≤ N, ∀ u', Loop.iter BigmulUnit.executeBigmul k v.core.bigmul = .ok u' →
      Loop.iter Vm.stallCycle k v = .ok (afterCompute v k u') := by
    intro k hk u' hu'
    refine stall_compute h.inBigmul (fun j hj => ?_) hu'
    rcases Nat.eq_zero_or_pos j with rfl | hpos
    · exact ⟨_, rfl, h.writeDone⟩
    · obtain ⟨w, hw, -, hwrite⟩ := hmid j (by omega)
      exact ⟨w, (Loop.iter_congr_first hfirst hpos).trans hw, hwrite⟩
  have hlast := hcompute N le_rfl t ((Loop.iter_congr_first hfirst hN).trans ht)
  have hsteps : Loop.Steps (fun v : Vm => v.core.busy) Vm.stallCycle v (afterCompute v N t) := by
    refine Loop.steps_of_iter (fun k hk => ?_) hlast
    rcases Nat.eq_zero_or_pos k with rfl | hpos
    · refine ⟨v, rfl, ?_⟩
      rw [h.inBigmul.busy, h.notDone]
      rfl
    · obtain ⟨w, hw, hdone, -⟩ := hmid k hk
      have hw' := (Loop.iter_congr_first hfirst hpos).trans hw
      refine ⟨_, hcompute k (Nat.le_of_lt hk) w hw', ?_⟩
      rw [(h.inBigmul.afterCompute k w).busy]
      simpa [afterCompute] using hdone
  have hbusy : (afterCompute v N t).core.busy = true := by
    rw [(h.inBigmul.afterCompute N t).busy]
    simpa [afterCompute] using hearly.notDone
  refine hsteps.run_error hbusy ?_
  have hin := h.inBigmul.afterCompute N t
  have hwrite : (afterCompute v N t).core.bigmul.writeDone = true := hearly.writeDone
  have hfault : (afterCompute v N t).core.bigmul.executeBigmul = .error .arrayIndex := hearly.fault
  rw [hin.stallCycle, Vm.stallBigmul, if_neg (by simp [hwrite]), Vm.stallExecute, hfault]
  rfl

theorem chooseSize_toNat (old : OperandSize) (value : Word) :
    (Core.chooseSize old value).toNat =
      if value ≠ 0 ∧ value < 512 then value.toNat else old.toNat := by
  unfold Core.chooseSize
  split <;> rfl

/-- `Decode` of a BIGMUL on an idle unit. -/
theorem decode_bigmul {c : Core} (hop : c.currentInstruction.opcode = 0b0111111#7)
    (hidle : c.bigmul.bigmulDone = true) :
    c.decode = c.registers.readGprChecked (Instr.field c.currentInstruction 20 7).toNat >>=
      fun size => c.registers.readGprChecked (Instr.field c.currentInstruction 15 7).toNat >>=
        fun baseAddrRes => .ok { c with
          controlUnit := { ControlUnit.reset with bigmulStart := true }
          bigmul := { c.bigmul with
            sizeOfOperand := Core.chooseSize c.bigmul.sizeOfOperand size
            baseAddrRes := baseAddrRes
            bigmulProg := 0
            bigmulDone := false
            writeOffset := 0
            writeDone := true } } := by
  have hctl := setControlSignals_bigmul hop
  simp only [Core.decode, hctl, hop, ControlUnit.reset, hidle]
  rw [if_neg (by simp), if_pos (by simp)]
  rfl

/-- The indices into the caches stay inside the arrays exactly for products of up to 64 words,
whether the size comes from a register or was left by an earlier BIGMUL. -/
theorem bigmul_inBounds_iff (v : Vm) (c : Core) (value : Word)
    (hop : c.currentInstruction.opcode = 0b0111111#7) (hidle : c.bigmul.bigmulDone = true)
    (hrs2 : c.registers.readGprChecked (Instr.field c.currentInstruction 20 7).toNat = .ok value)
    (hdecode : c.decode = .ok v.core) :
    (∀ n, Loop.run (Loop.whileTurn (fun v : Vm => v.core.busy) Vm.stallCycle) n v ≠
        .error .arrayIndex) ↔
      0 < value.toNat ∧ value.toNat ≤ 64 ∨
        (value.toNat = 0 ∨ 512 ≤ value.toNat) ∧ c.bigmul.sizeOfOperand.toNat ≤ 64 := by
  have hstart := decode_justStarted hop hidle hdecode
  have hsize : v.core.bigmul.sizeOfOperand.toNat =
      (Core.chooseSize c.bigmul.sizeOfOperand value).toNat := by
    rw [decode_bigmul hop hidle, hrs2, Loop.bind_ok] at hdecode
    obtain ⟨base, -, hdecode⟩ := Loop.bind_eq_ok hdecode
    rw [← Except.ok.inj hdecode]
  have hzero : value ≠ 0 ↔ 0 < value.toNat := by
    rw [Nat.pos_iff_ne_zero, not_iff_not]
    exact ⟨fun h => by rw [h]; rfl, fun h => BitVec.eq_of_toNat_eq h⟩
  have hlt : value < 512 ↔ value.toNat < 512 := BitVec.lt_def
  simp only [chooseSize_toNat, hzero, hlt] at hsize
  have hiff : v.core.bigmul.sizeOfOperand.toNat ≤ 64 ↔ 0 < value.toNat ∧ value.toNat ≤ 64 ∨
      (value.toNat = 0 ∨ 512 ≤ value.toNat) ∧ c.bigmul.sizeOfOperand.toNat ≤ 64 := by
    split at hsize <;> omega
  rw [← hiff]
  constructor
  · intro hall
    by_contra h64
    obtain ⟨n, hn⟩ := stall_fault hstart (Nat.lt_of_not_le h64)
    exact hall n hn
  · intro h64 n hn
    exact nomatch stall_error hstart h64 hn

/-- A machine at `bigmul x4, 0(x0)` with `n` in `x4`. -/
def sizedBigmul (n : Word) : Core := { Core.initial 0x1000 with
  currentInstruction := 0x40003f
  registers := RegisterFile.reset.writeGpr 4 n }

theorem sizedBigmul_size (n : Word) : (sizedBigmul n).registers.readGprChecked
    (Instr.field (sizedBigmul n).currentInstruction 20 7).toNat = .ok n := by
  have hfield : (Instr.field 0x40003f 20 7).toNat = 4 := by decide
  show (RegisterFile.reset.writeGpr 4 n).readGprChecked (Instr.field 0x40003f 20 7).toNat = .ok n
  rw [hfield]
  simp [RegisterFile.readGprChecked, RegisterFile.readGpr_writeGpr]

theorem sizedBigmul_decode (n : Word) : ∃ d, (sizedBigmul n).decode = .ok d ∧
    d.bigmul.sizeOfOperand = Core.chooseSize .default n := by
  have hop : (sizedBigmul n).currentInstruction.opcode = 0b0111111#7 := by
    show Instr.opcode 0x40003f#32 = 0b0111111#7
    decide
  have hfield : (Instr.field (sizedBigmul n).currentInstruction 15 7).toNat = 0 := by
    show (Instr.field 0x40003f 15 7).toNat = 0
    decide
  have hdecode := decode_bigmul hop rfl
  rw [sizedBigmul_size, Loop.bind_ok, hfield] at hdecode
  exact ⟨_, hdecode, rfl⟩

theorem bigmul_inBounds_iff_three : ∃ d, (sizedBigmul 3).decode = .ok d ∧
    ∀ n, Loop.run (Loop.whileTurn (fun v : Vm => v.core.busy) Vm.stallCycle) n
      { Vm.initial 0x1000 with core := d } ≠ .error .arrayIndex := by
  obtain ⟨d, hd, -⟩ := sizedBigmul_decode 3
  refine ⟨d, hd, ?_⟩
  exact (bigmul_inBounds_iff { Vm.initial 0x1000 with core := d } (sizedBigmul 3) 3 rfl rfl
    (sizedBigmul_size 3) hd).mpr (.inl ⟨by decide, by decide⟩)

/-- A product of 65 words leaves the arrays. -/
theorem bigmul_not_inBounds :
    ¬ ∀ (v : Vm) (c : Core), c.currentInstruction.opcode = 0b0111111#7 →
      c.bigmul.bigmulDone = true → c.decode = .ok v.core →
      ∀ n, Loop.run (Loop.whileTurn (fun v : Vm => v.core.busy) Vm.stallCycle) n v ≠
        .error .arrayIndex := by
  intro hclaim
  obtain ⟨d, hd, hsize⟩ := sizedBigmul_decode 65
  have h64 : 64 < d.bigmul.sizeOfOperand.toNat := by
    rw [hsize]
    decide
  obtain ⟨n, hn⟩ := stall_fault (v := { Vm.initial 0x1000 with core := d })
    (decode_justStarted rfl rfl hd) h64
  exact hclaim { Vm.initial 0x1000 with core := d } (sizedBigmul 65) rfl rfl hd n hn

end RiscvSim
