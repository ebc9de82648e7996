import RiscvSim.CacheBounds
import RiscvSim.ResetRun

/-! Two machines that agree on what a BIGMUL should depend on, stepped through the
same BIGMUL. -/

namespace RiscvSim

open Loop (Both)

/-- The result caches agree on the words below `k`. -/
def AgreeBelow (k : Int) (r r' : Vector Word 128) : Prop :=
  ∀ i < k, readAt r' i = readAt r i

theorem writeAt_agree {k : Int} {r r' : Vector Word 128} (h : AgreeBelow k r r') (x : Word) :
    Both (AgreeBelow (k + 1)) (writeAt r k x) (writeAt r' k x) := by
  unfold writeAt
  by_cases hk : 0 ≤ k ∧ k < (128 : Nat)
  · rw [if_pos hk, if_pos hk]
    intro i hi
    rcases i with i | i
    · obtain ⟨k, rfl⟩ := Int.eq_ofNat_of_zero_le hk.1
      change readAt _ ((i : Nat) : Int) = readAt _ ((i : Nat) : Int)
      have hi128 : i < 128 := by
        have : (i : Int) < k + 1 := hi
        omega
      rw [readAt_ofNat _ hi128, readAt_ofNat _ hi128]
      by_cases heq : k = i
      · subst heq
        simp
      · have hlt : (i : Int) < k := by
          have : (i : Int) < k + 1 := hi
          omega
        have hsame := h i hlt
        rw [readAt_ofNat _ hi128, readAt_ofNat _ hi128] at hsame
        simpa [heq] using hsame
    · rfl
  · rw [if_neg hk, if_neg hk]
    trivial

/-- The units stand on the same diagonal and have emitted the same words. -/
structure SameDiagonal (u u' : BigmulUnit) : Prop where
  sDiag : u'.sDiag = u.sDiag
  iMax : u'.iMax = u.iMax
  kIter : u'.kIter = u.kIter
  acc : u'.acc = u.acc
  emitted : AgreeBelow u.sDiag u.resultCache u'.resultCache

/-- The units are at the same point of the same product. -/
structure SameProduct (u u' : BigmulUnit) : Prop where
  cacheA : u'.cacheA = u.cacheA
  cacheB : u'.cacheB = u.cacheB
  sizeOfOperand : u'.sizeOfOperand = u.sizeOfOperand
  baseAddrRes : u'.baseAddrRes = u.baseAddrRes
  bigmulDone : u'.bigmulDone = u.bigmulDone
  bigmulProg : u'.bigmulProg = u.bigmulProg
  writeDone : u'.writeDone = u.writeDone
  writeOffset : u'.writeOffset = u.writeOffset
  computing : u.writeDone = true → u.bigmulProg ≠ 0 → SameDiagonal u u'
  computed : u.writeDone = false → u.bigmulProg = 0
  writing : u.writeDone = false →
    AgreeBelow (2 * u.sizeOfOperand.toNat) u.resultCache u'.resultCache

variable {u u' : BigmulUnit}

theorem batchLoop_congr (hA : u'.cacheA = u.cacheA) (hB : u'.cacheB = u.cacheB)
    (hs : u'.sDiag = u.sDiag) (hmax : u'.iMax = u.iMax) (left : Nat) (b : BigmulUnit.Batch) :
    u'.batchLoop left b = u.batchLoop left b := by
  induction left generalizing b with
  | zero => rfl
  | succ left ih =>
    have hstep : u'.batchStep b = u.batchStep b := by
      unfold BigmulUnit.batchStep
      rw [hA, hB, hs]
    simp only [BigmulUnit.batchLoop, hmax, hstep]
    split
    · congr 1
      funext b'
      exact ih b'
    · rfl

/-- The end of a diagonal. -/
theorem SameProduct.finishDiagonal (h : SameProduct u u') (hwrite : u.writeDone = true)
    (hprog : u.bigmulProg ≠ 0) : Both SameProduct u.finishDiagonal u'.finishDiagonal := by
  have hd := h.computing hwrite hprog
  unfold BigmulUnit.finishDiagonal
  rw [hd.sDiag, hd.acc]
  refine (writeAt_agree hd.emitted _).bind fun r r' hr => ?_
  dsimp only
  rw [h.sizeOfOperand]
  by_cases hlast : u.sDiag = (u.sizeOfOperand.toNat : Int) * 2 - 2
  · rw [if_pos hlast, if_pos hlast]
    rw [hlast] at hr
    have hagree := writeAt_agree (k := (u.sizeOfOperand.toNat : Int) * 2 - 2 + 1) hr
      u.acc.shr64.low64
    refine hagree.bind fun s s' hs => ?_
    have htwo : (u.sizeOfOperand.toNat : Int) * 2 - 2 + 1 + 1 = 2 * u.sizeOfOperand.toNat := by
      omega
    rw [htwo] at hs
    exact ⟨h.cacheA, h.cacheB, rfl, h.baseAddrRes, h.bigmulDone, rfl, rfl,
      h.writeOffset, fun hw => absurd hw Bool.false_ne_true, fun _ => rfl, fun _ => hs⟩
  · rw [if_neg hlast, if_neg hlast]
    exact ⟨h.cacheA, h.cacheB, rfl, h.baseAddrRes, h.bigmulDone, h.bigmulProg,
      h.writeDone, h.writeOffset, fun _ _ => ⟨rfl, rfl, rfl, rfl, hr⟩, h.computed,
      fun hw => absurd (hwrite.symm.trans hw) Bool.noConfusion⟩

theorem SameProduct.batchCycle (h : SameProduct u u') (hwrite : u.writeDone = true)
    (hprog : u.bigmulProg ≠ 0) : Both SameProduct u.batchCycle u'.batchCycle := by
  have hd := h.computing hwrite hprog
  unfold BigmulUnit.batchCycle
  rw [hd.kIter, batchLoop_congr h.cacheA h.cacheB hd.sDiag hd.iMax]
  refine (Both.of_eq rfl).bind fun b b' hb => ?_
  subst hb
  dsimp only
  have hacc : (if b'.processed > 0 then u'.acc.addU192 b'.sum.a0 b'.sum.a1 b'.sum.a2 else u'.acc) =
      if b'.processed > 0 then u.acc.addU192 b'.sum.a0 b'.sum.a1 b'.sum.a2 else u.acc := by
    rw [hd.acc]
  have hmore : (b'.kIter > u'.iMax) = (b'.kIter > u.iMax) := by rw [hd.iMax]
  simp only [hacc, hmore]
  generalize (if b'.processed > 0 then u.acc.addU192 b'.sum.a0 b'.sum.a1 b'.sum.a2 else u.acc) = acc
  have hnext : SameProduct { u with kIter := b'.kIter, acc } { u' with kIter := b'.kIter, acc } :=
    ⟨h.cacheA, h.cacheB, h.sizeOfOperand, h.baseAddrRes, h.bigmulDone, h.bigmulProg, h.writeDone,
      h.writeOffset, fun _ _ => ⟨hd.sDiag, hd.iMax, rfl, rfl, hd.emitted⟩, h.computed, h.writing⟩
  split
  · exact hnext.finishDiagonal hwrite hprog
  · exact hnext

/-- A started unit has forgotten what was in it, apart from the operands. -/
theorem SameProduct.startBigmul (h : SameProduct u u') :
    SameProduct u.startBigmul u'.startBigmul where
  cacheA := h.cacheA
  cacheB := h.cacheB
  sizeOfOperand := h.sizeOfOperand
  baseAddrRes := h.baseAddrRes
  bigmulDone := rfl
  bigmulProg := rfl
  writeDone := rfl
  writeOffset := h.writeOffset
  computing _ _ := ⟨rfl, rfl, rfl, rfl, fun i hi => by
    cases i with
    | ofNat i => exact absurd hi (Int.not_lt.mpr (Int.natCast_nonneg i))
    | negSucc i => rfl⟩
  computed hw := absurd hw Bool.noConfusion
  writing hw := absurd hw Bool.noConfusion

theorem SameProduct.executeBigmul (h : SameProduct u u') (hwrite : u.writeDone = true) :
    Both SameProduct u.executeBigmul u'.executeBigmul := by
  unfold BigmulUnit.executeBigmul BigmulUnit.singlecycle
  rw [h.bigmulDone, h.bigmulProg]
  split
  · exact h
  split
  · exact h.startBigmul.batchCycle rfl (by simp [BigmulUnit.startBigmul])
  · rename_i hprog
    exact h.batchCycle hwrite hprog

theorem storeWords_congr (h : SameProduct u u') (hwrite : u.writeDone = false) (m : Memory)
    (k : Nat) : Core.storeWords u' (u'.sizeOfOperand.words * 2) m k =
      Core.storeWords u (u.sizeOfOperand.words * 2) m k := by
  rw [h.sizeOfOperand]
  induction k with
  | zero => rfl
  | succ k ih =>
    have hsize := u.sizeOfOperand.double_toNat
    simp only [Core.storeWords, ih, h.writeOffset, h.baseAddrRes]
    congr 1
    funext m'
    split
    · rename_i hlt
      rw [BitVec.lt_def, hsize] at hlt
      have hword := h.writing hwrite (u.writeOffset + BitVec.ofNat 64 k).toNat (by omega)
      rw [hword]
    · rfl

theorem SameProduct.finishWriteBack (h : SameProduct u u') (hwrite : u.writeDone = false)
    (m : Memory) : Both (fun p q => q.1 = p.1 ∧ SameProduct p.2 q.2)
      (Core.finishWriteBack m u) (Core.finishWriteBack m u') := by
  unfold Core.finishWriteBack
  dsimp only
  have hend : (u'.writeOffset ≥ u'.sizeOfOperand.words * 2) =
      (u.writeOffset ≥ u.sizeOfOperand.words * 2) := by
    rw [h.writeOffset, h.sizeOfOperand]
  have hfits : ((u'.sizeOfOperand.words * 2).toNat ≤ 128) =
      ((u.sizeOfOperand.words * 2).toNat ≤ 128) := by
    rw [h.sizeOfOperand]
  simp only [hend, hfits]
  split
  · split
    · exact ⟨rfl, h.cacheA, h.cacheB, h.sizeOfOperand, h.baseAddrRes, rfl, h.bigmulProg, rfl,
        h.writeOffset, fun _ hprog => absurd (h.computed hwrite) hprog,
        fun hw => absurd hw Bool.noConfusion, fun hw => absurd hw Bool.noConfusion⟩
    · trivial
  · exact ⟨rfl, h⟩

theorem SameProduct.bigmulWriteCycle (h : SameProduct u u') (hwrite : u.writeDone = false)
    (m : Memory) : Both (fun p q => q.1 = p.1 ∧ SameProduct p.2 q.2)
      (Core.bigmulWriteCycle m u) (Core.bigmulWriteCycle m u') := by
  have hmore : (u'.writeOffset < u'.sizeOfOperand.words * 2) =
      (u.writeOffset < u.sizeOfOperand.words * 2) := by
    rw [h.writeOffset, h.sizeOfOperand]
  have hnext : SameProduct { u with writeOffset := u.writeOffset + 8 }
      { u' with writeOffset := u'.writeOffset + 8 } :=
    ⟨h.cacheA, h.cacheB, h.sizeOfOperand, h.baseAddrRes, h.bigmulDone, h.bigmulProg, h.writeDone,
      congrArg (· + 8) h.writeOffset, fun hw hp => ⟨(h.computing hw hp).sDiag,
        (h.computing hw hp).iMax, (h.computing hw hp).kIter, (h.computing hw hp).acc,
        (h.computing hw hp).emitted⟩, h.computed, h.writing⟩
  unfold Core.bigmulWriteCycle
  simp only [hmore]
  split
  · refine (Both.of_eq (storeWords_congr h hwrite m 8)).bind fun a b hab => ?_
    subst hab
    exact hnext.finishWriteBack hwrite _
  · exact h.finishWriteBack hwrite m

/-- Two machines between stall cycles of the same BIGMUL. -/
structure SameStall (c c' : Core) : Prop where
  left : InBigmul c
  right : InBigmul c'
  memory : c'.memory = c.memory
  product : SameProduct c.bigmul c'.bigmul

/-- The same, of machines with their undo histories. -/
def Vm.SameStall (v v' : Vm) : Prop := RiscvSim.SameStall v.core v'.core

variable {v v' : Vm}

theorem InBigmul.bigmulBusy {c : Core} (h : InBigmul c) : c.bigmulBusy = !c.bigmul.bigmulDone := by
  simp [Core.bigmulBusy, h.control]

theorem InBigmul.ldbmBusy {c : Core} (h : InBigmul c) : c.ldbmBusy = false := by
  simp [Core.ldbmBusy, h.control, ControlUnit.reset]

/-- A stall cycle that writes back. -/
theorem InBigmul.stallBigmul_write (h : InBigmul v.core) (hdone : v.core.bigmul.bigmulDone = false)
    (hwrite : v.core.bigmul.writeDone = false) :
    v.stallBigmul = Core.bigmulWriteCycle v.core.memory v.core.bigmul >>= fun p =>
      .ok { v with core := { v.core with
        memory := p.1, bigmul := p.2, cycleS := v.core.cycleS + 1 } } := by
  cases hcycle : Core.bigmulWriteCycle v.core.memory v.core.bigmul with
  | ok p =>
    rw [← h.stallCycle, h.stallWrite hdone hwrite (m := p.1) (u := p.2) hcycle]
    rfl
  | error e =>
    have hF : isFInstruction v.core.currentInstruction = false := by
      simp [isFInstruction, h.opcode]
    have hD : isDInstruction v.core.currentInstruction = false := by
      simp [isDInstruction, h.opcode]
    simp [Vm.stallBigmul, Vm.stallWrite, hwrite, Core.writeMemory, Core.writeMemoryInteger,
      Core.readResult, h.control, h.opcode, hF, hD, ControlUnit.reset, hdone, hcycle]

theorem SameStall.stallBigmul (h : v.SameStall v') (hbusy : v.core.bigmulBusy = true) :
    Both Vm.SameStall v.stallBigmul v'.stallBigmul := by
  have hdone : v.core.bigmul.bigmulDone = false := by
    rw [h.left.bigmulBusy] at hbusy
    simpa using hbusy
  cases hwrite : v.core.bigmul.writeDone with
  | false =>
    rw [h.left.stallBigmul_write hdone hwrite, h.right.stallBigmul_write
      (h.product.bigmulDone.trans hdone) (h.product.writeDone.trans hwrite), h.memory]
    refine (h.product.bigmulWriteCycle hwrite _).bind fun p q hpq => ?_
    exact ⟨⟨h.left.control, h.left.opcode⟩, ⟨h.right.control, h.right.opcode⟩, hpq.1, hpq.2⟩
  | true =>
    have hwrite' := h.product.writeDone.trans hwrite
    rw [Vm.stallBigmul, Vm.stallBigmul, if_neg (by simp [hwrite]), if_neg (by simp [hwrite'])]
    refine (h.product.executeBigmul hwrite).bind fun b b' hb => ?_
    exact ⟨⟨h.left.control, h.left.opcode⟩, ⟨h.right.control, h.right.opcode⟩, h.memory, hb⟩

/-- Two drains whose bodies stay related. -/
theorem drain_both {cond : Vm → Bool} {body : Vm → Except Fault Vm} {R : Vm → Vm → Prop}
    (hcond : ∀ w w', R w w' → cond w' = cond w)
    (hbody : ∀ w w', R w w' → cond w = true → Both R (body w) (body w')) (h : R v v') :
    Both R (Vm.drain cond body v) (Vm.drain cond body v') := by
  have hrun := Loop.run_lockstep (n := Vm.drainBudget) (fun _ => R) R
    (fun _ w w' _ hw => Both.whileTurn (hcond w w' hw) (hbody w w' hw) fun _ => hw) h
  unfold Vm.drain
  cases hx : Loop.run (Loop.whileTurn cond body) Vm.drainBudget v with
  | error e =>
    rw [hx] at hrun
    cases hy : Loop.run (Loop.whileTurn cond body) Vm.drainBudget v' with
    | error e' => trivial
    | ok r' =>
      rw [hy] at hrun
      cases r' <;> exact hrun.elim
  | ok r =>
    rw [hx] at hrun
    cases hy : Loop.run (Loop.whileTurn cond body) Vm.drainBudget v' with
    | error e' =>
      rw [hy] at hrun
      cases r <;> exact hrun.elim
    | ok r' =>
      rw [hy] at hrun
      cases r with
      | done w =>
        cases r' with
        | done w' => exact hrun
        | yield w' => exact hrun.elim
      | yield w =>
        cases r' with
        | done w' => exact hrun.elim
        | yield w' => trivial

theorem SameStall.drains (h : v.SameStall v') :
    Both Vm.SameStall (v.drainLdbm >>= fun w => w.drainBigmul)
      (v'.drainLdbm >>= fun w => w.drainBigmul) := by
  rw [Vm.drainLdbm, Vm.drainLdbm, Vm.drain_of_false h.left.ldbmBusy,
    Vm.drain_of_false h.right.ldbmBusy]
  refine drain_both (R := Vm.SameStall) (fun w w' hw => ?_) (fun w w' => SameStall.stallBigmul) h
  rw [hw.left.bigmulBusy, hw.right.bigmulBusy, hw.product.bigmulDone]

/-- The stages after `Decode` in the cycle that fetches a BIGMUL. -/
theorem InBigmul.execute (fpu : Fpu) {c : Core} (h : InBigmul c) :
    ∃ result, c.execute fpu = .ok ({ c with executionResult := result }, .none) := by
  have hF : isFInstruction c.currentInstruction = false := by simp [isFInstruction, h.opcode]
  have hD : isDInstruction c.currentInstruction = false := by simp [isDInstruction, h.opcode]
  have hsignal : ControlUnit.getAluSignal c.currentInstruction = .kNone := by
    simp [ControlUnit.getAluSignal, h.opcode]
  refine ⟨0, ?_⟩
  simp [Core.execute, hF, hD, h.opcode, Core.executeInteger, hsignal, Alu.execute,
    Core.executeBranch, h.control, ControlUnit.reset, Core.takeBranch, Core.addUpperImmediate,
    pure, Except.pure]

theorem InBigmul.writeMemory_computing {c : Core} (h : InBigmul c)
    (hwrite : c.bigmul.writeDone = true) : c.writeMemory = .ok (c, .none) := by
  have hF : isFInstruction c.currentInstruction = false := by simp [isFInstruction, h.opcode]
  have hD : isDInstruction c.currentInstruction = false := by simp [isDInstruction, h.opcode]
  have hldbm : c.controlUnit.ldbmStart = false := by rw [h.control]; rfl
  have hread : c.controlUnit.memRead = false := by rw [h.control]; rfl
  have hstore : c.controlUnit.memWrite = false := by rw [h.control]; rfl
  simp [Core.writeMemory, Core.writeMemoryInteger, Core.readResult, hldbm, hread, hstore, h.opcode,
    hF, hD, hwrite, pure, Except.pure]

theorem InBigmul.writeBack {c : Core} (h : InBigmul c) : c.writeBack = (c, .none) := by
  have hF : isFInstruction c.currentInstruction = false := by simp [isFInstruction, h.opcode]
  have hD : isDInstruction c.currentInstruction = false := by simp [isDInstruction, h.opcode]
  simp [Core.writeBack, Core.writeBackInteger, Core.integerResult, h.opcode, hF, hD,
    Changes.ofRegister]

/-- The stages after `Decode` in the cycle that fetches a BIGMUL only count. -/
theorem JustStartedBigmul.stages (fpu : Fpu) {c : Core} (h : JustStartedBigmul c) :
    ∃ result, (do
      let (c, executed) ← c.execute fpu
      let (c, stored) ← c.writeMemory
      let (c, written) := c.writeBack
      return ({ c with
        instructionsRetired := c.instructionsRetired + 1
        cycleS := c.cycleS + 1 }, executed ++ stored ++ written)) =
      Except.ok (ε := Fault) ({ c with
        executionResult := result
        instructionsRetired := c.instructionsRetired + 1
        cycleS := c.cycleS + 1 }, .none) := by
  obtain ⟨result, hexec⟩ := h.inBigmul.execute fpu
  have hin : InBigmul { c with executionResult := result } :=
    ⟨h.inBigmul.control, h.inBigmul.opcode⟩
  refine ⟨result, ?_⟩
  rw [hexec, Loop.bind_ok]
  dsimp only
  rw [hin.writeMemory_computing h.writeDone, Loop.bind_ok]
  dsimp only
  rw [hin.writeBack]
  rfl

/-- What a BIGMUL may depend on. -/
structure AgreeOnOperands (v v' : Vm) : Prop where
  programCounter : v'.core.programCounter = v.core.programCounter
  registers : v'.core.registers = v.core.registers
  memory : v'.core.memory = v.core.memory
  cacheA : v'.core.bigmul.cacheA = v.core.bigmul.cacheA
  cacheB : v'.core.bigmul.cacheB = v.core.bigmul.cacheB

/-- An idle unit, and a BIGMUL that is stepped next. -/
structure AtBigmul (v : Vm) (w : Instr) : Prop where
  inProgram : v.core.programCounter < v.programSize
  word : v.nextWord = .ok w
  opcode : w.opcode = 0b0111111#7
  idle : v.core.bigmul.bigmulDone = true

/-- The size register of the BIGMUL `w`, as `Decode` reads it. -/
def Vm.sizeRegister (v : Vm) (w : Instr) : Except Fault Word :=
  v.core.registers.readGprChecked (Instr.field w 20 7).toNat

/-- The memory after a step. -/
def Vm.memoryAfterStep (fpu : Fpu) (v : Vm) : Option Memory :=
  match v.step fpu with
  | .ok w => some w.core.memory
  | .error _ => none

theorem AgreeOnOperands.sizeRegister (h : AgreeOnOperands v v') (w : Instr) :
    v'.sizeRegister w = v.sizeRegister w := by
  rw [Vm.sizeRegister, Vm.sizeRegister, h.registers]

theorem AgreeOnOperands.atBigmul {w : Instr} (h : AgreeOnOperands v v') (hv : AtBigmul v w)
    (hidle : v'.core.bigmul.bigmulDone = true)
    (hpc : v'.core.programCounter < v'.programSize) : AtBigmul v' w where
  inProgram := hpc
  word := by
    rw [Vm.nextWord, h.memory, h.programCounter]
    exact hv.word
  opcode := hv.opcode
  idle := hidle

/-- `Decode` chooses the same size. -/
def SizesAgree (w : Instr) (v v' : Vm) : Prop :=
  ∀ value, v.sizeRegister w = .ok value → value ≠ 0 ∧ value < 512 ∨
    v'.core.bigmul.sizeOfOperand = v.core.bigmul.sizeOfOperand

theorem chooseSize_congr {old old' : OperandSize} {value : Word}
    (h : value ≠ 0 ∧ value < 512 ∨ old' = old) :
    Core.chooseSize old' value = Core.chooseSize old value := by
  unfold Core.chooseSize
  rcases h with h | h
  · rw [dif_pos h, dif_pos h]
  · rw [h]

/-- A machine that has fetched `w`. -/
def Core.fetched (c : Core) (w : Instr) : Core :=
  { c with currentInstruction := w, programCounter := c.programCounter + 4 }

theorem AgreeOnOperands.decode {w : Instr} (h : AgreeOnOperands v v') (hv : AtBigmul v w)
    (hv' : AtBigmul v' w) (hsize : SizesAgree w v v') :
    Both (fun d d' => JustStartedBigmul d ∧ JustStartedBigmul d' ∧ SameStall d d')
      (v.core.fetched w).decode (v'.core.fetched w).decode := by
  have hdecode := decode_bigmul (c := v.core.fetched w) hv.opcode hv.idle
  have hdecode' := decode_bigmul (c := v'.core.fetched w) hv'.opcode hv'.idle
  have hregisters : (v'.core.fetched w).registers = (v.core.fetched w).registers := h.registers
  have hword : (v'.core.fetched w).currentInstruction = w := rfl
  have hword₀ : (v.core.fetched w).currentInstruction = w := rfl
  cases hvalue : v.sizeRegister w with
  | error e =>
    have hread : (v.core.fetched w).registers.readGprChecked (Instr.field w 20 7).toNat =
      .error e := hvalue
    rw [hdecode, hdecode', hregisters, hword, hword₀, hread]
    trivial
  | ok value =>
    have hread : (v.core.fetched w).registers.readGprChecked (Instr.field w 20 7).toNat =
      .ok value := hvalue
    cases hbase : (v.core.fetched w).registers.readGprChecked (Instr.field w 15 7).toNat with
    | error e =>
      rw [hdecode, hdecode', hregisters, hword, hword₀, hread, Loop.bind_ok, Loop.bind_ok, hbase]
      trivial
    | ok base =>
      rw [hword₀, hread, Loop.bind_ok, hbase, Loop.bind_ok] at hdecode
      rw [hword, hregisters, hread, Loop.bind_ok, hbase, Loop.bind_ok] at hdecode'
      have hstart := decode_justStarted (c := v.core.fetched w) hv.opcode hv.idle hdecode
      have hstart' := decode_justStarted (c := v'.core.fetched w) hv'.opcode hv'.idle hdecode'
      rw [hdecode, hdecode']
      refine ⟨hstart, hstart', hstart.inBigmul, hstart'.inBigmul, h.memory, ?_⟩
      exact ⟨h.cacheA, h.cacheB, chooseSize_congr (hsize value hvalue), rfl, rfl, rfl, rfl, rfl,
        fun _ hprog => absurd rfl hprog, fun _ => rfl, fun hw => absurd hw Bool.noConfusion⟩

/-- The cycle that fetches a BIGMUL, in both machines. -/
theorem AgreeOnOperands.fetchCycle (fpu : Fpu) {w : Instr} (h : AgreeOnOperands v v')
    (hv : AtBigmul v w) (hv' : AtBigmul v' w) (hsize : SizesAgree w v v') :
    Both Vm.SameStall (v.fetchCycle fpu) (v'.fetchCycle fpu) := by
  have hfetch {v : Vm} (hv : AtBigmul v w) : v.core.fetch = .ok (v.core.fetched w) := by
    have hword : v.core.memory.readWord v.core.programCounter = .ok w := hv.word
    rw [Core.fetch, hword]
    rfl
  unfold Vm.fetchCycle Core.fetchCycle
  rw [hfetch hv, hfetch hv', Loop.bind_ok, Loop.bind_ok]
  refine ((h.decode hv hv' hsize).bind (S := fun p p' => SameStall p.1 p'.1) fun d d' hd => ?_).bind
    fun p p' hp => by
      obtain ⟨d, changes⟩ := p
      obtain ⟨d', changes'⟩ := p'
      exact hp
  obtain ⟨hstart, hstart', hstall⟩ := hd
  obtain ⟨result, hstages⟩ := hstart.stages fpu
  obtain ⟨result', hstages'⟩ := hstart'.stages fpu
  rw [hstages, hstages']
  exact ⟨⟨hstall.left.control, hstall.left.opcode⟩, ⟨hstall.right.control, hstall.right.opcode⟩,
    hstall.memory, hstall.product⟩

/-- The states of a simulator: it starts, loads programs and obeys commands. -/
inductive Reachable : Vm → Prop where
  | initial (memorySize : Word) : Reachable (.initial memorySize)
  | load {v v' : Vm} (config : Config) (program : AssembledProgram) (hv : Reachable v)
      (h : v.loadProgram config program = .ok v') : Reachable v'
  | exec {v v' : Vm} (fpu : Fpu) (limit : Word) (command : Command) (hv : Reachable v)
      (h : v.exec fpu limit command = .ok v') : Reachable v'

/-- A BIGMUL leaves the same memory whatever came before it, if it finds a usable size register
or the same size left behind. With `x0` as its size register it multiplies the whole operands
exactly if the size left behind is that of the whole operands. -/
theorem bigmul_ignores_history (fpu : Fpu) (v v' : Vm) (w : Instr) (h : AgreeOnOperands v v')
    (hv : AtBigmul v w) (hv' : AtBigmul v' w) (hsize : SizesAgree w v v') :
    v'.memoryAfterStep fpu = v.memoryAfterStep fpu ∧
      (Instr.field w 20 7 = 0 → ∀ d, (v.core.fetched w).decode = .ok d →
        (d.bigmul.sizeOfOperand.toNat = 64 ↔ v.core.bigmul.sizeOfOperand.toNat = 64)) := by
  constructor
  · have hstart {v : Vm} (hv : AtBigmul v w) : v.step fpu =
        ((v.noteState w).fetchCycle fpu >>= fun v => v.drainLdbm >>= fun v => v.drainBigmul) >>=
          fun v => .ok v.commit := by
      rw [Vm.step, Vm.preview_of_nextWord hv.word, Loop.bind_ok, Vm.noteState_core,
        Vm.noteState_programSize, if_pos hv.inProgram]
      rfl
    have hnoted : AgreeOnOperands (v.noteState w) (v'.noteState w) :=
      ⟨h.programCounter, h.registers, h.memory, h.cacheA, h.cacheB⟩
    have hfetch := hnoted.fetchCycle fpu (w := w)
      ⟨hv.inProgram, hv.word, hv.opcode, hv.idle⟩ ⟨hv'.inProgram, hv'.word, hv'.opcode, hv'.idle⟩
      hsize
    have hboth : Both (fun w w' : Vm => w'.core.memory = w.core.memory) (v.step fpu)
        (v'.step fpu) := by
      rw [hstart hv, hstart hv']
      exact (hfetch.bind fun u u' hu => SameStall.drains hu).bind fun u u' hu => SameStall.memory hu
    unfold Vm.memoryAfterStep
    cases hx : v.step fpu with
    | error e =>
      cases hy : v'.step fpu with
      | error e' => rfl
      | ok u' =>
        rw [hx, hy] at hboth
        exact hboth.elim
    | ok u =>
      cases hy : v'.step fpu with
      | error e' =>
        rw [hx, hy] at hboth
        exact hboth.elim
      | ok u' =>
        rw [hx, hy] at hboth
        exact congrArg some hboth
  · intro hfield d hd
    have hdecode := decode_bigmul (c := v.core.fetched w) hv.opcode hv.idle
    have hword : (v.core.fetched w).currentInstruction = w := rfl
    have hzero : (v.core.fetched w).registers.readGprChecked (Instr.field w 20 7).toNat =
        .ok 0 := by
      rw [hfield]
      rfl
    rw [hd, hword, hzero, Loop.bind_ok] at hdecode
    obtain ⟨base, -, hdecode⟩ := Loop.bind_eq_ok hdecode.symm
    rw [← Except.ok.inj hdecode]
    exact Iff.rfl

/-- A machine at `bigmul x4, 0(x0)` with 1 in `x4`, after a product of `n` words. -/
def oneWordStep (n : OperandSize) : Vm :=
  { Vm.initial 0x100 with
    programSize := 4
    core := { Core.initial 0x100 with
      memory := ⟨0x100, fun a => if a = 0 then 0x3f else if a = 2 then 0x40 else 0⟩
      registers := RegisterFile.reset.writeGpr 4 1
      bigmul := { BigmulUnit.initial with sizeOfOperand := n } } }

theorem bigmul_ignores_history_oneWordStep :
    (oneWordStep ⟨2, by decide, by decide⟩).memoryAfterStep .zero =
      (oneWordStep .default).memoryAfterStep .zero := by
  have hpc : (0 : Word) < 4 := by decide
  have hword : (oneWordStep .default).nextWord = .ok 0x0040003f := by decide +kernel
  have hat (n : OperandSize) : AtBigmul (oneWordStep n) 0x0040003f :=
    ⟨hpc, hword, by decide, rfl⟩
  refine (bigmul_ignores_history .zero (oneWordStep .default) (oneWordStep ⟨2, by decide, by decide⟩)
    0x0040003f ⟨rfl, rfl, rfl, rfl, rfl⟩ (hat _) (hat _) fun value hvalue => .inl ?_).1
  have hsize : (oneWordStep .default).sizeRegister 0x0040003f = .ok 1 := by decide +kernel
  obtain rfl := Except.ok.inj (hsize.symm.trans hvalue)
  decide

/-- What is left behind shows in none of the operands. -/
theorem Vm.Alike.agreeOnOperands (h : v.Alike v') : AgreeOnOperands v v' where
  programCounter := h.programCounter
  registers := h.registers
  memory := h.memory
  cacheA := by
    have hcache := congrArg (fun c : Core => c.bigmul.cacheA) h.core.eq
    exact hcache
  cacheB := by
    have hcache := congrArg (fun c : Core => c.bigmul.cacheB) h.core.eq
    exact hcache

/-- `addi x4, x0, n`, and a product of `n` words at address 0. -/
def sizedProduct (n : BitVec 12) : AssembledProgram :=
  ⟨[n.setWidth 32 <<< 20 ||| 0x00000213, 0x0040003f], []⟩

/-- `bigmul x0, 0(x0)`. -/
def unsizedStep : AssembledProgram := ⟨[0x0000003f], [.byte 5]⟩

/-- A machine at `unsizedStep` after a product of `n` words and a reset, with the machine before
the reset. -/
def afterProduct (n : BitVec 12) : Except Fault (Vm × Vm) := do
  let v ← (Vm.initial 0x100).loadProgram ⟨0x10, 100⟩ (sizedProduct n)
  let v ← v.exec .zero 100 (.run 100)
  return (v, ← v.reset.loadProgram ⟨0x10, 100⟩ unsizedStep)

theorem afterProduct_reachable {n : BitVec 12} {v u : Vm} (h : afterProduct n = .ok (v, u)) :
    Reachable u ∧ v.reset.loadProgram ⟨0x10, 100⟩ unsizedStep = .ok u := by
  obtain ⟨v₀, hload, h⟩ := Loop.bind_eq_ok h
  obtain ⟨v₁, hrun, h⟩ := Loop.bind_eq_ok h
  obtain ⟨u₁, hu, h⟩ := Loop.bind_eq_ok h
  obtain ⟨rfl, rfl⟩ := Prod.mk.inj (Except.ok.inj h)
  have hv : Reachable v₁ := .exec .zero 100 _ (.load _ _ (.initial _) hload) hrun
  exact ⟨.load _ _ (.exec .zero 100 .reset hv rfl) hu, hu⟩

/-- What decides how a step of `unsizedStep` goes. -/
def stepView (r : Vm × Vm) : Word × Bool × Option Byte :=
  (r.1.core.memory.size, decide (r.2.core.programCounter < r.2.programSize ∧
    r.2.core.bigmul.bigmulDone = true ∧ r.2.nextWord = .ok 0x3f),
    (r.2.memoryAfterStep .zero).map fun m => m.byte 0x10)

/-- After a product of one word the step spares the byte, after one of two words it does not. -/
theorem afterProduct_view : (afterProduct 1).map stepView = .ok (0x100, true, some 5) ∧
    (afterProduct 2).map stepView = .ok (0x100, true, some 0) := by
  decide +kernel

theorem bigmul_sees_history :
    ¬ ∀ (fpu : Fpu) (v v' : Vm) (w : Instr), Reachable v → Reachable v' → AgreeOnOperands v v' →
      AtBigmul v w → AtBigmul v' w → v'.memoryAfterStep fpu = v.memoryAfterStep fpu := by
  intro hclaim
  have hview {n : BitVec 12} {b : Byte}
      (h : (afterProduct n).map stepView = .ok (0x100, true, some b)) :
      ∃ u u₀ : Vm, Reachable u ∧ AtBigmul u 0x3f ∧ AgreeOnOperands u u₀ ∧
        (Vm.initial 0x100).loadProgram ⟨0x10, 100⟩ unsizedStep = .ok u₀ ∧
        (u.memoryAfterStep .zero).map (fun m => m.byte 0x10) = some b := by
    cases hr : afterProduct n with
    | error e =>
      rw [hr] at h
      exact nomatch h
    | ok r =>
      obtain ⟨v, u⟩ := r
      rw [hr] at h
      obtain ⟨hreach, hu⟩ := afterProduct_reachable hr
      obtain ⟨hsize, h⟩ := Prod.mk.inj (Except.ok.inj h)
      obtain ⟨hat, hbyte⟩ := Prod.mk.inj h
      obtain ⟨hpc, hidle, hword⟩ := of_decide_eq_true hat
      obtain ⟨u₀, hu₀, halike, -⟩ := Vm.reset_loadProgram hu []
      have hsize' : v.core.memory.size = 0x100 := hsize
      rw [hsize'] at hu₀
      have hagree := halike.agreeOnOperands
      exact ⟨u, u₀, hreach, ⟨hpc, hword, by decide, hidle⟩, ⟨hagree.programCounter,
        hagree.registers, hagree.memory, hagree.cacheA, hagree.cacheB⟩, hu₀, hbyte⟩
  obtain ⟨u, u₀, hreach, hat, hagree, hfresh, hbyte⟩ := hview afterProduct_view.1
  obtain ⟨u', u₀', hreach', hat', hagree', hfresh', hbyte'⟩ := hview afterProduct_view.2
  obtain rfl : u₀ = u₀' := Except.ok.inj (hfresh.symm.trans hfresh')
  have hboth : AgreeOnOperands u u' :=
    ⟨hagree'.programCounter.symm.trans hagree.programCounter,
      hagree'.registers.symm.trans hagree.registers, hagree'.memory.symm.trans hagree.memory,
      hagree'.cacheA.symm.trans hagree.cacheA, hagree'.cacheB.symm.trans hagree.cacheB⟩
  rw [hclaim .zero u u' 0x3f hreach hreach' hboth hat hat', hbyte] at hbyte'
  exact absurd hbyte' (by decide)

end RiscvSim
