import RiscvSim.CustomDecode
import RiscvSim.MulHart
import RiscvSim.OperandHistory

/-! The machine follows a hart with a multiplier: an LDBM and a BIGMUL with all their stall cycles
are one step each. -/

namespace RiscvSim

open Limbs
open Simulation (Runs Simulates)

/-- The seven bits at `rs1` reach into `rs2`, the seven bits at `rs2` into `funct7`. -/
theorem CustomInstruction.fields {i : CustomInstruction} (h : i.Conforms) :
    (Instr.field i.word 15 7).toNat = i.word.rs1.toNat ∧
      (Instr.field i.word 20 7).toNat = i.word.rs2.toNat := by
  cases i with
  | ldbm rd rs1 rs2 =>
    change rs2.toNat % 4 = 0 at h
    simp only [CustomInstruction.word, Instr.rType_rs1, Instr.rType_rs2, Instr.field_toNat,
      Instr.rType_toNat]
    constructor <;> simp <;> omega
  | bigmul rs1 rs2 =>
    change rs2.toNat % 4 = 0 at h
    simp only [CustomInstruction.word, Instr.sType_rs1, Instr.sType_rs2, Instr.field_toNat,
      Instr.sType_toNat]
    constructor <;> simp <;> omega

/-- The numbers in the caches of a machine. -/
def Vm.mulHart (v : Vm) : MulHart where
  hart := v.hart
  a := limbValue (2 ^ 64) (limb v.core.bigmul.cacheA) 64
  b := limbValue (2 ^ 64) (limb v.core.bigmul.cacheB) 64
  clock := v.core.cycleS

theorem fetch_of_nextWord {v : Vm} {w : Instr} (h : v.nextWord = .ok w) :
    v.core.fetch = .ok (v.core.fetched w) := by
  have hword : v.core.memory.readWord v.core.programCounter = .ok w := h
  rw [Core.fetch, hword]
  rfl

/-- A step is its fetch cycle and the stall cycles behind it. -/
theorem Vm.step_of_drain {fpu : Fpu} {v v₁ u : Vm} {w : Instr} {c : Core} {changes : Changes}
    (hword : v.nextWord = .ok w) (hin : v.core.programCounter < v.programSize)
    (hcycle : v.core.fetchCycle fpu = .ok (c, changes))
    (hv₁ : v₁ = { v.noteState w with core := c }.record changes)
    (hdrain : (v₁.drainLdbm >>= fun u => u.drainBigmul) = .ok u) : v.step fpu = .ok u.commit := by
  subst hv₁
  have hfetch : (v.noteState w).fetchCycle fpu =
      .ok ({ v.noteState w with core := c }.record changes) := by
    rw [Vm.fetchCycle, noteState_core, hcycle]
    rfl
  rw [step, preview_of_nextWord hword, Loop.bind_ok, noteState_core, noteState_programSize,
    if_pos hin, executeInstruction, hfetch, Loop.bind_ok, hdrain]
  rfl

/-- A machine that executes an LDBM. -/
structure InLdbm (c : Core) : Prop where
  control : c.controlUnit = { ControlUnit.reset with memRead := true, ldbmStart := true }
  opcode : c.currentInstruction.opcode = 0b0101010#7

namespace InLdbm

variable {c : Core} {u : BigmulUnit} {t : Nat}

theorem execute (fpu : Fpu) (h : InLdbm c) :
    c.execute fpu = .ok ({ c with executionResult := 0 }, .none) := by
  have hF : isFInstruction c.currentInstruction = false := by simp [isFInstruction, h.opcode]
  have hD : isDInstruction c.currentInstruction = false := by simp [isDInstruction, h.opcode]
  have hsignal : ControlUnit.getAluSignal c.currentInstruction = .kNone := by
    simp [ControlUnit.getAluSignal, h.opcode]
  simp [Core.execute, hF, hD, h.opcode, Core.executeInteger, hsignal, Alu.execute,
    Core.executeBranch, h.control, ControlUnit.reset, Core.takeBranch, Core.addUpperImmediate,
    pure, Except.pure]

/-- The next of the 16 calls of `WriteMemory`. -/
theorem writeMemory (h : InLdbm c) (hu : c.bigmul = loadingUnit c.memory u t) (ht : t < 16)
    (hA : c.memory.InRange u.baseAddrA 512) (hB : c.memory.InRange u.baseAddrB 512) :
    c.writeMemory = .ok ({ c with bigmul := loadingUnit c.memory u (t + 1) }, .none) := by
  have hstart : c.controlUnit.ldbmStart = true := by rw [h.control]
  have hdone : c.bigmul.ldbmDone = false := by
    rw [hu]
    exact decide_eq_false (Nat.not_le.mpr ht)
  rw [Core.writeMemory, if_pos ⟨hstart, by simp [hdone]⟩, hu, ldbmCycle_eq hA hB ht]
  rfl

theorem writeBack (h : InLdbm c) : c.writeBack = (c, .none) := by
  have hF : isFInstruction c.currentInstruction = false := by simp [isFInstruction, h.opcode]
  have hD : isDInstruction c.currentInstruction = false := by simp [isDInstruction, h.opcode]
  simp [Core.writeBack, Core.writeBackInteger, Core.integerResult, h.opcode, hF, hD,
    Changes.ofRegister]

end InLdbm

/-- The machine `v` after `t` stall cycles of an LDBM, whose fetch cycle has loaded eight words. -/
def loadingStalled (v : Vm) (u : BigmulUnit) (t : Nat) : Vm :=
  { v with core := { v.core with
    bigmul := loadingUnit v.core.memory u (t + 1)
    cycleS := v.core.cycleS + BitVec.ofNat 32 t } }

section

variable {v : Vm} {u : BigmulUnit}

theorem iter_stallWrite (h : InLdbm v.core) (hu : v.core.bigmul = loadingUnit v.core.memory u 1)
    (hA : v.core.memory.InRange u.baseAddrA 512) (hB : v.core.memory.InRange u.baseAddrB 512)
    {t : Nat} (ht : t ≤ 15) : Loop.iter Vm.stallWrite t v = .ok (loadingStalled v u t) := by
  induction t with
  | zero =>
    have hzero : loadingStalled v u 0 = v := by
      rw [loadingStalled, ← hu]
      simp
    rw [Loop.iter_zero, hzero]
  | succ t ih =>
    have hin : InLdbm (loadingStalled v u t).core := ⟨h.control, h.opcode⟩
    have hcall := hin.writeMemory (u := u) (t := t + 1) rfl (by omega) hA hB
    have hcount : BitVec.ofNat 32 (t + 1) = BitVec.ofNat 32 t + 1 := BitVec.ofNat_add t 1
    rw [Loop.iter_succ_last, ih (by omega), Loop.bind_ok, Vm.stallWrite, hcall, Loop.bind_ok]
    simp [Vm.record, StepDelta.record, Changes.none, loadingStalled, pure, Except.pure, hcount,
      BitVec.add_assoc]

/-- The stall cycles of an LDBM. -/
theorem drains_ldbm (h : InLdbm v.core) (hu : v.core.bigmul = loadingUnit v.core.memory u 1)
    (hA : v.core.memory.InRange u.baseAddrA 512) (hB : v.core.memory.InRange u.baseAddrB 512) :
    (v.drainLdbm >>= fun w => w.drainBigmul) = .ok (loadingStalled v u 15) := by
  have hstart : v.core.controlUnit.ldbmStart = true := by rw [h.control]
  have hother : v.core.controlUnit.bigmulStart = false := by rw [h.control]; rfl
  have hbusy : ∀ t < 15, ∃ w, Loop.iter Vm.stallWrite t v = .ok w ∧ w.core.ldbmBusy = true := by
    intro t ht
    refine ⟨_, iter_stallWrite h hu hA hB (by omega), ?_⟩
    have hdone : ¬ 16 ≤ t + 1 := by omega
    simp [Core.ldbmBusy, loadingStalled, loadingUnit, hstart, hdone]
  have hend : (loadingStalled v u 15).core.ldbmBusy = false := by
    simp [Core.ldbmBusy, loadingStalled, loadingUnit]
  have hloop := Loop.run_while hbusy (iter_stallWrite h hu hA hB (Nat.le_refl 15)) hend
    (m := Vm.drainBudget) (by decide)
  have hidle : (loadingStalled v u 15).core.bigmulBusy = false := by
    simp [Core.bigmulBusy, loadingStalled, hother]
  rw [Vm.drainLdbm, Vm.drain, hloop]
  exact Vm.drain_of_false hidle

end

/-- The fetch cycle of an LDBM on an idle unit. -/
theorem fetchCycle_startsLdbm (fpu : Fpu) {v : Vm} {rd rs1 rs2 : RegIndex}
    (hword : v.nextWord = .ok (CustomInstruction.ldbm rd rs1 rs2).word)
    (hconforms : (CustomInstruction.ldbm rd rs1 rs2).Conforms) (hidle : v.core.bigmul.Idle)
    (hA : v.core.memory.InRange (v.hart.x rs1) 512) (hB : v.core.memory.InRange (v.hart.x rs2) 512) :
    ∃ c changes u, v.core.fetchCycle fpu = .ok (c, changes) ∧ InLdbm c ∧
      c.bigmul = loadingUnit c.memory u 1 ∧ u.baseAddrA = v.hart.x rs1 ∧
      u.baseAddrB = v.hart.x rs2 ∧ u.bigmulDone = true ∧
      c.programCounter = v.core.programCounter + 4 ∧ c.registers = v.core.registers ∧
      c.memory = v.core.memory ∧ c.cycleS = v.core.cycleS + 1 := by
  obtain ⟨hfield₁, hfield₂⟩ := CustomInstruction.fields hconforms
  generalize hw : (CustomInstruction.ldbm rd rs1 rs2).word = w at hword hfield₁ hfield₂
  have hop : w.opcode = 0b0101010#7 := by rw [← hw, CustomInstruction.word, Instr.rType_opcode]
  have hrs1 : w.rs1 = rs1 := by rw [← hw, CustomInstruction.word, Instr.rType_rs1]
  have hrs2 : w.rs2 = rs2 := by rw [← hw, CustomInstruction.word, Instr.rType_rs2]
  have hdecode := decode_ldbm (c := v.core.fetched w) hop hidle.ldbmDone
  have hfield₁' : (Instr.field (v.core.fetched w).currentInstruction 15 7).toNat = rs1.toNat :=
    hfield₁.trans (congrArg BitVec.toNat hrs1)
  have hfield₂' : (Instr.field (v.core.fetched w).currentInstruction 20 7).toNat = rs2.toNat :=
    hfield₂.trans (congrArg BitVec.toNat hrs2)
  rw [hfield₁', hfield₂', readGprChecked_ok _ rs1 rfl, Loop.bind_ok, readGprChecked_ok _ rs2 rfl,
    Loop.bind_ok] at hdecode
  obtain ⟨u, hu⟩ : ∃ u : BigmulUnit, u = { v.core.bigmul with
    baseAddrA := v.hart.x rs1, baseAddrB := v.hart.x rs2, ldbmOffset := 0, ldbmDone := false } :=
    ⟨_, rfl⟩
  obtain ⟨d, hd⟩ : ∃ d : Core, d = { v.core.fetched w with
    controlUnit := { ControlUnit.reset with memRead := true, ldbmStart := true }, bigmul := u } :=
    ⟨_, rfl⟩
  have hdecode' : (v.core.fetched w).decode = .ok d := by
    rw [hdecode, hd, hu]
    rfl
  have hA' : d.memory.InRange u.baseAddrA 512 := by rw [hd, hu]; exact hA
  have hB' : d.memory.InRange u.baseAddrB 512 := by rw [hd, hu]; exact hB
  have hunit : d.bigmul = loadingUnit d.memory u 0 := by
    rw [loadingUnit_zero (by rw [hu]) (by rw [hu]), hd]
  have hd' : InLdbm d := by rw [hd]; exact ⟨rfl, hop⟩
  have hexecuted : InLdbm { d with executionResult := 0 } := ⟨hd'.control, hd'.opcode⟩
  have hstored := hexecuted.writeMemory hunit (by decide) hA' hB'
  have hcall : InLdbm { d with executionResult := 0, bigmul := loadingUnit d.memory u 1 } :=
    ⟨hd'.control, hd'.opcode⟩
  refine ⟨{ d with
    executionResult := 0
    bigmul := loadingUnit d.memory u 1
    instructionsRetired := d.instructionsRetired + 1
    cycleS := d.cycleS + 1 }, Changes.none, u, ?_, ⟨hd'.control, hd'.opcode⟩, rfl, ?_⟩
  · rw [Core.fetchCycle, fetch_of_nextWord hword, Loop.bind_ok, hdecode', Loop.bind_ok,
      hd'.execute fpu, Loop.bind_ok]
    dsimp only
    rw [hstored, Loop.bind_ok]
    dsimp only
    rw [hcall.writeBack]
    rfl
  · rw [hd, hu]
    exact ⟨rfl, rfl, hidle.bigmulDone, rfl, rfl, rfl, rfl⟩

/-- The words that an LDBM leaves in a cache. -/
theorem limbValue_filledTo (cache : Vector Word 64) (m : Memory) (base : Word) {k : Nat} (hk : 64 ≤ k) :
    limbValue (2 ^ 64) (limb (filledTo cache (m.wordAt base) k)) 64 =
      (m.load base 4096 512).toNat := by
  rw [m.load_toNat base 64]
  refine limbValue_congr fun i hi => ?_
  rw [limb, filledTo_getElem? hi (by omega)]
  rfl

/-- A step of the machine follows a custom instruction. -/
def Vm.StepsToMulHart (fpu : Fpu) (v : Vm) (h : MulHart) : Prop :=
  ∃ v', v.step fpu = .ok v' ∧ v'.mulHart = h ∧ v'.programSize = v.programSize

theorem stepsToMulHart_ldbm (fpu : Fpu) {v : Vm} {rd rs1 rs2 : RegIndex} {h' : MulHart}
    (hword : v.nextWord = .ok (CustomInstruction.ldbm rd rs1 rs2).word)
    (hin : v.core.programCounter < v.programSize)
    (hconforms : (CustomInstruction.ldbm rd rs1 rs2).Conforms) (hidle : v.core.bigmul.Idle)
    (hexec : v.mulHart.exec (.ldbm rd rs1 rs2) = some h') : v.StepsToMulHart fpu h' := by
  obtain ⟨⟨hA, hB⟩, rfl⟩ := MulHart.exec_ldbm_eq_some_iff.mp hexec
  obtain ⟨c, changes, u, hcycle, hc, hunit, hbaseA, hbaseB, -, hpc, hregisters, hmemory, hclock⟩ :=
    fetchCycle_startsLdbm fpu hword hconforms hidle hA hB
  have hA' : c.memory.InRange u.baseAddrA 512 := by rw [hmemory, hbaseA]; exact hA
  have hB' : c.memory.InRange u.baseAddrB 512 := by rw [hmemory, hbaseB]; exact hB
  have hdrain := drains_ldbm
    (v := { v.noteState (CustomInstruction.ldbm rd rs1 rs2).word with core := c }.record changes)
    (u := u) ⟨hc.control, hc.opcode⟩ hunit hA' hB'
  refine ⟨_, v.step_of_drain hword hin hcycle rfl hdrain, ?_, rfl⟩
  apply MulHart.ext
  · apply Hart.ext
    · exact hpc
    · exact congrArg RegisterFile.readGpr hregisters
    · exact hmemory
  · refine (limbValue_filledTo u.cacheA c.memory u.baseAddrA (by decide)).trans ?_
    rw [hmemory, hbaseA]
    rfl
  · refine (limbValue_filledTo u.cacheB c.memory u.baseAddrB (by decide)).trans ?_
    rw [hmemory, hbaseB]
    rfl
  · change c.cycleS + 15 = v.core.cycleS + 16
    rw [hclock, BitVec.add_assoc]
    rfl

/-- No stall cycle of a BIGMUL is one of an LDBM. -/
theorem Vm.iter_stallBigmul {v : Vm} (h : v.core.ldbmBusy = false) (k : Nat) :
    Loop.iter stallBigmul k v = Loop.iter stallCycle k v := by
  refine Loop.iter_congr fun j _ u hu => ?_
  have hidle : u.core.ldbmBusy = false :=
    Loop.iter_invariant (fun u => u.core.ldbmBusy = false)
      (fun s t hs ht => (stallBigmul_frame ht).2.ldbmBusy hs) h hu
  rw [stallCycle, if_neg (by simp [hidle])]

/-- The product in memory, as one number. -/
theorem storeMany_product {u : BigmulUnit} {n : Nat} (m : Memory) (base : Word) (h64 : n ≤ 64)
    (hproduct : limbValue (2 ^ 64) (limb u.resultCache) (2 * n) = P) :
    m.storeMany base (resultWord u) (2 * n) = m.store base (BitVec.ofNat 8192 P) (16 * n) := by
  have hpow (i : Nat) : (2 ^ 64) ^ i = 2 ^ (64 * i) := (pow_mul 2 64 i).symm
  have hlt : P < 2 ^ (64 * (2 * n)) := by
    rw [← hproduct, ← hpow]
    exact limbValue_lt (limb_lt u.resultCache) (2 * n)
  have hle : 64 * (2 * n) ≤ 8192 := by omega
  have hfits := Nat.lt_of_lt_of_le hlt (Nat.pow_le_pow_right (show 0 < 2 by decide) hle)
  have hbytes : 16 * n = 8 * (2 * n) := by omega
  rw [hbytes]
  refine Memory.storeMany_eq_store fun i hi => BitVec.eq_of_toNat_eq ?_
  have hdigit := limbValue_div_mod (limb u.resultCache) (show 0 < 2 ^ 64 by decide) hi
  have hlow := limbValue_lt (limb_lt u.resultCache) i
  rw [hproduct, Nat.div_eq_of_lt hlow, Nat.zero_add, hpow,
    Nat.mod_eq_of_lt (limb_lt u.resultCache i)] at hdigit
  rw [BitVec.toNat_setWidth, BitVec.toNat_ushiftRight, BitVec.toNat_ofNat, Nat.mod_eq_of_lt hfits,
    Nat.shiftRight_eq_div_pow, hdigit]
  rfl

theorem JustStartedBigmul.fetchCycle (fpu : Fpu) {v : Vm} {w : Instr} {d : Core}
    (hword : v.nextWord = .ok w) (hdecode : (v.core.fetched w).decode = .ok d)
    (hstart : JustStartedBigmul d) : ∃ result, v.core.fetchCycle fpu = .ok ({ d with
      executionResult := result
      instructionsRetired := d.instructionsRetired + 1
      cycleS := d.cycleS + 1 }, .none) := by
  obtain ⟨result, hstages⟩ := hstart.stages fpu
  refine ⟨result, ?_⟩
  rw [Core.fetchCycle, fetch_of_nextWord hword, Loop.bind_ok, hdecode, Loop.bind_ok]
  exact hstages

/-- The fetch cycle of a BIGMUL on an idle unit only starts it. -/
theorem fetchCycle_startsBigmul (fpu : Fpu) {v : Vm} {rs1 rs2 : RegIndex} {n : Nat}
    (hword : v.nextWord = .ok (CustomInstruction.bigmul rs1 rs2).word)
    (hconforms : (CustomInstruction.bigmul rs1 rs2).Conforms) (hidle : v.core.bigmul.Idle)
    (hn : (v.hart.x rs2).toNat = n) (hpos : 0 < n) (h64 : n ≤ 64) :
    ∃ c changes, v.core.fetchCycle fpu = .ok (c, changes) ∧ JustStartedBigmul c ∧
      c.bigmul.sizeOfOperand.toNat = n ∧ c.bigmul.baseAddrRes = v.hart.x rs1 ∧
      c.bigmul.cacheA = v.core.bigmul.cacheA ∧ c.bigmul.cacheB = v.core.bigmul.cacheB ∧
      c.programCounter = v.core.programCounter + 4 ∧ c.registers = v.core.registers ∧
      c.memory = v.core.memory ∧ c.cycleS = v.core.cycleS + 1 := by
  obtain ⟨hfield₁, hfield₂⟩ := CustomInstruction.fields hconforms
  generalize hw : (CustomInstruction.bigmul rs1 rs2).word = w at hword hfield₁ hfield₂
  have hop : w.opcode = 0b0111111#7 := by rw [← hw, CustomInstruction.word, Instr.sType_opcode]
  have hrs1 : w.rs1 = rs1 := by rw [← hw, CustomInstruction.word, Instr.sType_rs1]
  have hrs2 : w.rs2 = rs2 := by rw [← hw, CustomInstruction.word, Instr.sType_rs2]
  have hdecode := decode_bigmul (c := v.core.fetched w) hop hidle.bigmulDone
  have hfield₁' : (Instr.field (v.core.fetched w).currentInstruction 15 7).toNat = rs1.toNat :=
    hfield₁.trans (congrArg BitVec.toNat hrs1)
  have hfield₂' : (Instr.field (v.core.fetched w).currentInstruction 20 7).toNat = rs2.toNat :=
    hfield₂.trans (congrArg BitVec.toNat hrs2)
  rw [hfield₁', hfield₂', readGprChecked_ok _ rs2 rfl, Loop.bind_ok, readGprChecked_ok _ rs1 rfl,
    Loop.bind_ok] at hdecode
  have hstart := decode_justStarted (c := v.core.fetched w) hop hidle.bigmulDone hdecode
  obtain ⟨result, hcycle⟩ := hstart.fetchCycle fpu hword hdecode
  have hsize : v.hart.x rs2 ≠ 0 ∧ v.hart.x rs2 < 512 := by
    constructor
    · intro hzero
      rw [hzero] at hn
      exact absurd hn hpos.ne
    · rw [BitVec.lt_def, hn]
      exact Nat.lt_of_le_of_lt h64 (by decide)
  refine ⟨_, _, hcycle, ⟨hstart.control, hstart.opcode, rfl, rfl, rfl, rfl⟩, ?_, rfl, rfl, rfl, rfl,
    rfl, rfl, rfl⟩
  exact (chooseSize_toNat _ _).trans ((if_pos hsize).trans hn)

theorem computeCycles_le {n : Nat} (h64 : n ≤ 64) : computeCycles n ≤ 127 * 3 := by
  have hdiagonal : ∀ s ∈ Finset.range (2 * n - 1), diagonalCycles n s ≤ 3 := by
    intro s hs
    have hs := Finset.mem_range.mp hs
    change (min (s + 1) (2 * n - 1 - s) + 24) / 25 ≤ 3
    omega
  refine (Finset.sum_le_card_nsmul _ _ 3 hdiagonal).trans ?_
  rw [Finset.card_range, smul_eq_mul]
  omega

theorem stepsToMulHart_bigmul (fpu : Fpu) {v : Vm} {rs1 rs2 : RegIndex} {h' : MulHart}
    (hword : v.nextWord = .ok (CustomInstruction.bigmul rs1 rs2).word)
    (hin : v.core.programCounter < v.programSize)
    (hconforms : (CustomInstruction.bigmul rs1 rs2).Conforms) (hidle : v.core.bigmul.Idle)
    (hexec : v.mulHart.exec (.bigmul rs1 rs2) = some h') : v.StepsToMulHart fpu h' := by
  obtain ⟨n, hn⟩ : ∃ n, (v.hart.x rs2).toNat = n := ⟨_, rfl⟩
  obtain ⟨⟨⟨hpos, h64⟩, hrange⟩, rfl⟩ := (MulHart.exec_bigmul_eq_some_iff hn).mp hexec
  obtain ⟨c, changes, hcycle, hstart, hsize, hbase, hcacheA, hcacheB, hpc, hregisters, hmemory,
    hclock⟩ := fetchCycle_startsBigmul fpu hword hconforms hidle hn hpos h64
  obtain ⟨v₁, hv₁⟩ : ∃ v₁ : Vm, v₁ =
    { v.noteState (CustomInstruction.bigmul rs1 rs2).word with core := c }.record changes := ⟨_, rfl⟩
  have hcore : v₁.core = c := by rw [hv₁]; rfl
  have hprogram : v₁.programSize = v.programSize := by rw [hv₁]; rfl
  rw [← hcore] at hstart hsize hbase hcacheA hcacheB hpc hregisters hmemory hclock
  have hrange' : v₁.core.bigmul.baseAddrRes.toNat + 16 * n ≤ v₁.core.memory.size.toNat := by
    rw [hbase, hmemory]
    exact hrange
  obtain ⟨hbusy, u, hcomputed, hsame, hend⟩ := bigmul_stall hstart hsize hpos h64 hrange'
  have hldbm : v₁.core.ldbmBusy = false := hstart.inBigmul.ldbmBusy
  rw [← Vm.iter_stallBigmul hldbm] at hend
  have hbusy' : ∀ t < computeCycles n + writeCycles n, ∃ w, Loop.iter Vm.stallBigmul t v₁ = .ok w ∧
      w.core.bigmulBusy = true := by
    intro t ht
    obtain ⟨w, hw, hwbusy⟩ := hbusy t ht
    have hidle' : w.core.ldbmBusy = false :=
      Loop.iter_invariant (fun w => w.core.ldbmBusy = false)
        (fun s t hs ht => (Vm.stallCycle_frame ht).2.ldbmBusy hs) hldbm hw
    refine ⟨w, (Vm.iter_stallBigmul hldbm t).trans hw, ?_⟩
    rw [Core.busy, hidle', Bool.false_or] at hwbusy
    exact hwbusy
  have hbudget : computeCycles n + writeCycles n < Vm.drainBudget := by
    have hcompute := computeCycles_le h64
    have hwrite : writeCycles n = (2 * n + 7) / 8 := rfl
    change _ < 16384
    omega
  have hloop := Loop.run_while hbusy' hend (Bool.and_false _) hbudget
  have hdrain : (v₁.drainLdbm >>= fun w => w.drainBigmul) =
      .ok (writtenBack (afterCompute v₁ (computeCycles n) u) (writeCycles n)) := by
    rw [Vm.drainLdbm, Vm.drain_of_false hldbm, Loop.bind_ok, Vm.drainBigmul, Vm.drain, hloop]
  refine ⟨_, v.step_of_drain hword hin hcycle hv₁ hdrain, ?_, hprogram⟩
  have hun : u.sizeOfOperand.toNat = n := by rw [hsame.sizeOfOperand, hsize]
  have hoperand {cache : Vector Word 64} :
      limbValue (2 ^ 64) (limb cache) n = limbValue (2 ^ 64) (limb cache) 64 % 2 ^ (64 * n) := by
    rw [← limbValue_mod (limb_lt cache) h64, ← pow_mul]
  have hproduct : limbValue (2 ^ 64) (limb u.resultCache) (2 * n) = v.mulHart.product n := by
    rw [hcomputed.product, hsame.cacheA, hsame.cacheB, hcacheA, hcacheB, hoperand, hoperand]
    rfl
  apply MulHart.ext
  · apply Hart.ext
    · exact hpc
    · exact congrArg RegisterFile.readGpr hregisters
    · change v₁.core.memory.storeMany u.baseAddrRes (resultWord u) (2 * u.sizeOfOperand.toNat) = _
      rw [hun, storeMany_product _ _ h64 hproduct, hsame.baseAddrRes, hbase, hmemory]
      rfl
  · change limbValue (2 ^ 64) (limb u.cacheA) 64 = limbValue (2 ^ 64) (limb v.core.bigmul.cacheA) 64
    rw [hsame.cacheA, hcacheA]
  · change limbValue (2 ^ 64) (limb u.cacheB) 64 = limbValue (2 ^ 64) (limb v.core.bigmul.cacheB) 64
    rw [hsame.cacheB, hcacheB]
  · change v₁.core.cycleS + BitVec.ofNat 32 (computeCycles n) + BitVec.ofNat 32 (writeCycles n) = _
    rw [hclock, BitVec.ofNat_add, BitVec.ofNat_add, BitVec.add_assoc, BitVec.add_assoc]
    rfl

namespace Vm

variable (fpu : Fpu) {v v' : Vm}

theorem step_idle {fpu : Fpu} (hidle : v.core.bigmul.Idle)
    (hin : v.core.programCounter < v.programSize) (hstep : v.step fpu = .ok v') :
    v'.core.bigmul.Idle := by
  obtain ⟨-, -, -, -, -, -, hidle'⟩ := step_eq_fetch ⟨rfl, rfl⟩ hidle hin hstep
  exact hidle'

theorem step_integer_bigmul {fpu : Fpu} {w : Instr} (hword : v.nextWord = .ok w)
    (hint : isIntegerWord w = true) (hidle : v.core.bigmul.Idle)
    (hin : v.core.programCounter < v.programSize) (hstep : v.step fpu = .ok v') :
    v'.core.bigmul = v.core.bigmul := by
  obtain ⟨-, w₁, -, -, ⟨changes, hcycle⟩, ⟨u, hdrain, rfl⟩, -⟩ := step_eq_fetch ⟨rfl, rfl⟩ hidle hin hstep
  have hlinked := fetchCycle_linked hword (plainWord_of_integer hint) hcycle
  rw [drains_of_not_busy hlinked.notBusy] at hdrain
  obtain rfl := Except.ok.inj hdrain
  exact hlinked.bigmul

/-- The machine takes each step of the hart with the multiplier. -/
theorem stepsToMulHart {h' : MulHart} (hidle : v.core.bigmul.Idle)
    (hstep : v.mulHart.Follows v.programSize h') : v.StepsToMulHart fpu h' := by
  cases hstep with
  | integer hinteger =>
    obtain ⟨i, hfetch, hconforms, hexec⟩ := hinteger
    obtain ⟨hword, hin⟩ := nextWord_of_fetch hfetch
    obtain ⟨v', hstep, rfl, hsize⟩ := stepsToHart fpu hfetch hconforms hexec
    have hbigmul := step_integer_bigmul hword i.integer hidle hin hstep
    have hbeside := beside_of_integer hword i.integer hin hstep
    refine ⟨v', hstep, ?_, hsize⟩
    apply MulHart.ext
    · rfl
    · exact congrArg (fun u : BigmulUnit => limbValue (2 ^ 64) (limb u.cacheA) 64) hbigmul
    · exact congrArg (fun u : BigmulUnit => limbValue (2 ^ 64) (limb u.cacheB) 64) hbigmul
    · exact hbeside.cycles
  | custom i hin hrange hload hconforms hexec =>
    have hword : v.nextWord = .ok i.word := Memory.readWord_eq_ok_iff.mpr ⟨hrange, hload⟩
    cases i with
    | ldbm rd rs1 rs2 => exact stepsToMulHart_ldbm fpu hword hin hconforms hidle hexec
    | bigmul rs1 rs2 => exact stepsToMulHart_bigmul fpu hword hin hconforms hidle hexec

theorem simulates_mulHart (size : Word) :
    Simulates (fun (h : MulHart) (v : Vm) => v.mulHart = h ∧ v.programSize = size ∧ v.core.bigmul.Idle)
      (MulHart.Follows size) (fun v v' => v.step fpu = .ok v') := by
  rintro h v h' ⟨rfl, rfl, hidle⟩ hstep
  obtain ⟨v', hv', hhart, hsize⟩ := stepsToMulHart fpu hidle hstep
  exact ⟨v', hv', hhart, hsize, step_idle hidle hstep.inProgram hv'⟩

theorem iter_of_mulHart {n : Nat} {m : MulHart} (hidle : v.core.bigmul.Idle)
    (hrun : Runs (MulHart.Follows v.programSize) n v.mulHart m) :
    ∃ v', Loop.iter (step fpu) n v = .ok v' ∧ v'.mulHart = m ∧ v'.programSize = v.programSize ∧
      v'.core.bigmul.Idle := by
  obtain ⟨v', hruns, hrelated⟩ := (simulates_mulHart fpu v.programSize).runs ⟨rfl, rfl, hidle⟩ hrun
  exact ⟨v', Loop.iter_of_runs hruns, hrelated⟩

theorem stepsToEnd_of_mulHart {n : Nat} {m : MulHart} (hidle : v.core.bigmul.Idle)
    (hrun : Runs (MulHart.Follows v.programSize) n v.mulHart m) (hend : ¬ m.hart.pc < v.programSize) :
    ∃ w, StepsToEnd fpu v n w ∧ w.mulHart = m := by
  obtain ⟨w, hiter, rfl, hsize, -⟩ := iter_of_mulHart fpu hidle hrun
  refine ⟨w, ⟨hiter, fun k hk => ?_, hsize ▸ hend⟩, rfl⟩
  obtain ⟨t, t', hrun', hstep⟩ := hrun.stop hk
  obtain ⟨u, hu, rfl, hsizeu, -⟩ := iter_of_mulHart fpu hidle hrun'
  exact ⟨u, hu, hsizeu ▸ hstep.inProgram⟩

/-- The first doubleword of the program squared. -/
def squaringProgram : List Instr :=
  [(Instruction.immediate .addi 1 0 0x100).word, (Instruction.immediate .addi 4 0 1).word,
    (CustomInstruction.ldbm 0 0 0).word, (CustomInstruction.bigmul 1 4).word,
    (Instruction.immediate .addi 5 0 0).word]

end Vm

end RiscvSim
