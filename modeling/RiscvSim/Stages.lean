import RiscvSim.Vm

/-! A fetch cycle taken apart: what each stage can change. -/

namespace RiscvSim

theorem setControlSignals_ldbmStart {w : Instr} (h : w.opcode ≠ 0b0101010#7) :
    (ControlUnit.setControlSignals w).ldbmStart = false := by
  unfold ControlUnit.setControlSignals
  split <;> simp_all [ControlUnit.reset]

theorem setControlSignals_bigmulStart {w : Instr} (h : w.opcode ≠ 0b0111111#7) :
    (ControlUnit.setControlSignals w).bigmulStart = false := by
  unfold ControlUnit.setControlSignals
  split <;> simp_all [ControlUnit.reset]

theorem setControlSignals_exclusive (w : Instr) :
    (ControlUnit.setControlSignals w).ldbmStart = false ∨
      (ControlUnit.setControlSignals w).bigmulStart = false := by
  by_cases h : w.opcode = 0b0101010#7
  · exact .inr (setControlSignals_bigmulStart (by simp [h]))
  · exact .inl (setControlSignals_ldbmStart h)

theorem fetch_eq_ok {c c' : Core} (h : c.fetch = .ok c') :
    ∃ w, c.memory.readWord c.programCounter = .ok w ∧
      c' = { c with currentInstruction := w, programCounter := c.programCounter + 4 } := by
  obtain ⟨w, hw, h⟩ := Loop.bind_eq_ok h
  exact ⟨w, hw, (Except.ok.inj h).symm⟩

/-- The five stages of a cycle that returned. -/
theorem fetchCycle_stages {fpu : Fpu} {c c' : Core} {changes : Changes}
    (h : c.fetchCycle fpu = .ok (c', changes)) :
    ∃ w c₁ c₂ c₃ executed stored, c.memory.readWord c.programCounter = .ok w ∧
      Core.decode { c with currentInstruction := w, programCounter := c.programCounter + 4 } = .ok c₁ ∧
      c₁.execute fpu = .ok (c₂, executed) ∧
      c₂.writeMemory = .ok (c₃, stored) ∧
      c' = { c₃.writeBack.1 with
        instructionsRetired := c₃.writeBack.1.instructionsRetired + 1
        cycleS := c₃.writeBack.1.cycleS + 1 } ∧
      changes = executed ++ stored ++ c₃.writeBack.2 := by
  unfold Core.fetchCycle at h
  obtain ⟨c₀, hfetch, h⟩ := Loop.bind_eq_ok h
  obtain ⟨w, hw, rfl⟩ := fetch_eq_ok hfetch
  obtain ⟨c₁, hdecode, h⟩ := Loop.bind_eq_ok h
  obtain ⟨⟨c₂, executed⟩, hexec, h⟩ := Loop.bind_eq_ok h
  obtain ⟨⟨c₃, stored⟩, hmem, h⟩ := Loop.bind_eq_ok h
  injection h with h
  injection h with hcore hchanges
  exact ⟨w, c₁, c₂, c₃, executed, stored, hw, hdecode, hexec, hmem, hcore.symm, hchanges.symm⟩

/-- The machine after `Fetch` and `Decode` of a word that is no LDBM and no BIGMUL. -/
def decoded (c : Core) (w : Instr) : Core :=
  { c with
    currentInstruction := w
    programCounter := c.programCounter + 4
    controlUnit := .setControlSignals w }

theorem decode_other {c : Core} (h : c.currentInstruction.opcode ≠ 0b0101010#7)
    (h' : c.currentInstruction.opcode ≠ 0b0111111#7) :
    c.decode = .ok { c with controlUnit := .setControlSignals c.currentInstruction } := by
  simp only [Core.decode]
  rw [if_neg (by simp [h]), if_neg (by simp [h'])]
  rfl

/-- `Decode` changes the control signals and the unit. -/
theorem decode_frame {c c' : Core} (h : c.decode = .ok c') :
    c' = { c with
      controlUnit := .setControlSignals c.currentInstruction
      bigmul := c'.bigmul } := by
  unfold Core.decode at h
  dsimp only at h
  split at h
  · obtain ⟨a, -, h⟩ := Loop.bind_eq_ok h
    obtain ⟨b, -, h⟩ := Loop.bind_eq_ok h
    rw [← Except.ok.inj h]
  · split at h
    · obtain ⟨a, -, h⟩ := Loop.bind_eq_ok h
      obtain ⟨b, -, h⟩ := Loop.bind_eq_ok h
      rw [← Except.ok.inj h]
    · rw [← Except.ok.inj h]

/-- The fields that `Execute` leaves alone for every instruction. -/
structure ExecuteFrame (c c' : Core) : Prop where
  controlUnit : c'.controlUnit = c.controlUnit
  bigmul : c'.bigmul = c.bigmul
  currentInstruction : c'.currentInstruction = c.currentInstruction
  memoryResult : c'.memoryResult = c.memoryResult
  instructionsRetired : c'.instructionsRetired = c.instructionsRetired
  cycleS : c'.cycleS = c.cycleS

/-- The integer part of `Execute` also leaves the registers and the memory alone. -/
structure IntegerFrame (c c' : Core) : Prop extends ExecuteFrame c c' where
  registers : c'.registers = c.registers
  memory : c'.memory = c.memory

theorem IntegerFrame.refl (c : Core) : IntegerFrame c c :=
  ⟨⟨rfl, rfl, rfl, rfl, rfl, rfl⟩, rfl, rfl⟩

theorem IntegerFrame.trans {c c' c'' : Core} (h : IntegerFrame c c') (h' : IntegerFrame c' c'') :
    IntegerFrame c c'' :=
  ⟨⟨h'.controlUnit.trans h.controlUnit, h'.bigmul.trans h.bigmul,
    h'.currentInstruction.trans h.currentInstruction, h'.memoryResult.trans h.memoryResult,
    h'.instructionsRetired.trans h.instructionsRetired, h'.cycleS.trans h.cycleS⟩,
    h'.registers.trans h.registers, h'.memory.trans h.memory⟩

theorem updateProgramCounter_frame (c : Core) (value : Word) :
    IntegerFrame c (c.updateProgramCounter value) :=
  ⟨⟨rfl, rfl, rfl, rfl, rfl, rfl⟩, rfl, rfl⟩

theorem jump_frame (c : Core) (imm : Word) : IntegerFrame c (c.jump imm) := by
  have hnext : IntegerFrame c { c with nextPc := c.programCounter } :=
    ⟨⟨rfl, rfl, rfl, rfl, rfl, rfl⟩, rfl, rfl⟩
  have hback := hnext.trans (updateProgramCounter_frame _ (-4))
  have hreturn (d : Core) (x : Word) : IntegerFrame d { d with returnAddress := x } :=
    ⟨⟨rfl, rfl, rfl, rfl, rfl, rfl⟩, rfl, rfl⟩
  unfold Core.jump
  dsimp only
  split
  · exact (hback.trans (hreturn _ _)).trans (updateProgramCounter_frame _ _)
  · exact (hback.trans (hreturn _ _)).trans (updateProgramCounter_frame _ _)

theorem executeBranch_frame (c : Core) (imm : Word) : IntegerFrame c (c.executeBranch imm) := by
  unfold Core.executeBranch
  dsimp only
  split
  · split
    · exact jump_frame c imm
    · split
      · exact ⟨⟨rfl, rfl, rfl, rfl, rfl, rfl⟩, rfl, rfl⟩
      · exact IntegerFrame.refl c
  · exact IntegerFrame.refl c

theorem takeBranch_frame (c : Core) (imm : Word) : IntegerFrame c (c.takeBranch imm) := by
  unfold Core.takeBranch
  split
  · exact (updateProgramCounter_frame _ _).trans (updateProgramCounter_frame _ _)
  · exact IntegerFrame.refl c

theorem addUpperImmediate_frame (c : Core) (imm : BitVec 32) :
    IntegerFrame c (c.addUpperImmediate imm) := by
  unfold Core.addUpperImmediate
  split
  · exact ⟨⟨rfl, rfl, rfl, rfl, rfl, rfl⟩, rfl, rfl⟩
  · exact IntegerFrame.refl c

theorem executeInteger_frame {c c' : Core} (h : c.executeInteger = .ok c') :
    IntegerFrame c c' := by
  unfold Core.executeInteger at h
  obtain ⟨result, -, h⟩ := Loop.bind_eq_ok h
  obtain rfl := Except.ok.inj h
  have hresult : IntegerFrame c { c with executionResult := result.1 } :=
    ⟨⟨rfl, rfl, rfl, rfl, rfl, rfl⟩, rfl, rfl⟩
  have hbranch := hresult.trans
    (executeBranch_frame _ ((immGenerator c.currentInstruction).signExtend 64))
  have htaken := hbranch.trans
    (takeBranch_frame _ ((immGenerator c.currentInstruction).signExtend 64))
  exact htaken.trans (addUpperImmediate_frame _ (immGenerator c.currentInstruction))

/-- A system call changes the registers, the memory and the pending input. -/
theorem handleSyscall_eq {c c' : Core} {changes : Changes}
    (h : c.handleSyscall = .ok (c', changes)) :
    c' = { c with
      registers := c'.registers
      memory := c'.memory
      inputQueue := c'.inputQueue } := by
  have hsame {changes' : Changes} (h : Except.ok (ε := Fault) (c, changes') = .ok (c', changes)) :
      c' = { c with
        registers := c'.registers
        memory := c'.memory
        inputQueue := c'.inputQueue } := by
    injection h with h
    injection h with h
    rw [← h]
  unfold Core.handleSyscall at h
  dsimp only at h
  split at h
  · obtain ⟨-, -, h⟩ := Loop.bind_eq_ok h
    exact hsame h
  · cases h
  · split at h
    · unfold Core.syscallRead at h
      dsimp only at h
      split at h
      · cases h
      · obtain ⟨old, -, h⟩ := Loop.bind_eq_ok h
        obtain ⟨m, -, h⟩ := Loop.bind_eq_ok h
        obtain ⟨m', -, h⟩ := Loop.bind_eq_ok h
        obtain ⟨new, -, h⟩ := Loop.bind_eq_ok h
        injection h with h
        injection h with h
        rw [← h]
    · exact hsame h
  · split at h
    · unfold Core.syscallWrite at h
      obtain ⟨-, -, h⟩ := Loop.bind_eq_ok h
      injection h with h
      injection h with h
      rw [← h]
    · exact hsame h
  · exact hsame h

theorem handleSyscall_frame {c c' : Core} {changes : Changes}
    (h : c.handleSyscall = .ok (c', changes)) : ExecuteFrame c c' := by
  rw [handleSyscall_eq h]
  exact ⟨rfl, rfl, rfl, rfl, rfl, rfl⟩

theorem execute_frame {fpu : Fpu} {c c' : Core} {changes : Changes}
    (h : c.execute fpu = .ok (c', changes)) : ExecuteFrame c c' := by
  unfold Core.execute at h
  dsimp only at h
  split at h
  · exact handleSyscall_frame h
  split at h
  · injection h with h
    injection h with h
    exact h ▸ ⟨rfl, rfl, rfl, rfl, rfl, rfl⟩
  split at h
  · injection h with h
    injection h with h
    exact h ▸ ⟨rfl, rfl, rfl, rfl, rfl, rfl⟩
  split at h
  · injection h with h
    injection h with h
    exact h ▸ ⟨rfl, rfl, rfl, rfl, rfl, rfl⟩
  · obtain ⟨c₁, hint, h⟩ := Loop.bind_eq_ok h
    injection h with h
    injection h with h
    exact h ▸ (executeInteger_frame hint).toExecuteFrame

theorem writeMemoryFloat_frame {c c' : Core} {changes : Changes}
    (h : c.writeMemoryFloat = .ok (c', changes)) :
    c' = { c with memory := c'.memory, memoryResult := c'.memoryResult } := by
  unfold Core.writeMemoryFloat at h
  obtain ⟨loaded, -, h⟩ := Loop.bind_eq_ok h
  split at h
  · obtain ⟨⟨m, stored⟩, -, h⟩ := Loop.bind_eq_ok h
    injection h with h
    injection h with h
    rw [← h]
  · injection h with h
    injection h with h
    rw [← h]

theorem writeMemoryDouble_frame {c c' : Core} {changes : Changes}
    (h : c.writeMemoryDouble = .ok (c', changes)) :
    c' = { c with memory := c'.memory, memoryResult := c'.memoryResult } := by
  unfold Core.writeMemoryDouble at h
  obtain ⟨loaded, -, h⟩ := Loop.bind_eq_ok h
  split at h
  · obtain ⟨⟨m, stored⟩, -, h⟩ := Loop.bind_eq_ok h
    injection h with h
    injection h with h
    rw [← h]
  · injection h with h
    injection h with h
    rw [← h]

/-- What a memory cycle does to the unit: a flag that says done stays so. -/
structure UnitProgress (u u' : BigmulUnit) : Prop where
  ldbmDone : u.ldbmDone = true → u'.ldbmDone = true
  bigmulDone : u.bigmulDone = true → u'.bigmulDone = true

theorem UnitProgress.refl (u : BigmulUnit) : UnitProgress u u := ⟨id, id⟩

theorem ldbmCycle_progress {m : Memory} {u u' : BigmulUnit}
    (h : Core.ldbmCycle m u = .ok u') :
    UnitProgress u u' ∧ u'.bigmulDone = u.bigmulDone := by
  unfold Core.ldbmCycle at h
  obtain ⟨u₁, hu₁, h⟩ := Loop.bind_eq_ok h
  have hflags : u₁.ldbmDone = u.ldbmDone ∧ u₁.bigmulDone = u.bigmulDone := by
    split at hu₁
    · obtain ⟨cache, -, hu₁⟩ := Loop.bind_eq_ok hu₁
      exact Except.ok.inj hu₁ ▸ ⟨rfl, rfl⟩
    · split at hu₁
      · obtain ⟨cache, -, hu₁⟩ := Loop.bind_eq_ok hu₁
        exact Except.ok.inj hu₁ ▸ ⟨rfl, rfl⟩
      · exact Except.ok.inj hu₁ ▸ ⟨rfl, rfl⟩
  rw [← Except.ok.inj h]
  split
  · exact ⟨⟨fun _ => rfl, fun hb => hflags.2.trans hb⟩, hflags.2⟩
  · exact ⟨⟨fun hl => hflags.1.trans hl, fun hb => hflags.2.trans hb⟩, hflags.2⟩

theorem finishWriteBack_progress {m m' : Memory} {u u' : BigmulUnit}
    (h : Core.finishWriteBack m u = .ok (m', u')) :
    UnitProgress u u' ∧ u'.ldbmDone = u.ldbmDone := by
  unfold Core.finishWriteBack at h
  dsimp only at h
  split at h
  · split at h
    · injection h with h
      injection h with hm hu
      subst hu
      exact ⟨⟨id, fun _ => rfl⟩, rfl⟩
    · exact nomatch h
  · injection h with h
    injection h with hm hu
    subst hu
    exact ⟨.refl u, rfl⟩

theorem bigmulWriteCycle_progress {m m' : Memory} {u u' : BigmulUnit}
    (h : Core.bigmulWriteCycle m u = .ok (m', u')) :
    UnitProgress u u' ∧ u'.ldbmDone = u.ldbmDone := by
  unfold Core.bigmulWriteCycle at h
  dsimp only at h
  split at h
  · obtain ⟨m₁, -, h⟩ := Loop.bind_eq_ok h
    obtain ⟨hprogress, hldbm⟩ := finishWriteBack_progress h
    exact ⟨⟨hprogress.ldbmDone, hprogress.bigmulDone⟩, hldbm⟩
  · exact finishWriteBack_progress h

theorem writeMemoryInteger_frame {c c' : Core} {changes : Changes}
    (h : c.writeMemoryInteger = .ok (c', changes)) :
    c' = { c with memory := c'.memory, memoryResult := c'.memoryResult, bigmul := c'.bigmul } ∧
      UnitProgress c.bigmul c'.bigmul ∧ c'.bigmul.ldbmDone = c.bigmul.ldbmDone := by
  unfold Core.writeMemoryInteger at h
  obtain ⟨loaded, -, h⟩ := Loop.bind_eq_ok h
  split at h
  · obtain ⟨⟨m, u⟩, hcycle, h⟩ := Loop.bind_eq_ok h
    injection h with h
    injection h with h
    subst h
    exact ⟨rfl, bigmulWriteCycle_progress hcycle⟩
  split at h
  · obtain ⟨⟨m, stored⟩, -, h⟩ := Loop.bind_eq_ok h
    injection h with h
    injection h with h
    subst h
    exact ⟨rfl, .refl _, rfl⟩
  · injection h with h
    injection h with h
    subst h
    exact ⟨rfl, .refl _, rfl⟩

/-- `WriteMemory` changes the memory, the latch of a load and the unit. -/
theorem writeMemory_frame {c c' : Core} {changes : Changes}
    (h : c.writeMemory = .ok (c', changes)) :
    c' = { c with memory := c'.memory, memoryResult := c'.memoryResult, bigmul := c'.bigmul } ∧
      UnitProgress c.bigmul c'.bigmul := by
  unfold Core.writeMemory at h
  dsimp only at h
  split at h
  · obtain ⟨u, hu, h⟩ := Loop.bind_eq_ok h
    injection h with h
    injection h with h
    subst h
    exact ⟨rfl, (ldbmCycle_progress hu).1⟩
  split at h
  · injection h with h
    injection h with h
    subst h
    exact ⟨rfl, .refl _⟩
  split at h
  · have hc := writeMemoryFloat_frame h
    rw [hc]
    exact ⟨rfl, .refl _⟩
  split at h
  · have hc := writeMemoryDouble_frame h
    rw [hc]
    exact ⟨rfl, .refl _⟩
  · obtain ⟨hc, hprogress, -⟩ := writeMemoryInteger_frame h
    exact ⟨hc, hprogress⟩

/-- `WriteBack` changes the registers. -/
theorem writeBack_frame (c : Core) :
    c.writeBack.1 = { c with registers := c.writeBack.1.registers } := by
  have hfp (toGpr : Bool) :
      (c.writeBackFp toGpr).1 = { c with registers := (c.writeBackFp toGpr).1.registers } := by
    unfold Core.writeBackFp
    dsimp only
    split
    · split <;> rfl
    · rfl
  unfold Core.writeBack
  dsimp only
  split
  · rfl
  split
  · exact hfp _
  split
  · exact hfp _
  split
  · unfold Core.writeBackCsr
    dsimp only
    split
    · rfl
    · split <;> rfl
  · rfl

theorem finishDiagonal_flags {u u' : BigmulUnit} (h : u.finishDiagonal = .ok u') :
    u'.ldbmDone = u.ldbmDone ∧ u'.bigmulDone = u.bigmulDone := by
  unfold BigmulUnit.finishDiagonal at h
  obtain ⟨r, -, h⟩ := Loop.bind_eq_ok h
  dsimp only at h
  split at h
  · obtain ⟨r', -, h⟩ := Loop.bind_eq_ok h
    exact Except.ok.inj h ▸ ⟨rfl, rfl⟩
  · exact Except.ok.inj h ▸ ⟨rfl, rfl⟩

theorem batchCycle_flags {u u' : BigmulUnit} (h : u.batchCycle = .ok u') :
    u'.ldbmDone = u.ldbmDone ∧ u'.bigmulDone = u.bigmulDone := by
  unfold BigmulUnit.batchCycle at h
  obtain ⟨b, -, h⟩ := Loop.bind_eq_ok h
  dsimp only at h
  split at h
  · obtain ⟨hldbm, hbigmul⟩ := finishDiagonal_flags h
    exact ⟨hldbm, hbigmul⟩
  · exact Except.ok.inj h ▸ ⟨rfl, rfl⟩

/-- The flags of the unit do not change in a compute cycle. -/
theorem executeBigmul_flags {u u' : BigmulUnit} (h : u.executeBigmul = .ok u') :
    u'.ldbmDone = u.ldbmDone ∧ u'.bigmulDone = u.bigmulDone := by
  unfold BigmulUnit.executeBigmul BigmulUnit.singlecycle at h
  cases hdone : u.bigmulDone with
  | true =>
    rw [if_pos hdone] at h
    exact Except.ok.inj h ▸ ⟨rfl, hdone⟩
  | false =>
    rw [if_neg (by simp [hdone])] at h
    split at h
    · obtain ⟨hldbm, hbigmul⟩ := batchCycle_flags h
      exact ⟨hldbm, hbigmul⟩
    · rw [← hdone]
      exact batchCycle_flags h

theorem setControlSignals_ldbm {w : Instr} (h : w.opcode = 0b0101010#7) :
    ControlUnit.setControlSignals w =
      { ControlUnit.reset with memRead := true, ldbmStart := true } := by
  simp [ControlUnit.setControlSignals, h]

theorem setControlSignals_bigmul {w : Instr} (h : w.opcode = 0b0111111#7) :
    ControlUnit.setControlSignals w = { ControlUnit.reset with bigmulStart := true } := by
  simp [ControlUnit.setControlSignals, h]

/-- The first cycle of an LDBM loads eight of the 128 words. -/
theorem ldbmCycle_first {m : Memory} {u u' : BigmulUnit} (hoffset : u.ldbmOffset = 0)
    (hdone : u.ldbmDone = false) (h : Core.ldbmCycle m u = .ok u') : u'.ldbmDone = false := by
  unfold Core.ldbmCycle at h
  rw [if_pos (by rw [hoffset]; decide)] at h
  obtain ⟨u₁, hu₁, h⟩ := Loop.bind_eq_ok h
  obtain ⟨cache, -, hu₁⟩ := Loop.bind_eq_ok hu₁
  obtain rfl := Except.ok.inj hu₁
  dsimp only at h
  rw [if_neg (by rw [hoffset]; decide)] at h
  exact Except.ok.inj h ▸ hdone

/-- The cycle that fetches an LDBM does not finish it. -/
theorem fetchCycle_ldbm {fpu : Fpu} {c c' : Core} {changes : Changes} {w : Instr}
    (hw : c.memory.readWord c.programCounter = .ok w) (hop : w.opcode = 0b0101010#7)
    (hdone : c.bigmul.ldbmDone = true) (h : c.fetchCycle fpu = .ok (c', changes)) :
    c'.ldbmBusy = true := by
  obtain ⟨w', c₁, c₂, c₃, executed, stored, hw', hdecode, hexec, hmem, rfl, -⟩ :=
    fetchCycle_stages h
  obtain rfl : w = w' := Except.ok.inj (hw.symm.trans hw')
  have hstart : (ControlUnit.setControlSignals w).ldbmStart = true := by
    rw [setControlSignals_ldbm hop]
  unfold Core.decode at hdecode
  dsimp only at hdecode
  rw [if_pos ⟨hop, hstart, hdone⟩] at hdecode
  obtain ⟨a, -, hdecode⟩ := Loop.bind_eq_ok hdecode
  obtain ⟨b, -, hdecode⟩ := Loop.bind_eq_ok hdecode
  obtain rfl := Except.ok.inj hdecode
  have hframe := execute_frame hexec
  have hstart₂ : c₂.controlUnit.ldbmStart = true := hframe.controlUnit ▸ hstart
  have hdone₂ : c₂.bigmul.ldbmDone = false := by rw [hframe.bigmul]
  have hoffset₂ : c₂.bigmul.ldbmOffset = 0 := by rw [hframe.bigmul]
  unfold Core.writeMemory at hmem
  rw [if_pos ⟨hstart₂, by simp [hdone₂]⟩] at hmem
  obtain ⟨u, hu, hmem⟩ := Loop.bind_eq_ok hmem
  injection hmem with hmem
  injection hmem with hmem
  subst hmem
  rw [writeBack_frame]
  simp [Core.ldbmBusy, hstart₂, ldbmCycle_first hoffset₂ hdone₂ hu]

/-- The cycle that fetches a BIGMUL does not finish it. -/
theorem fetchCycle_bigmul {fpu : Fpu} {c c' : Core} {changes : Changes} {w : Instr}
    (hw : c.memory.readWord c.programCounter = .ok w) (hop : w.opcode = 0b0111111#7)
    (hdone : c.bigmul.bigmulDone = true) (h : c.fetchCycle fpu = .ok (c', changes)) :
    c'.bigmulBusy = true := by
  obtain ⟨w', c₁, c₂, c₃, executed, stored, hw', hdecode, hexec, hmem, rfl, -⟩ :=
    fetchCycle_stages h
  obtain rfl : w = w' := Except.ok.inj (hw.symm.trans hw')
  have hcontrol := setControlSignals_bigmul hop
  have hstart : (ControlUnit.setControlSignals w).bigmulStart = true := by rw [hcontrol]
  have hldbm : (ControlUnit.setControlSignals w).ldbmStart = false := by rw [hcontrol]; rfl
  unfold Core.decode at hdecode
  dsimp only at hdecode
  rw [if_neg (by simp [hop]), if_pos ⟨hop, hstart, hdone⟩] at hdecode
  obtain ⟨a, -, hdecode⟩ := Loop.bind_eq_ok hdecode
  obtain ⟨b, -, hdecode⟩ := Loop.bind_eq_ok hdecode
  obtain rfl := Except.ok.inj hdecode
  have hframe := execute_frame hexec
  have hword₂ : c₂.currentInstruction = w := hframe.currentInstruction
  have hldbm₂ : c₂.controlUnit.ldbmStart = false := hframe.controlUnit ▸ hldbm
  have hstart₂ : c₂.controlUnit.bigmulStart = true := hframe.controlUnit ▸ hstart
  have hmemWrite₂ : c₂.controlUnit.memWrite = false := by
    rw [hframe.controlUnit]
    exact congrArg ControlUnit.memWrite hcontrol
  have hdone₂ : c₂.bigmul.bigmulDone = false := by rw [hframe.bigmul]
  have hwrite₂ : c₂.bigmul.writeDone = true := by rw [hframe.bigmul]
  have hinteger : c₂.writeMemory = c₂.writeMemoryInteger := by
    have hF : isFInstruction w = false := by simp [isFInstruction, hop]
    have hD : isDInstruction w = false := by simp [isDInstruction, hop]
    simp [Core.writeMemory, hldbm₂, hword₂, hop, hF, hD]
  rw [hinteger, Core.writeMemoryInteger] at hmem
  obtain ⟨loaded, -, hmem⟩ := Loop.bind_eq_ok hmem
  rw [if_neg (by simp [hwrite₂]), if_neg (by simp [hmemWrite₂])] at hmem
  injection hmem with hmem
  injection hmem with hmem
  subst hmem
  rw [writeBack_frame]
  simp [Core.bigmulBusy, hstart₂, hdone₂]

/-- Any other instruction leaves nothing to wait for. -/
theorem fetchCycle_other {fpu : Fpu} {c c' : Core} {changes : Changes} {w : Instr}
    (hw : c.memory.readWord c.programCounter = .ok w) (hldbm : w.opcode ≠ 0b0101010#7)
    (hbigmul : w.opcode ≠ 0b0111111#7) (h : c.fetchCycle fpu = .ok (c', changes)) :
    c'.busy = false := by
  obtain ⟨w', c₁, c₂, c₃, executed, stored, hw', hdecode, hexec, hmem, rfl, -⟩ :=
    fetchCycle_stages h
  obtain rfl : w = w' := Except.ok.inj (hw.symm.trans hw')
  rw [decode_other hldbm hbigmul] at hdecode
  obtain rfl := Except.ok.inj hdecode
  have hcontrol₂ : c₂.controlUnit = .setControlSignals w := (execute_frame hexec).controlUnit
  have hcontrol₃ : c₃.controlUnit = c₂.controlUnit := by rw [(writeMemory_frame hmem).1]
  rw [writeBack_frame]
  simp [Core.busy, Core.ldbmBusy, Core.bigmulBusy, hcontrol₃, hcontrol₂,
    setControlSignals_ldbmStart hldbm, setControlSignals_bigmulStart hbigmul]

end RiscvSim
