import RiscvSim.Commands
import RiscvSim.Recorded

/-! The integer instructions as a function of the architectural state. The stages go
through latches that earlier instructions have left behind; none of them shows. -/

namespace RiscvSim

/-- Integer computational instructions, LUI, AUIPC, loads, stores, branches, JAL and
JALR. A load or a branch whose `funct3` is unused keeps the value of a latch. -/
def isIntegerWord (w : Instr) : Bool :=
  match w.opcode with
  | 0b0110011#7 | 0b0111011#7 | 0b0010011#7 | 0b0011011#7 | 0b0110111#7 | 0b0010111#7 => true
  | 0b1101111#7 | 0b1100111#7 | 0b0100011#7 => true
  | 0b0000011#7 => w.funct3 != 0b111#3
  | 0b1100011#7 => w.funct3 != 0b010#3 && w.funct3 != 0b011#3
  | _ => false

namespace IntegerCycle

/-- The second operand of the ALU. -/
def operand (r : RegisterFile) (w : Instr) : Word :=
  if (ControlUnit.setControlSignals w).aluSrc then (immGenerator w).signExtend 64
  else r.readGpr w.rs2

def nextPc (pc : Word) (w : Instr) (result : Word) : Word :=
  match w.opcode with
  | 0b1100111#7 => result
  | 0b1101111#7 => pc + (immGenerator w).signExtend 64
  | 0b1100011#7 =>
    if Core.branchTaken w.funct3 result false then pc + (immGenerator w).signExtend 64
    else pc + 4
  | _ => pc + 4

/-- The value for `rd`. -/
def value (pc : Word) (w : Instr) (result loaded : Word) : Option Word :=
  match w.opcode with
  | 0b0110011#7 | 0b0010011#7 => some result
  | 0b0010111#7 => some (pc + (immGenerator w <<< 12).signExtend 64)
  | 0b0000011#7 => some loaded
  | 0b1100111#7 | 0b1101111#7 => some (pc + 4)
  | 0b0110111#7 => some ((immGenerator w <<< 12).signExtend 64)
  | _ => none

def load (m : Memory) (w : Instr) (address : Word) : Except Fault Word :=
  if w.opcode = 0b0000011#7 then Core.loadValue m address w.funct3 0 else .ok 0

def store (m : Memory) (r : RegisterFile) (w : Instr) (address : Word) :
    Except Fault (Memory × Changes) :=
  if w.opcode = 0b0100011#7 then Core.storeValue m address w.funct3 (r.readGpr w.rs2)
  else .ok (m, .none)

def writeRd (r : RegisterFile) (w : Instr) (value : Option Word) : RegisterFile :=
  match value with
  | some x => r.writeGpr w.rd x
  | none => r

/-- The instruction `w` on the architectural state, and the changes it records. -/
def run (a : Arch) (w : Instr) : Except Fault (Arch × Changes) := do
  let result ← Alu.execute (ControlUnit.getAluSignal w) (a.registers.readGpr w.rs1)
    (operand a.registers w)
  let loaded ← load a.memory w result.1
  let (memory, stored) ← store a.memory a.registers w result.1
  let registers := writeRd a.registers w (value a.programCounter w result.1 loaded)
  return (⟨nextPc a.programCounter w result.1, registers, memory, a.instructionsRetired + 1,
      a.cycleS + 1⟩,
    stored ++ .ofRegister (.gpr w.rd) (a.registers.readGpr w.rd) (registers.readGpr w.rd))

end IntegerCycle

theorem integerWord_cases {w : Instr} (h : isIntegerWord w = true) :
    w.opcode = 0b0110011#7 ∨ w.opcode = 0b0111011#7 ∨ w.opcode = 0b0010011#7 ∨
    w.opcode = 0b0011011#7 ∨ w.opcode = 0b0110111#7 ∨ w.opcode = 0b0010111#7 ∨
    w.opcode = 0b1101111#7 ∨ w.opcode = 0b1100111#7 ∨ w.opcode = 0b0100011#7 ∨
    (w.opcode = 0b0000011#7 ∧ w.funct3 ≠ 0b111#3) ∨
    (w.opcode = 0b1100011#7 ∧ w.funct3 ≠ 0b010#3 ∧ w.funct3 ≠ 0b011#3) := by
  unfold isIntegerWord at h
  split at h <;> simp_all

theorem plainWord_of_integer {w : Instr} (h : isIntegerWord w = true) : PlainWord w := by
  rcases integerWord_cases h with h | h | h | h | h | h | h | h | h | ⟨h, -⟩ | ⟨h, -⟩ <;>
    exact ⟨by simp [h], by simp [isFInstruction, h], by simp [isDInstruction, h], by simp [h],
      by simp [h]⟩

/-- What `Execute` leaves in the latches that the later stages read. -/
structure Executed (c : Core) (w : Instr) (pc result : Word) : Prop where
  programCounter : c.programCounter = IntegerCycle.nextPc pc w result
  executionResult : c.executionResult =
    if w.opcode = 0b0010111#7 then pc + (immGenerator w <<< 12).signExtend 64 else result
  nextPc : w.opcode = 0b1100111#7 ∨ w.opcode = 0b1101111#7 → c.nextPc = pc + 4

/-- `jump` undoes the advance of `Fetch` and goes to the target. -/
theorem jump_eq {c : Core} {pc : Word} (imm : Word) (hpc : c.programCounter = pc + 4) :
    (c.jump imm).programCounter =
        (if c.currentInstruction.opcode = 0b1100111#7 then c.executionResult else pc + imm) ∧
      (c.jump imm).executionResult = c.executionResult ∧
      (c.jump imm).branchFlag = c.branchFlag ∧ (c.jump imm).nextPc = pc + 4 := by
  have hback : pc + 4 + -4 = pc := by grind
  have htarget (x : Word) : pc + (-pc + x) = x := by grind
  unfold Core.jump Core.updateProgramCounter
  dsimp only
  split
  · simp only [hpc, hback, htarget, and_self]
  · simp only [hpc, hback, and_self]

theorem takeBranch_other {c : Core} {imm : Word} (h : c.currentInstruction.opcode ≠ 0b1100011#7) :
    c.takeBranch imm = c := by
  rw [Core.takeBranch, if_neg fun hc => h hc.2]

theorem addUpperImmediate_other {c : Core} {imm : BitVec 32}
    (h : c.currentInstruction.opcode ≠ 0b0010111#7) : c.addUpperImmediate imm = c := by
  rw [Core.addUpperImmediate, if_neg h]

theorem executeBranch_other {c : Core} {imm : Word} (h : c.controlUnit.branch = false) :
    c.executeBranch imm = c := by
  rw [Core.executeBranch, if_neg (by simp [h])]

theorem setControlSignals_branch {w : Instr} (h : isIntegerWord w = true) :
    (ControlUnit.setControlSignals w).branch = true ↔
      w.opcode = 0b1100111#7 ∨ w.opcode = 0b1101111#7 ∨ w.opcode = 0b1100011#7 := by
  rcases integerWord_cases h with h | h | h | h | h | h | h | h | h | ⟨h, -⟩ | ⟨h, -⟩ <;>
    simp [ControlUnit.setControlSignals, ControlUnit.reset, h]

theorem branchTaken_used {funct3 : BitVec 3} (h : funct3 ≠ 0b010#3) (h' : funct3 ≠ 0b011#3)
    (result : Word) (previous : Bool) :
    Core.branchTaken funct3 result previous = Core.branchTaken funct3 result false := by
  have hused : ∀ f : BitVec 3, f ≠ 0b010#3 → f ≠ 0b011#3 →
      f = 0b000#3 ∨ f = 0b001#3 ∨ f = 0b100#3 ∨ f = 0b101#3 ∨ f = 0b110#3 ∨ f = 0b111#3 := by
    decide
  rcases hused funct3 h h' with rfl | rfl | rfl | rfl | rfl | rfl <;> rfl

section

variable {c : Core} {w : Instr} {pc : Word}

theorem executed_jump (hword : c.currentInstruction = w) (hbranch : c.controlUnit.branch = true)
    (hpc : c.programCounter = pc + 4) (h : w.opcode = 0b1100111#7 ∨ w.opcode = 0b1101111#7) :
    Executed (((c.executeBranch ((immGenerator w).signExtend 64)).takeBranch
      ((immGenerator w).signExtend 64)).addUpperImmediate (immGenerator w)) w pc
      c.executionResult := by
  have hother : w.opcode ≠ 0b1100011#7 ∧ w.opcode ≠ 0b0010111#7 := by
    rcases h with h | h <;> simp [h]
  have heq : c.executeBranch ((immGenerator w).signExtend 64) =
      c.jump ((immGenerator w).signExtend 64) := by
    rw [Core.executeBranch, if_pos hbranch, if_pos (by rw [hword]; exact h)]
  have hword₁ : (c.jump ((immGenerator w).signExtend 64)).currentInstruction = w :=
    (jump_frame c _).currentInstruction.trans hword
  obtain ⟨hjpc, hjresult, -, hjnext⟩ :=
    jump_eq ((immGenerator w).signExtend 64) hpc
  rw [heq, takeBranch_other (by rw [hword₁]; exact hother.1),
    addUpperImmediate_other (by rw [hword₁]; exact hother.2)]
  refine ⟨?_, by rw [hjresult, if_neg hother.2], fun _ => hjnext⟩
  rw [hjpc, hword]
  rcases h with h | h <;> simp [IntegerCycle.nextPc, h]

theorem executed_branch (hint : isIntegerWord w = true) (hword : c.currentInstruction = w)
    (hbranch : c.controlUnit.branch = true) (hpc : c.programCounter = pc + 4)
    (h : w.opcode = 0b1100011#7) :
    Executed (((c.executeBranch ((immGenerator w).signExtend 64)).takeBranch
      ((immGenerator w).signExtend 64)).addUpperImmediate (immGenerator w)) w pc
      c.executionResult := by
  have hback (x : Word) : pc + 4 + -4 + x = pc + x := by grind
  have hfunct3 : w.funct3 ≠ 0b010#3 ∧ w.funct3 ≠ 0b011#3 := by
    simpa [isIntegerWord, h] using hint
  have htaken := branchTaken_used hfunct3.1 hfunct3.2 c.executionResult c.branchFlag
  have heq : c.executeBranch ((immGenerator w).signExtend 64) =
      { c with branchFlag := Core.branchTaken w.funct3 c.executionResult false } := by
    rw [Core.executeBranch, if_pos hbranch, if_neg (by rw [hword, h]; decide),
      if_pos (by rw [hword, h]), hword, htaken]
  rw [heq]
  cases hflag : Core.branchTaken w.funct3 c.executionResult false with
  | true =>
    rw [Core.takeBranch, if_pos ⟨rfl, by rw [hword, h]⟩, addUpperImmediate_other]
    · unfold Core.updateProgramCounter
      refine ⟨?_, by rw [if_neg (by rw [h]; decide)], fun hj => ?_⟩
      · simp only [hpc, hback, IntegerCycle.nextPc, h, hflag, if_true]
      · exact absurd hj (by rw [h]; decide)
    · unfold Core.updateProgramCounter
      dsimp only
      rw [hword, h]
      decide
  | false =>
    rw [Core.takeBranch, if_neg (by simp), addUpperImmediate_other (by rw [hword, h]; decide)]
    refine ⟨?_, by rw [if_neg (by rw [h]; decide)], fun hj => ?_⟩
    · simp [IntegerCycle.nextPc, h, hflag, hpc]
    · exact absurd hj (by rw [h]; decide)

theorem executed_other (hint : isIntegerWord w = true) (hword : c.currentInstruction = w)
    (hcontrol : c.controlUnit = .setControlSignals w)
    (hbranch : ¬ (w.opcode = 0b1100111#7 ∨ w.opcode = 0b1101111#7 ∨ w.opcode = 0b1100011#7))
    (hpc : c.programCounter = pc + 4) :
    Executed (((c.executeBranch ((immGenerator w).signExtend 64)).takeBranch
      ((immGenerator w).signExtend 64)).addUpperImmediate (immGenerator w)) w pc
      c.executionResult := by
  have hsignal : c.controlUnit.branch = false := by
    rw [hcontrol, ← Bool.not_eq_true, setControlSignals_branch hint]
    exact hbranch
  have hupper : pc + 4 - 4 = pc := by grind
  simp only [not_or] at hbranch
  have hnext : IntegerCycle.nextPc pc w c.executionResult = pc + 4 := by
    simp [IntegerCycle.nextPc, hbranch]
  rw [executeBranch_other hsignal, takeBranch_other (by rw [hword]; exact hbranch.2.2)]
  by_cases h : w.opcode = 0b0010111#7
  · rw [Core.addUpperImmediate, if_pos (by rw [hword, h])]
    refine ⟨hpc.trans hnext.symm, ?_, fun hj => absurd hj (by simp [hbranch])⟩
    rw [if_pos h, hpc, hupper]
  · rw [addUpperImmediate_other (by rw [hword]; exact h)]
    exact ⟨hpc.trans hnext.symm, by rw [if_neg h], fun hj => absurd hj (by simp [hbranch])⟩

end

/-- The branch and AUIPC part of `Execute` on the result of the ALU. -/
theorem executed_of_integer {c : Core} {w : Instr} {pc : Word} (hint : isIntegerWord w = true)
    (hword : c.currentInstruction = w) (hcontrol : c.controlUnit = .setControlSignals w)
    (hpc : c.programCounter = pc + 4) :
    Executed (((c.executeBranch ((immGenerator w).signExtend 64)).takeBranch
      ((immGenerator w).signExtend 64)).addUpperImmediate (immGenerator w)) w pc
      c.executionResult := by
  by_cases hop : w.opcode = 0b1100111#7 ∨ w.opcode = 0b1101111#7 ∨ w.opcode = 0b1100011#7
  · have hbranch : c.controlUnit.branch = true := by
      rw [hcontrol, setControlSignals_branch hint]
      exact hop
    rcases hop with h | h | h
    · exact executed_jump hword hbranch hpc (.inl h)
    · exact executed_jump hword hbranch hpc (.inr h)
    · exact executed_branch hint hword hbranch hpc h
  · exact executed_other hint hword hcontrol hop hpc

theorem memRead_iff {w : Instr} (h : isIntegerWord w = true) :
    (ControlUnit.setControlSignals w).memRead = true ↔ w.opcode = 0b0000011#7 := by
  rcases integerWord_cases h with h | h | h | h | h | h | h | h | h | ⟨h, -⟩ | ⟨h, -⟩ <;>
    simp [ControlUnit.setControlSignals, ControlUnit.reset, h]

theorem memWrite_iff {w : Instr} (h : isIntegerWord w = true) :
    (ControlUnit.setControlSignals w).memWrite = true ↔ w.opcode = 0b0100011#7 := by
  rcases integerWord_cases h with h | h | h | h | h | h | h | h | h | ⟨h, -⟩ | ⟨h, -⟩ <;>
    simp [ControlUnit.setControlSignals, ControlUnit.reset, h]

theorem loadValue_used {m : Memory} {address : Word} {funct3 : BitVec 3} (h : funct3 ≠ 0b111#3)
    (previous previous' : Word) :
    Core.loadValue m address funct3 previous = Core.loadValue m address funct3 previous' := by
  have hused : ∀ f : BitVec 3, f ≠ 0b111#3 → f = 0b000#3 ∨ f = 0b001#3 ∨ f = 0b010#3 ∨
      f = 0b011#3 ∨ f = 0b100#3 ∨ f = 0b101#3 ∨ f = 0b110#3 := by
    decide
  rcases hused funct3 h with rfl | rfl | rfl | rfl | rfl | rfl | rfl <;> rfl

/-- `WriteMemory` on an integer word, as the load and the store of the architectural
state; the latch of the load counts for loads only. -/
theorem writeMemory_integer {c : Core} {w : Instr} (hint : isIntegerWord w = true)
    (hword : c.currentInstruction = w) (hcontrol : c.controlUnit = .setControlSignals w) :
    ∃ keep : Word → Word, (w.opcode = 0b0000011#7 → keep = id) ∧
    c.writeMemory = (do
      let loaded ← IntegerCycle.load c.memory w c.executionResult
      let (memory, stored) ← IntegerCycle.store c.memory c.registers w c.executionResult
      return ({ c with memory, memoryResult := keep loaded }, stored)) := by
  have hplain := plainWord_of_integer hint
  have hldbm : c.controlUnit.ldbmStart = false :=
    hcontrol ▸ setControlSignals_ldbmStart hplain.notLdbm
  have hbigmul : c.controlUnit.bigmulStart = false :=
    hcontrol ▸ setControlSignals_bigmulStart hplain.notBigmul
  have hmemRead := memRead_iff hint
  have hmemWrite := memWrite_iff hint
  rw [← hcontrol] at hmemRead hmemWrite
  have hnostart : ¬ (c.controlUnit.bigmulStart = true ∧ ¬ c.bigmul.bigmulDone = true ∧
      ¬ c.bigmul.writeDone = true) := by simp [hbigmul]
  rw [writeMemory_plain (hword ▸ hplain) hldbm, Core.writeMemoryInteger, Core.readResult,
    IntegerCycle.load, IntegerCycle.store, hword]
  simp only [if_neg hnostart]
  by_cases hload : w.opcode = 0b0000011#7
  · have hfunct3 : w.funct3 ≠ 0b111#3 := by simpa [isIntegerWord, hload] using hint
    have hstore : w.opcode ≠ 0b0100011#7 := by simp [hload]
    refine ⟨id, fun _ => rfl, ?_⟩
    rw [if_pos (hmemRead.mpr hload), if_pos hload, loadValue_used hfunct3 c.memoryResult 0]
    simp only [if_neg (mt hmemWrite.mp hstore), if_neg hstore]
    rfl
  · refine ⟨fun _ => c.memoryResult, fun h => absurd h hload, ?_⟩
    rw [if_neg (mt hmemRead.mp hload), if_neg hload, Loop.bind_ok, Loop.bind_ok]
    by_cases hstore : w.opcode = 0b0100011#7
    · rw [if_pos (hmemWrite.mpr hstore), if_pos hstore]
    · rw [if_neg (mt hmemWrite.mp hstore), if_neg hstore]
      rfl

/-- `WriteBack` of an integer word. -/
theorem writeBack_integer {c : Core} {w : Instr} {pc result loaded : Word}
    (hint : isIntegerWord w = true) (hword : c.currentInstruction = w)
    (hcontrol : c.controlUnit = .setControlSignals w)
    (hresult : c.executionResult =
      if w.opcode = 0b0010111#7 then pc + (immGenerator w <<< 12).signExtend 64 else result)
    (hnext : w.opcode = 0b1100111#7 ∨ w.opcode = 0b1101111#7 → c.nextPc = pc + 4)
    (hloaded : w.opcode = 0b0000011#7 → c.memoryResult = loaded) :
    c.writeBack =
      ({ c with
          registers := IntegerCycle.writeRd c.registers w (IntegerCycle.value pc w result loaded) },
        .ofRegister (.gpr w.rd) (c.registers.readGpr w.rd)
          ((IntegerCycle.writeRd c.registers w (IntegerCycle.value pc w result loaded)).readGpr
            w.rd)) := by
  have hplain := plainWord_of_integer hint
  have hregisters : c.writeBackInteger.1.registers =
      IntegerCycle.writeRd c.registers w (IntegerCycle.value pc w result loaded) := by
    rcases integerWord_cases hint with h | h | h | h | h | h | h | h | h | ⟨h, -⟩ | ⟨h, -⟩ <;>
      simp [Core.writeBackInteger, Core.integerResult, IntegerCycle.value, IntegerCycle.writeRd,
        hword, hcontrol, h, ControlUnit.setControlSignals, ControlUnit.reset, hresult, hnext,
        hloaded]
  have heq : c.writeBackInteger =
      ({ c with registers := c.writeBackInteger.1.registers },
        .ofRegister (.gpr c.currentInstruction.rd) (c.registers.readGpr c.currentInstruction.rd)
          (c.writeBackInteger.1.registers.readGpr c.currentInstruction.rd)) := rfl
  rw [writeBack_plain (hword ▸ hplain), heq, hregisters, hword]

theorem fetchCycle_plain {fpu : Fpu} {c : Core} {w : Instr}
    (hw : c.memory.readWord c.programCounter = .ok w) (hplain : PlainWord w) :
    c.fetchCycle fpu = (decoded c w).executeInteger >>= fun c₂ =>
      c₂.writeMemory >>= fun r => .ok ({ r.1.writeBack.1 with
        instructionsRetired := r.1.writeBack.1.instructionsRetired + 1
        cycleS := r.1.writeBack.1.cycleS + 1 }, r.2 ++ r.1.writeBack.2) := by
  have hfetch : c.fetch = .ok
      { c with currentInstruction := w, programCounter := c.programCounter + 4 } := by
    rw [Core.fetch, hw]
    rfl
  have hexec : (decoded c w).execute fpu = _ := execute_plain hplain
  rw [Core.fetchCycle, hfetch, Loop.bind_ok, decode_other hplain.notLdbm hplain.notBigmul,
    Loop.bind_ok]
  change (decoded c w).execute fpu >>= _ = _
  rw [hexec]
  cases (decoded c w).executeInteger with
  | error e => rfl
  | ok c₂ => rfl

/-- The part of `Execute` after the ALU. -/
def afterAlu (c : Core) (w : Instr) (result : Word) : Core :=
  ((({ c with executionResult := result }.executeBranch
    ((immGenerator w).signExtend 64)).takeBranch
    ((immGenerator w).signExtend 64)).addUpperImmediate (immGenerator w))

theorem afterAlu_frame (c : Core) (w : Instr) (result : Word) :
    IntegerFrame c (afterAlu c w result) := by
  have hresult : IntegerFrame c { c with executionResult := result } :=
    ⟨⟨rfl, rfl, rfl, rfl, rfl, rfl⟩, rfl, rfl⟩
  exact ((hresult.trans (executeBranch_frame _ _)).trans (takeBranch_frame _ _)).trans
    (addUpperImmediate_frame _ _)

/-- The loads and the stores address with the result of the ALU. -/
theorem load_address {m : Memory} {w : Instr} {pc result address : Word}
    (h : address = if w.opcode = 0b0010111#7 then pc else result) :
    IntegerCycle.load m w address = IntegerCycle.load m w result := by
  unfold IntegerCycle.load
  by_cases hop : w.opcode = 0b0000011#7
  · have haddress : address = result := by rw [h, if_neg (by rw [hop]; decide)]
    rw [haddress]
  · rw [if_neg hop, if_neg hop]

theorem store_address {m : Memory} {r : RegisterFile} {w : Instr} {pc result address : Word}
    (h : address = if w.opcode = 0b0010111#7 then pc else result) :
    IntegerCycle.store m r w address = IntegerCycle.store m r w result := by
  unfold IntegerCycle.store
  by_cases hop : w.opcode = 0b0100011#7
  · have haddress : address = result := by rw [h, if_neg (by rw [hop]; decide)]
    rw [haddress]
  · rw [if_neg hop, if_neg hop]

/-- The stages after the ALU are a function of the architectural state. -/
theorem afterAlu_integer {c : Core} {w : Instr} (hint : isIntegerWord w = true) (result : Word) :
    ((afterAlu (decoded c w) w result).writeMemory >>= fun r =>
      (.ok ({ r.1.writeBack.1 with
        instructionsRetired := r.1.writeBack.1.instructionsRetired + 1
        cycleS := r.1.writeBack.1.cycleS + 1 }, r.2 ++ r.1.writeBack.2) :
        Except Fault (Core × Changes))).map (fun r => (r.1.arch, r.2)) =
    (do
      let loaded ← IntegerCycle.load c.memory w result
      let (memory, stored) ← IntegerCycle.store c.memory c.registers w result
      let registers := IntegerCycle.writeRd c.registers w
        (IntegerCycle.value c.programCounter w result loaded)
      return (⟨IntegerCycle.nextPc c.programCounter w result, registers, memory,
          c.instructionsRetired + 1, c.cycleS + 1⟩,
        stored ++ .ofRegister (.gpr w.rd) (c.registers.readGpr w.rd) (registers.readGpr w.rd))) := by
  have hexec : Executed (afterAlu (decoded c w) w result) w c.programCounter result :=
    executed_of_integer (c := { decoded c w with executionResult := result }) hint rfl rfl rfl
  have hframe := afterAlu_frame (decoded c w) w result
  generalize afterAlu (decoded c w) w result = c₂ at hexec hframe
  have hword : c₂.currentInstruction = w := hframe.currentInstruction
  have hcontrol : c₂.controlUnit = .setControlSignals w := hframe.controlUnit
  have hregisters : c₂.registers = c.registers := hframe.registers
  have hmemory : c₂.memory = c.memory := hframe.memory
  obtain ⟨keep, hkeep, hmem⟩ := writeMemory_integer hint hword hcontrol
  rw [hmem, load_address hexec.executionResult, store_address hexec.executionResult, hregisters,
    hmemory]
  cases IntegerCycle.load c.memory w result with
  | error e => rfl
  | ok loaded =>
    rw [Loop.bind_ok, Loop.bind_ok]
    cases IntegerCycle.store c.memory c.registers w result with
    | error e => rfl
    | ok r =>
      have hback := @writeBack_integer { c₂ with memory := r.1, memoryResult := keep loaded } w
        c.programCounter result loaded hint hword hcontrol hexec.executionResult hexec.nextPc
        (fun h => by rw [hkeep h]; rfl)
      obtain ⟨memory, stored⟩ := r
      dsimp only at hback
      rw [hregisters] at hback
      rw [Loop.bind_ok, Loop.bind_ok]
      change Except.ok (Core.arch _, _) = Except.ok _
      have hretired : c₂.instructionsRetired = c.instructionsRetired := hframe.instructionsRetired
      have hcycle : c₂.cycleS = c.cycleS := hframe.cycleS
      simp only [hback]
      simp only [Core.arch, hexec.programCounter, hretired, hcycle]

/-- The five stages on an integer word are a function of the architectural state. -/
theorem fetchCycle_integer {fpu : Fpu} {c : Core} {w : Instr}
    (hw : c.memory.readWord c.programCounter = .ok w) (hint : isIntegerWord w = true) :
    (c.fetchCycle fpu).map (fun r => (r.1.arch, r.2)) = IntegerCycle.run c.arch w := by
  rw [fetchCycle_plain hw (plainWord_of_integer hint), Core.executeInteger, IntegerCycle.run]
  change Except.map _ (Alu.execute (ControlUnit.getAluSignal w) (c.registers.readGpr w.rs1)
    (IntegerCycle.operand c.registers w) >>= _ >>= _) = Alu.execute (ControlUnit.getAluSignal w)
      (c.registers.readGpr w.rs1) (IntegerCycle.operand c.registers w) >>= _
  cases Alu.execute (ControlUnit.getAluSignal w) (c.registers.readGpr w.rs1)
    (IntegerCycle.operand c.registers w) with
  | error e => rfl
  | ok result => exact afterAlu_integer hint result.1

end RiscvSim
