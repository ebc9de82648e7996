import RiscvSim.Isa
import RiscvSim.RunStep
import RiscvSim.Simulation

/-! The machine follows a hart, on the instructions that it executes as the architecture defines
them. -/

namespace RiscvSim

open Simulation (Runs Simulates)

namespace Instruction

/-- Where the machine computes what the architecture defines. The exceptions are the divisions that
the arithmetic unit answers in its own way, the right shifts by more than 31, which the control unit
does not recognise, and a JALR to an odd sum. -/
def Conforms (h : Hart) : Instruction → Prop
  | .divide op _ rs1 rs2 => op.divOp.Meets (h.x rs1) (h.x rs2)
  | .shift op _ _ shamt => op = .slli ∨ shamt.toNat ≤ 31
  | .jalr _ rs1 imm => (h.address rs1 imm).toNat % 2 = 0
  | _ => True

theorem integer (i : Instruction) : isIntegerWord i.word = true := by
  cases i with
  | register op rd rs1 rs2 => simp [isIntegerWord, word]
  | divide op rd rs1 rs2 => simp [isIntegerWord, word]
  | immediate op rd rs1 imm => simp [isIntegerWord, word]
  | shift op rd rs1 shamt => simp [isIntegerWord, word, ShiftOp.word]
  | upper op rd imm => cases op <;> simp [isIntegerWord, word, UpperOp.opcode]
  | load op rd rs1 imm => simp [isIntegerWord, word, LoadOp.word, op.funct3_ne]
  | store op rs2 rs1 imm => simp [isIntegerWord, word, StoreOp.word]
  | branch op rs1 rs2 half => cases op <;> simp [isIntegerWord, word, BranchOp.funct3]
  | jal rd half => simp [isIntegerWord, word]
  | jalr rd rs1 imm => simp [isIntegerWord, word]

end Instruction

/-- A hart executes the instruction at its program counter, which conforms. -/
def Hart.Follows (size : Word) (h h' : Hart) : Prop :=
  ∃ i, h.fetch size = some i ∧ i.Conforms h ∧ h.exec i = some h'

namespace Vm

/-- The hart of a machine. -/
def hart (v : Vm) : Hart where
  pc := v.core.programCounter
  x := v.core.registers.readGpr
  memory := v.core.memory
  x_zero := v.core.registers.readGpr_zero

/-- What `n` integer instructions do beside the hart. -/
structure Beside (n : Nat) (c c' : Core) : Prop where
  registers : ∀ key, (∀ r, key ≠ .gpr r) → c'.registers.read key = c.registers.read key
  retired : c'.instructionsRetired = c.instructionsRetired + BitVec.ofNat 32 n
  cycles : c'.cycleS = c.cycleS + BitVec.ofNat 32 n

theorem Beside.refl (c : Core) : Beside 0 c c :=
  ⟨fun _ _ => rfl, (BitVec.add_zero _).symm, (BitVec.add_zero _).symm⟩

theorem Beside.trans {n m : Nat} {c c' c'' : Core} (h : Beside n c c') (h' : Beside m c' c'') :
    Beside (n + m) c c'' := by
  refine ⟨fun key hkey => ?_, ?_, ?_⟩
  · rw [h'.registers key hkey, h.registers key hkey]
  · rw [h'.retired, h.retired, BitVec.ofNat_add, BitVec.add_assoc]
  · rw [h'.cycles, h.cycles, BitVec.ofNat_add, BitVec.add_assoc]

variable {fpu : Fpu} {v v' : Vm} {w : Instr} {rd rs1 rs2 : RegIndex}

theorem hart_set (value : Word) :
    (v.core.registers.writeGpr rd value).readGpr = (v.hart.set rd value).x := by
  funext r
  show _ = if r = rd ∧ r ≠ 0 then value else v.core.registers.readGpr r
  rw [RegisterFile.readGpr_writeGpr]
  by_cases h : rd = r
  · rw [h]
  · rw [if_neg fun hr => h hr.1, if_neg fun hr => h hr.1.symm]

/-- The registers of other kinds after an integer instruction, and the counters. -/
theorem beside_of_integer (hword : v.nextWord = .ok w) (hint : isIntegerWord w = true)
    (hin : v.core.programCounter < v.programSize) (hstep : v.step fpu = .ok v') : Beside 1 v.core v'.core := by
  obtain ⟨changes, hrun⟩ := step_integer hword hint hin hstep
  obtain ⟨result, -, hrun⟩ := Loop.bind_eq_ok hrun
  obtain ⟨loaded, -, hrun⟩ := Loop.bind_eq_ok hrun
  obtain ⟨⟨memory, stored⟩, -, hrun⟩ := Loop.bind_eq_ok hrun
  have harch := congrArg Prod.fst (Except.ok.inj hrun)
  refine ⟨fun key hkey => ?_, (congrArg Arch.instructionsRetired harch).symm,
    (congrArg Arch.cycleS harch).symm⟩
  have hregisters := congrArg Arch.registers harch
  change IntegerCycle.writeRd v.core.registers w _ = v'.core.registers at hregisters
  rw [← hregisters]
  unfold IntegerCycle.writeRd
  split
  · show (v.core.registers.write (.gpr w.rd) _).read key = _
    rw [RegisterFile.read_write, if_neg fun h => hkey w.rd h.1.symm]
  · rfl

/-- A step on a word that goes on behind it. -/
theorem StepsTo.hart {registers : RegisterFile} {memory : Memory} {h : Hart}
    (hsteps : StepsTo fpu v registers memory v') (hx : registers.readGpr = h.x)
    (hmemory : memory = h.memory) (hpc : h.pc = v.core.programCounter) : v'.hart = h.next := by
  apply Hart.ext
  · show v'.core.programCounter = h.pc + 4
    rw [hsteps.programCounter, hpc]
  · show v'.core.registers.readGpr = h.x
    rw [hsteps.registers, hx]
  · exact hsteps.memory.trans hmemory

/-- A step on a branch or a jump. -/
theorem step_control (fpu : Fpu) {result : Word × Bool} (hword : v.nextWord = .ok w)
    (hin : v.core.programCounter < v.programSize) (hint : isIntegerWord w = true)
    (hop : w.opcode = 0b1100011#7 ∨ w.opcode = 0b1101111#7 ∨ w.opcode = 0b1100111#7)
    (halu : Alu.execute (ControlUnit.getAluSignal w) (v.core.registers.readGpr w.rs1)
      (IntegerCycle.operand v.core.registers w) = .ok result) :
    ∃ v', v.step fpu = .ok v' ∧
      v'.core.programCounter = IntegerCycle.nextPc v.core.programCounter w result.1 ∧
      v'.core.registers = IntegerCycle.writeRd v.core.registers w
        (IntegerCycle.value v.core.programCounter w result.1 0) ∧
      v'.core.memory = v.core.memory ∧ v'.programSize = v.programSize := by
  have hload : IntegerCycle.load v.core.memory w result.1 = .ok 0 := by
    rcases hop with h | h | h <;> simp [IntegerCycle.load, h]
  have hstore : IntegerCycle.store v.core.memory v.core.registers w result.1 =
      .ok (v.core.memory, .none) := by
    rcases hop with h | h | h <;> simp [IntegerCycle.store, h]
  obtain ⟨changes, hrun⟩ := IntegerCycle.run_eq (a := v.core.arch) halu hload hstore
  obtain ⟨v', hstep, harch, hsize⟩ := step_of_integer hword hint hin hrun
  exact ⟨v', hstep, congrArg Arch.programCounter harch, congrArg Arch.registers harch,
    congrArg Arch.memory harch, hsize⟩

/-- A step to a machine with the hart `h`. -/
def StepsToHart (fpu : Fpu) (v : Vm) (h : Hart) : Prop :=
  ∃ v', v.step fpu = .ok v' ∧ v'.hart = h ∧ v'.programSize = v.programSize

variable {h' : Hart} {imm : BitVec 12}

theorem StepsTo.hart_set {value : Word}
    (hsteps : StepsTo fpu v (v.core.registers.writeGpr rd value) v.core.memory v') :
    StepsToHart fpu v (v.hart.set rd value).next :=
  ⟨v', hsteps.step, hsteps.hart (Vm.hart_set value) rfl rfl, hsteps.programSize⟩

theorem stepsToHart_register (op : RegisterOp)
    (hword : v.nextWord = .ok (Instruction.register op rd rs1 rs2).word)
    (hin : v.core.programCounter < v.programSize)
    (hexec : v.hart.exec (.register op rd rs1 rs2) = some h') : StepsToHart fpu v h' := by
  obtain rfl := Option.some.inj hexec
  have hsignal : ControlUnit.aluSignalR op.funct3 op.funct7 = op.aluOp := by cases op <;> rfl
  obtain ⟨overflow, halu⟩ := op.execute_eq (v.core.registers.readGpr rs1)
    (v.core.registers.readGpr rs2)
  obtain ⟨v', h⟩ := stepsTo_register fpu hword hin hsignal halu
  exact h.hart_set

theorem stepsToHart_divide (op : QuotientOp)
    (hword : v.nextWord = .ok (Instruction.divide op rd rs1 rs2).word)
    (hin : v.core.programCounter < v.programSize)
    (hconforms : (Instruction.divide op rd rs1 rs2).Conforms v.hart)
    (hexec : v.hart.exec (.divide op rd rs1 rs2) = some h') : StepsToHart fpu v h' := by
  obtain rfl := Option.some.inj hexec
  have hsignal : ControlUnit.aluSignalR op.funct3 0b0000001#7 = op.divOp.aluOp := by
    cases op <;> rfl
  have hvalue : Alu.Conforms op.divOp (v.hart.x rs1) (v.hart.x rs2) := by
    cases op with
    | div => exact Alu.conforms_div.mpr hconforms
    | divu => exact Alu.conforms_divu.mpr hconforms
    | rem => exact Alu.conforms_rem.mpr hconforms
    | remu => exact Alu.conforms_remu.mpr hconforms
  obtain ⟨overflow, halu⟩ := hvalue
  obtain ⟨v', h⟩ := stepsTo_register fpu hword hin hsignal halu
  exact h.hart_set

theorem stepsToHart_immediate (op : ImmediateOp)
    (hword : v.nextWord = .ok (Instruction.immediate op rd rs1 imm).word)
    (hin : v.core.programCounter < v.programSize)
    (hexec : v.hart.exec (.immediate op rd rs1 imm) = some h') : StepsToHart fpu v h' := by
  obtain rfl := Option.some.inj hexec
  have hsignal : ControlUnit.aluSignalI op.funct3 (imm.extractLsb' 5 7) = op.registerOp.aluOp := by
    cases op <;> rfl
  obtain ⟨overflow, halu⟩ := op.registerOp.execute_eq (v.core.registers.readGpr rs1)
    (imm.signExtend 64)
  obtain ⟨v', h⟩ := stepsTo_immediate fpu hword hin hsignal halu
  exact h.hart_set

theorem stepsToHart_shift (op : ShiftOp) {shamt : BitVec 6}
    (hword : v.nextWord = .ok (Instruction.shift op rd rs1 shamt).word)
    (hin : v.core.programCounter < v.programSize)
    (hconforms : (Instruction.shift op rd rs1 shamt).Conforms v.hart)
    (hexec : v.hart.exec (.shift op rd rs1 shamt) = some h') : StepsToHart fpu v h' := by
  obtain rfl := Option.some.inj hexec
  have hsignal : ControlUnit.aluSignalI op.funct3 ((op.funct6 ++ shamt).extractLsb' 5 7) =
      op.aluOp := by
    rcases hconforms with rfl | hshamt
    · rfl
    · exact op.signal_eq hshamt
  have halu := op.execute_eq (v.core.registers.readGpr rs1) shamt
  obtain ⟨v', h⟩ := stepsTo_immediate fpu hword hin hsignal halu
  exact h.hart_set

theorem stepsToHart_upper (op : UpperOp) {upper : BitVec 20}
    (hword : v.nextWord = .ok (Instruction.upper op rd upper).word)
    (hin : v.core.programCounter < v.programSize)
    (hexec : v.hart.exec (.upper op rd upper) = some h') : StepsToHart fpu v h' := by
  obtain rfl := Option.some.inj hexec
  have hvalue : upperWord upper = (BitVec.ofInt 32 (upper.toInt * 2 ^ 12)).signExtend 64 := by
    rw [← upperWord_scaled, BitVec.ofInt_toInt]
  cases op with
  | lui =>
    obtain ⟨v', h⟩ := stepsTo_lui fpu hword hin
    rw [hvalue] at h
    exact h.hart_set
  | auipc =>
    obtain ⟨v', h⟩ := stepsTo_auipc fpu hword hin
    rw [hvalue] at h
    exact h.hart_set

theorem stepsToHart_load (op : LoadOp)
    (hword : v.nextWord = .ok (Instruction.load op rd rs1 imm).word)
    (hin : v.core.programCounter < v.programSize)
    (hexec : v.hart.exec (.load op rd rs1 imm) = some h') : StepsToHart fpu v h' := by
  obtain ⟨hrange, rfl⟩ := Hart.exec_load_eq_some_iff.mp hexec
  obtain ⟨v', h⟩ := stepsTo_load fpu hword hin hrange
  exact h.hart_set

theorem stepsToHart_store (op : StoreOp)
    (hword : v.nextWord = .ok (Instruction.store op rs2 rs1 imm).word)
    (hin : v.core.programCounter < v.programSize)
    (hexec : v.hart.exec (.store op rs2 rs1 imm) = some h') : StepsToHart fpu v h' := by
  obtain ⟨hrange, rfl⟩ := Hart.exec_store_eq_some_iff.mp hexec
  obtain ⟨v', h⟩ := stepsTo_store fpu hword hin hrange
  exact ⟨v', h.step, h.hart rfl rfl rfl, h.programSize⟩

/-- A step on a word that transfers control to `target`. -/
theorem stepsToHart_jump {h : Hart} {target : Word} (hstep : v.step fpu = .ok v')
    (hpc : v'.core.programCounter = target) (hx : v'.core.registers.readGpr = h.x)
    (hmemory : v'.core.memory = h.memory) (hsize : v'.programSize = v.programSize)
    (hjump : h.jump target = some h') : StepsToHart fpu v h' := by
  obtain ⟨-, rfl⟩ := Hart.jump_eq_some_iff.mp hjump
  exact ⟨v', hstep, Hart.ext hpc hx hmemory, hsize⟩

/-- The arithmetic unit compares as the branch asks. -/
theorem branch_compares (op : BranchOp) (x y : Word) : ∃ result,
    Alu.execute (ControlUnit.aluSignalB op.funct3) x y = .ok result ∧
      Core.branchTaken op.funct3 result.1 false = op.taken x y := by
  cases op with
  | beq =>
    refine ⟨_, rfl, ?_⟩
    have hsub : x - y = 0 ↔ x = y := by grind
    show (x - y == 0) = decide (x = y)
    rw [Bool.eq_iff_iff, beq_iff_eq, hsub, decide_eq_true_iff]
  | bne =>
    refine ⟨_, rfl, ?_⟩
    have hsub : x - y ≠ 0 ↔ x ≠ y := by grind
    show (x - y != 0) = decide (x ≠ y)
    rw [Bool.eq_iff_iff, bne_iff_ne, hsub, decide_eq_true_iff]
  | blt =>
    refine ⟨_, rfl, ?_⟩
    by_cases h : x.toInt < y.toInt <;>
      simp [Core.branchTaken, BranchOp.funct3, BranchOp.taken, Alu.ofBool, BitVec.slt, h]
  | bge =>
    refine ⟨_, rfl, ?_⟩
    have hle : y.toInt ≤ x.toInt ↔ ¬ x.toInt < y.toInt := Int.not_lt.symm
    by_cases h : x.toInt < y.toInt <;>
      simp [Core.branchTaken, BranchOp.funct3, BranchOp.taken, Alu.ofBool, BitVec.slt, hle, h]
  | bltu =>
    refine ⟨_, rfl, ?_⟩
    by_cases h : x.toNat < y.toNat <;>
      simp [Core.branchTaken, BranchOp.funct3, BranchOp.taken, Alu.ofBool, BitVec.ult, h]
  | bgeu =>
    refine ⟨_, rfl, ?_⟩
    have hle : y.toNat ≤ x.toNat ↔ ¬ x.toNat < y.toNat := Nat.not_lt.symm
    by_cases h : x.toNat < y.toNat <;>
      simp [Core.branchTaken, BranchOp.funct3, BranchOp.taken, Alu.ofBool, BitVec.ult, hle, h]

theorem stepsToHart_branch (op : BranchOp) {half : BitVec 12}
    (hword : v.nextWord = .ok (Instruction.branch op rs1 rs2 half).word)
    (hin : v.core.programCounter < v.programSize)
    (hexec : v.hart.exec (.branch op rs1 rs2 half) = some h') : StepsToHart fpu v h' := by
  generalize hw : (Instruction.branch op rs1 rs2 half).word = w at hword
  have hopcode : w.opcode = 0b1100011#7 := by rw [← hw, Instruction.word, Instr.bType_opcode]
  have hfunct3 : w.funct3 = op.funct3 := by rw [← hw, Instruction.word, Instr.bType_funct3]
  have hrs1 : w.rs1 = rs1 := by rw [← hw, Instruction.word, Instr.bType_rs1]
  have hrs2 : w.rs2 = rs2 := by rw [← hw, Instruction.word, Instr.bType_rs2]
  have himm : (immGenerator w).signExtend 64 = (half ++ 0#1).signExtend 64 := by
    rw [← hw, Instruction.word, immGenerator_bType, signExtend_signExtend _ (by decide)]
  have hint : isIntegerWord w = true := hw ▸ Instruction.integer _
  have hoperand : IntegerCycle.operand v.core.registers w = v.core.registers.readGpr rs2 := by
    simp [IntegerCycle.operand, ControlUnit.setControlSignals, ControlUnit.reset, hopcode, hrs2]
  have hsignal : ControlUnit.getAluSignal w = ControlUnit.aluSignalB op.funct3 := by
    simp only [ControlUnit.getAluSignal, hopcode, hfunct3]
  obtain ⟨result, halu, htaken⟩ := branch_compares op (v.core.registers.readGpr rs1)
    (v.core.registers.readGpr rs2)
  obtain ⟨v', hstep, hpc, hregisters, hmemory, hsize⟩ := step_control fpu hword hin hint
    (.inl hopcode) (by rw [hsignal, hoperand, hrs1]; exact halu)
  have hvalue : IntegerCycle.value v.core.programCounter w result.1 0 = none := by
    simp [IntegerCycle.value, hopcode]
  rw [hvalue, IntegerCycle.writeRd] at hregisters
  simp only [IntegerCycle.nextPc, hopcode, hfunct3, htaken, himm] at hpc
  have hx : v'.core.registers.readGpr = v.hart.x := congrArg RegisterFile.readGpr hregisters
  change (if op.taken (v.core.registers.readGpr rs1) (v.core.registers.readGpr rs2) then _ else _) =
    some h' at hexec
  by_cases h : op.taken (v.core.registers.readGpr rs1) (v.core.registers.readGpr rs2) = true
  · rw [if_pos h] at hexec hpc
    exact stepsToHart_jump hstep hpc hx hmemory hsize hexec
  · rw [if_neg h] at hexec hpc
    obtain rfl := Option.some.inj hexec
    exact ⟨v', hstep, Hart.ext hpc hx hmemory, hsize⟩

theorem stepsToHart_jal {half : BitVec 20}
    (hword : v.nextWord = .ok (Instruction.jal rd half).word)
    (hin : v.core.programCounter < v.programSize)
    (hexec : v.hart.exec (.jal rd half) = some h') : StepsToHart fpu v h' := by
  generalize hw : (Instruction.jal rd half).word = w at hword
  have hopcode : w.opcode = 0b1101111#7 := by rw [← hw, Instruction.word, Instr.jType_opcode]
  have hrd : w.rd = rd := by rw [← hw, Instruction.word, Instr.jType_rd]
  have himm : (immGenerator w).signExtend 64 = (half ++ 0#1).signExtend 64 := by
    rw [← hw, Instruction.word, immGenerator_jType, signExtend_signExtend _ (by decide)]
  have hint : isIntegerWord w = true := hw ▸ Instruction.integer _
  have hsignal : ControlUnit.getAluSignal w = .kAdd := by
    simp only [ControlUnit.getAluSignal, hopcode]
  obtain ⟨v', hstep, hpc, hregisters, hmemory, hsize⟩ := step_control fpu hword hin hint
    (.inr (.inl hopcode)) (by rw [hsignal]; rfl)
  simp only [IntegerCycle.value, hopcode, IntegerCycle.writeRd, hrd] at hregisters
  simp only [IntegerCycle.nextPc, hopcode, himm] at hpc
  refine stepsToHart_jump hstep hpc ?_ hmemory hsize hexec
  rw [hregisters]
  exact hart_set _

theorem and_not_one {x : Word} (h : x.toNat % 2 = 0) : x &&& ~~~1 = x := by
  refine BitVec.eq_of_getLsbD_eq fun i hi => ?_
  rw [BitVec.getLsbD_and, BitVec.getLsbD_not, decide_eq_true hi, Bool.true_and]
  cases i with
  | zero =>
    have hlow : x.getLsbD 0 = false := by simp [BitVec.getLsbD, Nat.testBit_zero, h]
    rw [hlow, Bool.false_and]
  | succ i =>
    have hone : (1 : Word).getLsbD (i + 1) = false := by simp [BitVec.getLsbD, Nat.testBit_succ]
    rw [hone, Bool.not_false, Bool.and_true]

theorem stepsToHart_jalr (hword : v.nextWord = .ok (Instruction.jalr rd rs1 imm).word)
    (hin : v.core.programCounter < v.programSize)
    (hconforms : (Instruction.jalr rd rs1 imm).Conforms v.hart)
    (hexec : v.hart.exec (.jalr rd rs1 imm) = some h') : StepsToHart fpu v h' := by
  generalize hw : (Instruction.jalr rd rs1 imm).word = w at hword
  have hopcode : w.opcode = 0b1100111#7 := by rw [← hw, Instruction.word, Instr.iType_opcode]
  have hrd : w.rd = rd := by rw [← hw, Instruction.word, Instr.iType_rd]
  have hrs1 : w.rs1 = rs1 := by rw [← hw, Instruction.word, Instr.iType_rs1]
  have hoperand : IntegerCycle.operand v.core.registers w = imm.signExtend 64 := by
    rw [← hw]
    exact operand_iType (.inr (.inr rfl)) v.core.registers imm
  have hint : isIntegerWord w = true := hw ▸ Instruction.integer _
  have hsignal : ControlUnit.getAluSignal w = .kAdd := by
    simp only [ControlUnit.getAluSignal, hopcode]
  obtain ⟨v', hstep, hpc, hregisters, hmemory, hsize⟩ := step_control fpu hword hin hint
    (.inr (.inr hopcode)) (by rw [hsignal, hoperand, hrs1]; rfl)
  simp only [IntegerCycle.value, hopcode, IntegerCycle.writeRd, hrd] at hregisters
  simp only [IntegerCycle.nextPc, hopcode] at hpc
  refine stepsToHart_jump hstep (hpc.trans (and_not_one hconforms).symm) ?_ hmemory hsize hexec
  rw [hregisters]
  exact hart_set _

theorem nextWord_of_fetch {i : Instruction} (hfetch : v.hart.fetch v.programSize = some i) :
    v.nextWord = .ok i.word ∧ v.core.programCounter < v.programSize := by
  obtain ⟨hin, hrange, hload⟩ := Hart.fetch_eq_some_iff.mp hfetch
  exact ⟨Memory.readWord_eq_ok_iff.mpr ⟨hrange, hload.symm⟩, hin⟩

variable (fpu)

/-- The machine takes the step of the hart. -/
theorem stepsToHart {i : Instruction} (hfetch : v.hart.fetch v.programSize = some i)
    (hconforms : i.Conforms v.hart) (hexec : v.hart.exec i = some h') : StepsToHart fpu v h' := by
  obtain ⟨hword, hin⟩ := nextWord_of_fetch hfetch
  cases i with
  | register op rd rs1 rs2 => exact stepsToHart_register op hword hin hexec
  | divide op rd rs1 rs2 => exact stepsToHart_divide op hword hin hconforms hexec
  | immediate op rd rs1 imm => exact stepsToHart_immediate op hword hin hexec
  | shift op rd rs1 shamt => exact stepsToHart_shift op hword hin hconforms hexec
  | upper op rd imm => exact stepsToHart_upper op hword hin hexec
  | load op rd rs1 imm => exact stepsToHart_load op hword hin hexec
  | store op rs2 rs1 imm => exact stepsToHart_store op hword hin hexec
  | branch op rs1 rs2 half => exact stepsToHart_branch op hword hin hexec
  | jal rd half => exact stepsToHart_jal hword hin hexec
  | jalr rd rs1 imm => exact stepsToHart_jalr hword hin hconforms hexec

/-- A step of the machine, and what it does beside the hart. -/
def HartStep (v v' : Vm) : Prop := v.step fpu = .ok v' ∧ Beside 1 v.core v'.core

theorem simulates_hart (size : Word) :
    Simulates (fun h v => v.hart = h ∧ v.programSize = size) (Hart.Follows size) (HartStep fpu) := by
  rintro h v h' ⟨rfl, rfl⟩ ⟨i, hfetch, hconforms, hexec⟩
  obtain ⟨hword, hin⟩ := nextWord_of_fetch hfetch
  obtain ⟨v', hstep, hhart, hsize⟩ := stepsToHart fpu hfetch hconforms hexec
  exact ⟨v', ⟨hstep, beside_of_integer hword i.integer hin hstep⟩, hhart, hsize⟩

theorem iter_of_runs {n : Nat} (h : Runs (HartStep fpu) n v v') :
    Loop.iter (step fpu) n v = .ok v' ∧ Beside n v.core v'.core := by
  induction h with
  | refl v => exact ⟨rfl, .refl v.core⟩
  | head hstep _ ih =>
    refine ⟨?_, Nat.add_comm _ _ ▸ hstep.2.trans ih.2⟩
    rw [Loop.iter_succ, hstep.1, Loop.bind_ok, ih.1]

theorem iter_of_hart {n : Nat} (hrun : Runs (Hart.Follows v.programSize) n v.hart h') :
    ∃ v', Loop.iter (step fpu) n v = .ok v' ∧ v'.hart = h' ∧ v'.programSize = v.programSize ∧
      Beside n v.core v'.core := by
  obtain ⟨v', hruns, hhart, hsize⟩ := (simulates_hart fpu v.programSize).runs ⟨rfl, rfl⟩ hrun
  obtain ⟨hiter, hbeside⟩ := iter_of_runs fpu hruns
  exact ⟨v', hiter, hhart, hsize, hbeside⟩

section

variable {limit : Word} {n : Nat}

/-- A run of the hart that leaves the program, as steps of the machine. -/
theorem stepsToEnd_of_hart (hrun : Runs (Hart.Follows v.programSize) n v.hart h')
    (hend : ¬ h'.pc < v.programSize) :
    ∃ w, StepsToEnd fpu v n w ∧ w.hart = h' ∧ Beside n v.core w.core := by
  obtain ⟨w, hiter, rfl, hsize, hbeside⟩ := iter_of_hart fpu hrun
  refine ⟨w, ⟨hiter, fun k hk => ?_, hsize ▸ hend⟩, rfl, hbeside⟩
  obtain ⟨t, t', hrun', i, hfetch, -⟩ := hrun.stop hk
  obtain ⟨u, hu, rfl, hsizeu, -⟩ := iter_of_hart fpu hrun'
  exact ⟨u, hu, hsizeu ▸ (Hart.fetch_eq_some_iff.mp hfetch).1⟩

theorem not_lastIsCustom (hrun : Runs (Hart.Follows v.programSize) n v.hart h') :
    ¬ LastIsCustom fpu v n := by
  rintro ⟨k, u, rfl, hu, x, hx, hop⟩
  obtain ⟨t, t', hrun', i, hfetch, -⟩ := hrun.stop (Nat.lt_succ_self k)
  obtain ⟨u', hu', rfl, hsize, -⟩ := iter_of_hart fpu hrun'
  obtain rfl := Except.ok.inj (hu.symm.trans hu')
  obtain ⟨hword, -⟩ := nextWord_of_fetch (hsize ▸ hfetch)
  obtain rfl := Except.ok.inj (hx.symm.trans hword)
  have hint := i.integer
  rcases hop with hop | hop <;> simp [isIntegerWord, hop] at hint

/-- The command `run` ends where the steps leave the program, unless a custom instruction is the
last. -/
theorem run_of_stepsToEnd {w : Vm} (hidle : v.core.bigmul.Idle) (hsteps : StepsToEnd fpu v n w)
    (hlast : ¬ LastIsCustom fpu v n) (hlimit : n < limit.toNat) :
    ∃ turns u, v.run fpu limit turns = .ok (.done (u, BitVec.ofNat 64 n)) ∧ u.core = w.core := by
  rcases run_to_end hidle hlimit hsteps with
    ⟨rfl, rfl, hrun⟩ | ⟨k, u, u₁, turns, v₁, changes, rfl, hu, -, hcycle, hstep, hrun, hcore, -⟩
  · exact ⟨1, w, hrun, rfl⟩
  · obtain ⟨x, -, -, -, -, -, hx, -⟩ := fetchCycle_stages hcycle
    have hother : u₁.core.busy = false := by
      refine fetchCycle_other hx (fun hop => ?_) (fun hop => ?_) hcycle
      · exact hlast ⟨k, u, rfl, hu, x, hx, .inl hop⟩
      · exact hlast ⟨k, u, rfl, hu, x, hx, .inr hop⟩
    obtain ⟨y, hdrain, rfl⟩ := hstep
    rw [drains_of_not_busy hother] at hdrain
    obtain rfl := Except.ok.inj hdrain
    exact ⟨turns, v₁, by rw [hrun, BitVec.ofNat_add]; rfl, hcore⟩

theorem hart_congr {w : Vm} (h : v.core = w.core) : v.hart = w.hart := by
  apply Hart.ext
  · exact congrArg Core.programCounter h
  · exact congrArg (fun c => RegisterFile.readGpr c.registers) h
  · exact congrArg Core.memory h

/-- The command `run` ends where the run of the hart leaves the program. -/
theorem run_of_hart (hidle : v.core.bigmul.Idle)
    (hrun : Runs (Hart.Follows v.programSize) n v.hart h') (hend : ¬ h'.pc < v.programSize)
    (hlimit : n < limit.toNat) :
    ∃ turns u, v.run fpu limit turns = .ok (.done (u, BitVec.ofNat 64 n)) ∧ u.hart = h' ∧
      Beside n v.core u.core := by
  obtain ⟨w, hsteps, rfl, hbeside⟩ := stepsToEnd_of_hart fpu hrun hend
  obtain ⟨turns, u, hu, hcore⟩ := run_of_stepsToEnd fpu hidle hsteps (not_lastIsCustom fpu hrun) hlimit
  exact ⟨turns, u, hu, hart_congr hcore, by rw [hcore]; exact hbeside⟩

/-- Repeated steps and the command `run` follow the run of a hart. -/
theorem follows_hart (hrun : Runs (Hart.Follows v.programSize) n v.hart h') :
    (∃ v', Loop.iter (step fpu) n v = .ok v' ∧ v'.hart = h' ∧ v'.programSize = v.programSize ∧
      Beside n v.core v'.core) ∧
    (v.core.bigmul.Idle → ¬ h'.pc < v.programSize → n < limit.toNat → ∃ turns u,
      v.run fpu limit turns = .ok (.done (u, BitVec.ofNat 64 n)) ∧ u.hart = h' ∧
        Beside n v.core u.core) :=
  ⟨iter_of_hart fpu hrun, fun hidle hend hlimit => run_of_hart fpu hidle hrun hend hlimit⟩

/-- `addi x1, x1, 1` and a branch back to it that is not taken. -/
def countingProgram : List Instr :=
  [(Instruction.immediate .addi 1 1 1).word, (Instruction.branch .beq 1 0 (-2)).word]

theorem follows_hart_counting : ∃ turns u,
    (holding countingProgram .reset).run .zero 100 turns = .ok (.done (u, 2)) ∧ u.hart.pc = 8 ∧
      u.hart.x 1 = 1 := by
  have hrun : Runs (Hart.Follows (holding countingProgram .reset).programSize) 2
      (holding countingProgram .reset).hart _ :=
    .head ⟨.immediate .addi 1 1 1, by decide, trivial, rfl⟩
      (.head ⟨.branch .beq 1 0 (-2), by decide, trivial, rfl⟩ (.refl _))
  obtain ⟨-, hend⟩ := follows_hart .zero hrun
  obtain ⟨turns, u, hu, hhart, -⟩ := hend ⟨rfl, rfl⟩ (by decide)
    (show 2 < (100 : Word).toNat by decide)
  exact ⟨turns, u, hu, by rw [hhart]; decide, by rw [hhart]; decide⟩

end

end Vm

end RiscvSim
