import RiscvSim.Formats
import RiscvSim.UndoExact

/-! Steps on the words of the instruction formats. -/

namespace RiscvSim

theorem signExtend_signExtend {n : Nat} (x : BitVec n) (hn : n ≤ 32) :
    (x.signExtend 32).signExtend 64 = x.signExtend 64 := by
  apply BitVec.eq_of_toInt_eq
  rw [BitVec.toInt_signExtend_of_le (by decide), BitVec.toInt_signExtend_of_le hn,
    BitVec.toInt_signExtend_of_le (by omega)]

namespace IntegerCycle

variable {a : Arch} {w : Instr} {result : Word × Bool}

/-- The words that only compute: no load or store, no branch and no jump. -/
def Computes (w : Instr) : Prop :=
  w.opcode = 0b0110011#7 ∨ w.opcode = 0b0010011#7 ∨ w.opcode = 0b0110111#7 ∨
    w.opcode = 0b0010111#7

theorem Computes.integer (h : Computes w) : isIntegerWord w = true := by
  rcases h with h | h | h | h <;> simp [isIntegerWord, h]

theorem run_eq {loaded : Word} {memory : Memory} {stored : Changes}
    (halu : Alu.execute (ControlUnit.getAluSignal w) (a.registers.readGpr w.rs1)
      (operand a.registers w) = .ok result)
    (hload : load a.memory w result.1 = .ok loaded)
    (hstore : store a.memory a.registers w result.1 = .ok (memory, stored)) :
    ∃ changes, run a w = .ok (⟨nextPc a.programCounter w result.1,
      writeRd a.registers w (value a.programCounter w result.1 loaded), memory,
      a.instructionsRetired + 1, a.cycleS + 1⟩, changes) := by
  rw [run, halu, Loop.bind_ok, hload, Loop.bind_ok, hstore, Loop.bind_ok]
  exact ⟨_, rfl⟩

theorem run_computes (hop : Computes w)
    (halu : Alu.execute (ControlUnit.getAluSignal w) (a.registers.readGpr w.rs1)
      (operand a.registers w) = .ok result) :
    ∃ changes, run a w = .ok (⟨a.programCounter + 4,
      writeRd a.registers w (value a.programCounter w result.1 0), a.memory,
      a.instructionsRetired + 1, a.cycleS + 1⟩, changes) := by
  have hload : load a.memory w result.1 = .ok 0 := by
    rcases hop with h | h | h | h <;> simp [load, h]
  have hstore : store a.memory a.registers w result.1 = .ok (a.memory, .none) := by
    rcases hop with h | h | h | h <;> simp [store, h]
  have hnext : nextPc a.programCounter w result.1 = a.programCounter + 4 := by
    rcases hop with h | h | h | h <;> simp [nextPc, h]
  rw [← hnext]
  exact run_eq halu hload hstore

end IntegerCycle

namespace Vm

variable (fpu : Fpu) {v : Vm} {w : Instr}

/-- The registers and the memory after a step on the word at the program counter. -/
structure StepsTo (fpu : Fpu) (v : Vm) (registers : RegisterFile) (memory : Memory) (v' : Vm) :
    Prop where
  step : v.step fpu = .ok v'
  registers : v'.core.registers = registers
  memory : v'.core.memory = memory
  programCounter : v'.core.programCounter = v.core.programCounter + 4
  programSize : v'.programSize = v.programSize

theorem stepsTo_of_run {pc : Word} {registers : RegisterFile} {memory : Memory}
    {retired cycles : BitVec 32} {changes : Changes} (hword : v.nextWord = .ok w)
    (hint : isIntegerWord w = true) (hin : v.core.programCounter < v.programSize)
    (hrun : IntegerCycle.run v.core.arch w = .ok (⟨pc, registers, memory, retired, cycles⟩, changes))
    (hpc : pc = v.core.programCounter + 4) : ∃ v', StepsTo fpu v registers memory v' := by
  obtain ⟨v', hstep, harch, hsize⟩ : ∃ v', v.step fpu = .ok v' ∧ _ :=
    step_of_integer hword hint hin hrun
  exact ⟨v', hstep, congrArg Arch.registers harch, congrArg Arch.memory harch,
    (congrArg Arch.programCounter harch).trans hpc, hsize⟩

theorem stepsTo_computes {result : Word × Bool} (hword : v.nextWord = .ok w)
    (hop : IntegerCycle.Computes w) (hin : v.core.programCounter < v.programSize)
    (halu : Alu.execute (ControlUnit.getAluSignal w) (v.core.registers.readGpr w.rs1)
      (IntegerCycle.operand v.core.registers w) = .ok result) :
    ∃ v', StepsTo fpu v (IntegerCycle.writeRd v.core.registers w
      (IntegerCycle.value v.core.programCounter w result.1 0)) v.core.memory v' := by
  obtain ⟨changes, hrun⟩ := IntegerCycle.run_computes (a := v.core.arch) hop halu
  exact stepsTo_of_run fpu hword hop.integer hin hrun rfl

variable {rd rs1 rs2 : RegIndex} {funct3 : BitVec 3}

/-- The second operand of the arithmetic unit on an immediate. -/
theorem operand_iType {op : BitVec 7} (hop : op = 0b0010011#7 ∨ op = 0b0000011#7 ∨
    op = 0b1100111#7) (r : RegisterFile) (imm : BitVec 12) :
    IntegerCycle.operand r (Instr.iType imm rs1 funct3 rd op) = imm.signExtend 64 := by
  have hsrc : (ControlUnit.setControlSignals (Instr.iType imm rs1 funct3 rd op)).aluSrc = true := by
    rcases hop with rfl | rfl | rfl <;> simp [ControlUnit.setControlSignals]
  have hgroup : op = 0b0010011#7 ∨ op = 0b0000011#7 ∨ op = 0b1100111#7 ∨ op = 0b0000111#7 := by
    tauto
  rw [IntegerCycle.operand, if_pos hsrc, immGenerator_iType hgroup,
    signExtend_signExtend _ (by decide)]

theorem operand_sType (r : RegisterFile) (imm : BitVec 12) :
    IntegerCycle.operand r (Instr.sType imm rs2 rs1 funct3 0b0100011#7) = imm.signExtend 64 := by
  have hsrc : (ControlUnit.setControlSignals
      (Instr.sType imm rs2 rs1 funct3 0b0100011#7)).aluSrc = true := by
    simp [ControlUnit.setControlSignals]
  rw [IntegerCycle.operand, if_pos hsrc, immGenerator_sType (.inl rfl),
    signExtend_signExtend _ (by decide)]

/-- An operation on a register and an immediate. -/
theorem stepsTo_immediate {imm : BitVec 12} {op : AluOp} {result : Word × Bool}
    (hword : v.nextWord = .ok (Instr.iType imm rs1 funct3 rd 0b0010011#7))
    (hin : v.core.programCounter < v.programSize)
    (hsignal : ControlUnit.aluSignalI funct3 (imm.extractLsb' 5 7) = op)
    (halu : Alu.execute op (v.core.registers.readGpr rs1) (imm.signExtend 64) = .ok result) :
    ∃ v', StepsTo fpu v (v.core.registers.writeGpr rd result.1) v.core.memory v' := by
  have hop : IntegerCycle.Computes (Instr.iType imm rs1 funct3 rd 0b0010011#7) := by
    simp [IntegerCycle.Computes]
  have hget : ControlUnit.getAluSignal (Instr.iType imm rs1 funct3 rd 0b0010011#7) = op := by
    simp only [ControlUnit.getAluSignal, Instr.iType_opcode, Instr.iType_funct3, Instr.iType_funct7,
      hsignal]
  have hvalue : IntegerCycle.value v.core.programCounter (Instr.iType imm rs1 funct3 rd 0b0010011#7)
      result.1 0 = some result.1 := by
    simp only [IntegerCycle.value, Instr.iType_opcode]
  have h := stepsTo_computes fpu hword hop hin (by
    rw [hget, Instr.iType_rs1, operand_iType (.inl rfl)]
    exact halu)
  rw [hvalue] at h
  simpa only [IntegerCycle.writeRd, Instr.iType_rd] using h

theorem stepsTo_addi {imm : BitVec 12}
    (hword : v.nextWord = .ok (Instr.iType imm rs1 0b000#3 rd 0b0010011#7))
    (hin : v.core.programCounter < v.programSize) :
    ∃ v', StepsTo fpu v (v.core.registers.writeGpr rd
      (v.core.registers.readGpr rs1 + imm.signExtend 64)) v.core.memory v' :=
  stepsTo_immediate fpu hword hin rfl rfl

/-- The upper part of an immediate, above twelve zero bits. -/
def upperWord (upper : BitVec 20) : Word := (upper.setWidth 32 <<< 12).signExtend 64

theorem stepsTo_lui {upper : BitVec 20}
    (hword : v.nextWord = .ok (Instr.uType upper rd 0b0110111#7))
    (hin : v.core.programCounter < v.programSize) :
    ∃ v', StepsTo fpu v (v.core.registers.writeGpr rd (upperWord upper)) v.core.memory v' := by
  have hget : ControlUnit.getAluSignal (Instr.uType upper rd 0b0110111#7) = .kAdd := by
    simp only [ControlUnit.getAluSignal, Instr.uType_opcode]
  have hvalue (result : Word) : IntegerCycle.value v.core.programCounter
      (Instr.uType upper rd 0b0110111#7) result 0 = some (upperWord upper) := by
    simp only [IntegerCycle.value, Instr.uType_opcode, immGenerator_uType (.inl rfl), upperWord]
  have h := stepsTo_computes fpu hword (by simp [IntegerCycle.Computes]) hin (by
    rw [hget]
    rfl)
  rw [hvalue] at h
  simpa only [IntegerCycle.writeRd, Instr.uType_rd] using h

theorem stepsTo_auipc {upper : BitVec 20}
    (hword : v.nextWord = .ok (Instr.uType upper rd 0b0010111#7))
    (hin : v.core.programCounter < v.programSize) :
    ∃ v', StepsTo fpu v (v.core.registers.writeGpr rd (v.core.programCounter + upperWord upper))
      v.core.memory v' := by
  have hget : ControlUnit.getAluSignal (Instr.uType upper rd 0b0010111#7) = .kAdd := by
    simp only [ControlUnit.getAluSignal, Instr.uType_opcode]
  have hvalue (result : Word) : IntegerCycle.value v.core.programCounter
      (Instr.uType upper rd 0b0010111#7) result 0 =
        some (v.core.programCounter + upperWord upper) := by
    simp only [IntegerCycle.value, Instr.uType_opcode, immGenerator_uType (.inr rfl), upperWord]
  have h := stepsTo_computes fpu hword (by simp [IntegerCycle.Computes]) hin (by
    rw [hget]
    rfl)
  rw [hvalue] at h
  simpa only [IntegerCycle.writeRd, Instr.uType_rd] using h

/-- The words lie one after the other from `pc` on, inside the program. -/
def Placed (v : Vm) (pc : Word) : List Instr → Prop
  | [] => True
  | w :: ws => v.core.memory.readWord pc = .ok w ∧ pc < v.programSize ∧ Placed v (pc + 4) ws

theorem Placed.congr {v v' : Vm} {pc : Word} {ws : List Instr}
    (hmemory : v'.core.memory = v.core.memory) (hsize : v'.programSize = v.programSize)
    (h : v.Placed pc ws) : v'.Placed pc ws := by
  induction ws generalizing pc with
  | nil => trivial
  | cons w ws ih =>
    obtain ⟨hw, hpc, hws⟩ := h
    exact ⟨by rw [hmemory, hw], by rw [hsize]; exact hpc, ih hws⟩

/-- After a step that leaves the memory alone the remaining words are next. -/
theorem Placed.next {fpu : Fpu} {v v' : Vm} {registers : RegisterFile} {ws : List Instr}
    (h : v.Placed v.core.programCounter (w :: ws))
    (hstep : StepsTo fpu v registers v.core.memory v') : v'.Placed v'.core.programCounter ws := by
  rw [hstep.programCounter]
  exact Placed.congr hstep.memory hstep.programSize h.2.2

/-- A machine with the given words of program and the given registers. -/
def holding (ws : List Instr) (registers : RegisterFile) : Vm :=
  { initial 0x1000 with
    programSize := BitVec.ofNat 64 (4 * ws.length)
    core := { Core.initial 0x1000 with
      memory := ⟨0x1000, fun a => (ws.getD (a.toNat / 4) 0 >>> (8 * (a.toNat % 4))).setWidth 8⟩
      registers := registers } }

@[simp] theorem holding_registers (ws : List Instr) (registers : RegisterFile) :
    (holding ws registers).core.registers = registers := rfl

theorem placed_drop {ws us : List Instr} {registers : RegisterFile} (hlen : ws.length ≤ 0x400)
    (i : Nat) (hus : ws.drop i = us) :
    (holding ws registers).Placed (BitVec.ofNat 64 (4 * i)) us := by
  induction us generalizing i with
  | nil => trivial
  | cons u us ih =>
    have hi : i < ws.length := by
      by_contra hge
      rw [List.drop_of_length_le (by omega)] at hus
      cases hus
    have hget : ws.getD i 0 = u := by
      have h := congrArg (fun l : List Instr => l.getD 0 0) hus
      simpa [List.getD, List.getElem?_drop] using h
    have hpc : (BitVec.ofNat 64 (4 * i)).toNat = 4 * i := by
      rw [BitVec.toNat_ofNat, Nat.mod_eq_of_lt (by omega)]
    refine ⟨Memory.readWord_eq_ok_iff.mpr ⟨?_, Memory.load_eq (n := 4) fun j hj => ?_⟩, ?_, ?_⟩
    · show (BitVec.ofNat 64 (4 * i)).toNat + 4 ≤ 0x1000
      omega
    · have hbyte : (BitVec.ofNat 64 (4 * i) + BitVec.ofNat 64 j).toNat = 4 * i + j := by
        rw [← BitVec.ofNat_add, BitVec.toNat_ofNat, Nat.mod_eq_of_lt (by omega)]
      show (ws.getD (_ / 4) 0 >>> (8 * (_ % 4))).setWidth 8 = _
      rw [hbyte, show (4 * i + j) / 4 = i by omega, show (4 * i + j) % 4 = j by omega, hget]
    · show BitVec.ofNat 64 (4 * i) < BitVec.ofNat 64 (4 * ws.length)
      rw [BitVec.lt_def, hpc, BitVec.toNat_ofNat, Nat.mod_eq_of_lt (by omega)]
      omega
    · have hnext : BitVec.ofNat 64 (4 * i) + 4 = BitVec.ofNat 64 (4 * (i + 1)) := by
        rw [Nat.mul_add, BitVec.ofNat_add]
        rfl
      rw [hnext]
      apply ih
      rw [← List.drop_drop, hus]
      rfl

theorem holding_placed (ws : List Instr) (registers : RegisterFile) (hlen : ws.length ≤ 0x400) :
    (holding ws registers).Placed (holding ws registers).core.programCounter ws :=
  placed_drop hlen 0 rfl

theorem holding_nextWord (w : Instr) (registers : RegisterFile) :
    (holding [w] registers).nextWord = .ok w :=
  (holding_placed [w] registers (by simp)).1

theorem holding_inside (w : Instr) (registers : RegisterFile) :
    (holding [w] registers).core.programCounter < (holding [w] registers).programSize :=
  (holding_placed [w] registers (by simp)).2.1

end Vm

end RiscvSim
