import RiscvSim.BigmulUnit
import RiscvSim.ControlUnit
import RiscvSim.Memory
import RiscvSim.Registers

/-! The stages of one instruction. A stage returns the new state and the register
and memory changes it records for undo. -/

namespace RiscvSim

/-- The state of the machine apart from its undo history. -/
structure Core where
  programCounter : Word
  currentInstruction : Instr
  instructionsRetired : BitVec 32
  cycleS : BitVec 32
  registers : RegisterFile
  memory : Memory
  controlUnit : ControlUnit
  bigmul : BigmulUnit
  executionResult : Word
  memoryResult : Word
  returnAddress : Word
  branchFlag : Bool
  nextPc : Word
  csrTargetAddress : CsrIndex
  csrOldValue : Word
  csrWriteVal : Word
  csrUimm : RegIndex
  hostRound : HostRound
  inputQueue : List (List Byte)

structure RegisterChange where
  key : RegisterKey
  oldValue : Word
  newValue : Word
  deriving DecidableEq, Repr

structure MemoryChange where
  address : Word
  oldBytes : List Byte
  newBytes : List Byte
  deriving DecidableEq, Repr

/-- What a stage appends to the current delta. -/
structure Changes where
  registerChanges : List RegisterChange
  memoryChanges : List MemoryChange
  deriving DecidableEq, Repr

namespace Changes

def none : Changes := ⟨[], []⟩

def append (a b : Changes) : Changes :=
  ⟨a.registerChanges ++ b.registerChanges, a.memoryChanges ++ b.memoryChanges⟩

instance : Append Changes := ⟨append⟩

/-- A register write is recorded when it changed the value. -/
def ofRegister (key : RegisterKey) (oldValue newValue : Word) : Changes :=
  if oldValue ≠ newValue then ⟨[⟨key, oldValue, newValue⟩], []⟩ else none

/-- A memory write is recorded when it changed some byte. -/
def ofMemory (address : Word) (oldBytes newBytes : List Byte) : Changes :=
  if oldBytes ≠ newBytes then ⟨[], [⟨address, oldBytes, newBytes⟩]⟩ else none

end Changes

namespace Core

def updateProgramCounter (c : Core) (value : Word) : Core :=
  { c with programCounter := c.programCounter + value }

def fetch (c : Core) : Except Fault Core := do
  let w ← c.memory.readWord c.programCounter
  return { c with currentInstruction := w }.updateProgramCounter 4

/-- The operand size that a BIGMUL takes from a register, if it is usable. -/
def chooseSize (old : OperandSize) (value : Word) : OperandSize :=
  if h : value ≠ 0 ∧ value < 512 then
    ⟨value, by have h0 := h.1; contrapose! h0; exact BitVec.eq_of_toNat_eq (by simpa using h0),
      by simpa [BitVec.lt_def] using h.2⟩
  else old

/-- `Decode` masks the register numbers of LDBM and BIGMUL with seven bits. -/
def decode (c : Core) : Except Fault Core := do
  let w := c.currentInstruction
  let c := { c with controlUnit := .setControlSignals w }
  let rs1 := (Instr.field w 15 7).toNat
  let rs2 := (Instr.field w 20 7).toNat
  if w.opcode = 0b0101010#7 ∧ c.controlUnit.ldbmStart ∧ c.bigmul.ldbmDone then
    let baseAddrA ← c.registers.readGprChecked rs1
    let baseAddrB ← c.registers.readGprChecked rs2
    return { c with bigmul := { c.bigmul with
      baseAddrA, baseAddrB, ldbmOffset := 0, ldbmDone := false } }
  else if w.opcode = 0b0111111#7 ∧ c.controlUnit.bigmulStart ∧ c.bigmul.bigmulDone then
    let size ← c.registers.readGprChecked rs2
    let baseAddrRes ← c.registers.readGprChecked rs1
    return { c with bigmul := { c.bigmul with
      sizeOfOperand := chooseSize c.bigmul.sizeOfOperand size
      baseAddrRes
      bigmulProg := 0
      bigmulDone := false
      writeOffset := 0
      writeDone := true } }
  else return c

/-- Read bytes up to a NUL; `fuel` covers the rest of the memory. -/
def printString (m : Memory) (address : Word) : Nat → Except Fault Unit
  | 0 => .error .memoryOutOfRange
  | fuel + 1 => do
    let b ← m.readByte address
    if b = 0 then return () else printString m (address + 1) fuel

/-- The read system call on the standard input. -/
def syscallRead (c : Core) : Except Fault (Core × Changes) := do
  let address := c.registers.readGpr 11
  let length := (c.registers.readGpr 12).toNat
  match c.inputQueue with
  | [] => .error .blocked
  | input :: inputQueue =>
    let oldBytes ← c.memory.readBytes address length
    let memory ← c.memory.writeBytes address 0 (input.take length)
    let memory ← (
      if input.length < length then
        memory.writeByte (address + BitVec.ofNat 64 input.length) 0
      else .ok memory)
    let newBytes ← memory.readBytes address length
    let oldReg := c.registers.readGpr 10
    let newReg := BitVec.ofNat 64 (min length input.length)
    return ({ c with memory, inputQueue, registers := c.registers.writeGpr 10 newReg },
      ⟨[], [⟨address, oldBytes, newBytes⟩]⟩ ++ Changes.ofRegister (.gpr 10) oldReg newReg)

/-- The write system call on the standard output. -/
def syscallWrite (c : Core) : Except Fault (Core × Changes) := do
  let length := c.registers.readGpr 12
  let _ ← c.memory.readBytes (c.registers.readGpr 11) length.toNat
  let oldReg := c.registers.readGpr 10
  return ({ c with registers := c.registers.writeGpr 10 length },
    Changes.ofRegister (.gpr 10) oldReg length)

/-- The effects of the system calls on the machine; printing has none. -/
def handleSyscall (c : Core) : Except Fault (Core × Changes) := do
  let argument := c.registers.readGpr 10
  match c.registers.readGpr 17 with
  | 4#64 =>
    printString c.memory argument (c.memory.size.toNat + 1)
    return (c, .none)
  | 10#64 => .error .exited
  | 63#64 => if argument = 0 then c.syscallRead else return (c, .none)
  | 64#64 => if argument = 1 then c.syscallWrite else return (c, .none)
  | _ => return (c, .none)

/-- The branch decision; an unused `funct3` keeps the previous one. -/
def branchTaken (funct3 : BitVec 3) (result : Word) (previous : Bool) : Bool :=
  match funct3 with
  | 0b000#3 => result == 0
  | 0b001#3 => result != 0
  | 0b100#3 => result == 1
  | 0b101#3 => result == 0
  | 0b110#3 => result == 1
  | 0b111#3 => result == 0
  | _ => previous

/-- JAL and JALR: `Fetch` has already moved the program counter on. -/
def jump (c : Core) (imm : Word) : Core :=
  let c := { c with nextPc := c.programCounter }
  let c := c.updateProgramCounter (-4)
  let c := { c with returnAddress := c.programCounter + 4 }
  if c.currentInstruction.opcode = 0b1100111#7 then
    c.updateProgramCounter (-c.programCounter + c.executionResult)
  else c.updateProgramCounter imm

/-- The branch block of `Execute`: jumps move the program counter, branches decide. -/
def executeBranch (c : Core) (imm : Word) : Core :=
  let w := c.currentInstruction
  if c.controlUnit.branch then
    if w.opcode = 0b1100111#7 ∨ w.opcode = 0b1101111#7 then c.jump imm
    else if w.opcode = 0b1100011#7 then
      { c with branchFlag := branchTaken w.funct3 c.executionResult c.branchFlag }
    else c
  else c

def takeBranch (c : Core) (imm : Word) : Core :=
  if c.branchFlag ∧ c.currentInstruction.opcode = 0b1100011#7 then
    (c.updateProgramCounter (-4)).updateProgramCounter imm
  else c

/-- AUIPC replaces the result of the ALU. -/
def addUpperImmediate (c : Core) (imm : BitVec 32) : Core :=
  if c.currentInstruction.opcode = 0b0010111#7 then
    { c with executionResult := c.programCounter - (4 : Word) + (imm <<< 12).signExtend 64 }
  else c

/-- The part of `Execute` for integer instructions. -/
def executeInteger (c : Core) : Except Fault Core := do
  let w := c.currentInstruction
  let imm := immGenerator w
  let reg1Value := c.registers.readGpr w.rs1
  let reg2Value := if c.controlUnit.aluSrc then imm.signExtend 64 else c.registers.readGpr w.rs2
  let result ← Alu.execute (ControlUnit.getAluSignal w) reg1Value reg2Value
  let c := { c with executionResult := result.1 }
  return ((c.executeBranch (imm.signExtend 64)).takeBranch (imm.signExtend 64)).addUpperImmediate imm

structure FpOperands where
  reg1Value : Word
  reg2Value : Word
  reg3Value : Word
  rm : Byte
  deriving DecidableEq, Repr

/-- The operands of a floating-point instruction. The two `funct7` values are those
of the conversions and moves that read an integer register; only `ExecuteFloat` replaces
the dynamic rounding mode by that of `frm`. -/
def fpOperands (c : Core) (fcvt fmv : BitVec 7) (replaceDynamic : Bool) : FpOperands :=
  let w := c.currentInstruction
  { reg1Value :=
      if w.funct7 = fcvt ∨ w.funct7 = fmv ∨ w.opcode = 0b0000111#7 ∨ w.opcode = 0b0100111#7 then
        c.registers.readGpr w.rs1
      else c.registers.readFpr w.rs1
    reg2Value :=
      if c.controlUnit.aluSrc then (immGenerator w).signExtend 64 else c.registers.readFpr w.rs2
    reg3Value := c.registers.readFpr w.rs3
    rm :=
      if replaceDynamic ∧ w.funct3 = 0b111#3 then (c.registers.readCsr 0x002).setWidth 8
      else w.funct3.setWidth 8 }

/-- `ExecuteFloat` stores the exception flags in `fcsr` without recording the change. -/
def executeFloat (fpu : Fpu) (c : Core) : Core :=
  let o := c.fpOperands 0b1101000#7 0b1111000#7 true
  let answer := fpu.fpexecute (ControlUnit.getAluSignal c.currentInstruction)
    o.reg1Value o.reg2Value o.reg3Value o.rm c.hostRound
  { c with
    executionResult := answer.1.1
    hostRound := answer.2
    registers := c.registers.writeCsr 0x003 (answer.1.2.setWidth 64) }

def executeDouble (fpu : Fpu) (c : Core) : Core :=
  let o := c.fpOperands 0b1101001#7 0b1111001#7 false
  let answer := fpu.dfpexecute (ControlUnit.getAluSignal c.currentInstruction)
    o.reg1Value o.reg2Value o.reg3Value o.rm c.hostRound
  { c with executionResult := answer.1.1, hostRound := answer.2 }

def executeCsr (c : Core) : Core :=
  let w := c.currentInstruction
  { c with
    csrTargetAddress := w.csr
    csrOldValue := c.registers.readCsr w.csr
    csrWriteVal := c.registers.readGpr w.rs1
    csrUimm := w.rs1 }

def execute (fpu : Fpu) (c : Core) : Except Fault (Core × Changes) := do
  let w := c.currentInstruction
  if w.opcode = 0b1110011#7 ∧ w.funct3 = 0b000#3 then c.handleSyscall
  else if isFInstruction w then return (c.executeFloat fpu, .none)
  else if isDInstruction w then return (c.executeDouble fpu, .none)
  else if w.opcode = 0b1110011#7 then return (c.executeCsr, .none)
  else return (← c.executeInteger, .none)

end Core

end RiscvSim
