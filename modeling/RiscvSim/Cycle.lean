import RiscvSim.Core

/-! The memory and write-back stages, and one whole fetch cycle. -/

namespace RiscvSim

namespace Core

/-- Load the doublewords `first`, ..., `first + n - 1` of a 64-word operand at `base`. -/
def loadWords (m : Memory) (base first : Word) (cache : Vector Word 64) :
    Nat → Except Fault (Vector Word 64)
  | 0 => .ok cache
  | n + 1 => do
    let cache ← loadWords m base first cache n
    let offset := first + BitVec.ofNat 64 n
    if offset < 64 then
      let x ← m.readDoubleWord (base + offset * 8)
      return cache.setIfInBounds offset.toNat x
    else return cache

/-- One LDBM cycle: eight doublewords of the first operand, then of the second. -/
def ldbmCycle (m : Memory) (u : BigmulUnit) : Except Fault BigmulUnit := do
  let u ← (
    if u.ldbmOffset < 64 then do
      return { u with cacheA := ← loadWords m u.baseAddrA u.ldbmOffset u.cacheA 8 }
    else if u.ldbmOffset < 128 then do
      return { u with cacheB := ← loadWords m u.baseAddrB (u.ldbmOffset - 64) u.cacheB 8 }
    else .ok u)
  let u := { u with ldbmOffset := u.ldbmOffset + 8 }
  return if u.ldbmOffset ≥ 128 then { u with ldbmDone := true } else u

/-- Store the result words `first`, ..., `first + n - 1`, as far as they are below
`size`. The bytes read around each store are collected but never recorded. -/
def storeWords (u : BigmulUnit) (size : Word) (m : Memory) : Nat → Except Fault Memory
  | 0 => .ok m
  | n + 1 => do
    let m ← storeWords u size m n
    let index := u.writeOffset + BitVec.ofNat 64 n
    if index < size then
      let address := u.baseAddrRes + index * 8
      let word ← readAt u.resultCache index.toNat
      let _ ← m.readBytes address 8
      let m ← m.writeDoubleWord address word
      let _ ← m.readBytes address 8
      return m
    else return m

/-- The end of the write-back phase of BIGMUL, which prints all result words. -/
def finishWriteBack (m : Memory) (u : BigmulUnit) : Except Fault (Memory × BigmulUnit) :=
  let size := u.sizeOfOperand.words * 2
  if u.writeOffset ≥ size then
    if size.toNat ≤ 128 then .ok (m, { u with writeDone := true, bigmulDone := true })
    else .error .arrayIndex
  else .ok (m, u)

/-- One cycle of the write-back phase of BIGMUL: eight result words. -/
def bigmulWriteCycle (m : Memory) (u : BigmulUnit) : Except Fault (Memory × BigmulUnit) := do
  let size := u.sizeOfOperand.words * 2
  if u.writeOffset < size then
    let m ← storeWords u size m 8
    finishWriteBack m { u with writeOffset := u.writeOffset + 8 }
  else finishWriteBack m u

/-- The value that a load instruction reads; an unused `funct3` reads nothing. -/
def loadValue (m : Memory) (address : Word) (funct3 : BitVec 3) (previous : Word) :
    Except Fault Word :=
  match funct3 with
  | 0b000#3 => return (← m.readByte address).signExtend 64
  | 0b001#3 => return (← m.readHalfWord address).signExtend 64
  | 0b010#3 => return (← m.readWord address).signExtend 64
  | 0b011#3 => m.readDoubleWord address
  | 0b100#3 => return (← m.readByte address).setWidth 64
  | 0b101#3 => return (← m.readHalfWord address).setWidth 64
  | 0b110#3 => return (← m.readWord address).setWidth 64
  | _ => .ok previous

/-- A store of `n` bytes with the bytes before and after it. -/
def storeRecorded (m : Memory) (address : Word) (n : Nat)
    (write : Memory → Except Fault Memory) : Except Fault (Memory × Changes) := do
  let oldBytes ← m.readBytes address n
  let m ← write m
  let newBytes ← m.readBytes address n
  return (m, .ofMemory address oldBytes newBytes)

/-- The memory after a store instruction; an unused `funct3` stores nothing. -/
def storeValue (m : Memory) (address : Word) (funct3 : BitVec 3) (value : Word) :
    Except Fault (Memory × Changes) :=
  match funct3 with
  | 0b000#3 => storeRecorded m address 1 fun m => m.writeByte address (value.setWidth 8)
  | 0b001#3 => storeRecorded m address 2 fun m => m.writeHalfWord address (value.setWidth 16)
  | 0b010#3 => storeRecorded m address 4 fun m => m.writeWord address (value.setWidth 32)
  | 0b011#3 => storeRecorded m address 8 fun m => m.writeDoubleWord address value
  | _ => .ok (m, .none)

/-- The read of `WriteMemory`, if the control unit asks for one. -/
def readResult (c : Core) (read : Except Fault Word) : Except Fault Word :=
  if c.controlUnit.memRead then read else .ok c.memoryResult

def writeMemoryFloat (c : Core) : Except Fault (Core × Changes) := do
  let address := c.executionResult
  let memoryResult ← c.readResult do
    let x ← c.memory.readWord address
    return x.setWidth 64
  if c.controlUnit.memWrite then
    let value := c.registers.readFpr c.currentInstruction.rs2
    let (memory, changes) ← storeRecorded c.memory address 4 fun m =>
      m.writeWord address (value.setWidth 32)
    return ({ c with memory, memoryResult }, changes)
  else return ({ c with memoryResult }, .none)

def writeMemoryDouble (c : Core) : Except Fault (Core × Changes) := do
  let address := c.executionResult
  let memoryResult ← c.readResult (c.memory.readDoubleWord address)
  if c.controlUnit.memWrite then
    let value := c.registers.readFpr c.currentInstruction.rs2
    let (memory, changes) ← storeRecorded c.memory address 8 fun m =>
      m.writeDoubleWord address value
    return ({ c with memory, memoryResult }, changes)
  else return ({ c with memoryResult }, .none)

/-- The part of `WriteMemory` for integer instructions and the write-back of BIGMUL. -/
def writeMemoryInteger (c : Core) : Except Fault (Core × Changes) := do
  let w := c.currentInstruction
  let address := c.executionResult
  let memoryResult ← c.readResult (loadValue c.memory address w.funct3 c.memoryResult)
  if c.controlUnit.bigmulStart ∧ ¬ c.bigmul.bigmulDone ∧ ¬ c.bigmul.writeDone then
    let (memory, bigmul) ← bigmulWriteCycle c.memory c.bigmul
    return ({ c with memory, bigmul, memoryResult }, .none)
  else if c.controlUnit.memWrite then
    let (memory, changes) ← storeValue c.memory address w.funct3 (c.registers.readGpr w.rs2)
    return ({ c with memory, memoryResult }, changes)
  else return ({ c with memoryResult }, .none)

def writeMemory (c : Core) : Except Fault (Core × Changes) := do
  let w := c.currentInstruction
  if c.controlUnit.ldbmStart ∧ ¬ c.bigmul.ldbmDone then
    return ({ c with bigmul := ← ldbmCycle c.memory c.bigmul }, .none)
  else if w.opcode = 0b1110011#7 ∧ w.funct3 = 0b000#3 then return (c, .none)
  else if isFInstruction w then c.writeMemoryFloat
  else if isDInstruction w then c.writeMemoryDouble
  else c.writeMemoryInteger

/-- The register write of a floating-point instruction; `toGpr` says whether it goes
to an integer register. -/
def writeBackFp (c : Core) (toGpr : Bool) : Core × Changes :=
  let w := c.currentInstruction
  if c.controlUnit.regWrite then
    if toGpr then
      ({ c with registers := c.registers.writeGpr w.rd c.executionResult },
        .ofRegister (.gpr w.rd) (c.registers.readGpr w.rd) c.executionResult)
    else
      let value := if w.opcode = 0b0000111#7 then c.memoryResult else c.executionResult
      ({ c with registers := c.registers.writeFpr w.rd value },
        .ofRegister (.fpr w.rd) (c.registers.readFpr w.rd) value)
  else (c, .none)

def writeBackFloat (c : Core) : Core × Changes :=
  let funct7 := c.currentInstruction.funct7
  c.writeBackFp (funct7 == 0b1010000#7 || funct7 == 0b1100000#7 || funct7 == 0b1110000#7)

def writeBackDouble (c : Core) : Core × Changes :=
  let funct7 := c.currentInstruction.funct7
  c.writeBackFp (funct7 == 0b1010001#7 || funct7 == 0b1100001#7 || funct7 == 0b1110001#7)

/-- The value that a CSR instruction stores, if it stores one. -/
def csrNewValue (c : Core) : Option Word :=
  let uimm : Word := c.csrUimm.setWidth 64
  match c.currentInstruction.funct3 with
  | 0b001#3 => some c.csrWriteVal
  | 0b010#3 => if c.csrWriteVal ≠ 0 then some (c.csrOldValue ||| c.csrWriteVal) else none
  | 0b011#3 => if c.csrWriteVal ≠ 0 then some (c.csrOldValue &&& ~~~c.csrWriteVal) else none
  | 0b101#3 => some uimm
  | 0b110#3 => if uimm ≠ 0 then some (c.csrOldValue ||| uimm) else none
  | 0b111#3 => if uimm ≠ 0 then some (c.csrOldValue &&& ~~~uimm) else none
  | _ => none

/-- `WriteBackCsr` records no change; `funct3` 0 and 4 write nothing. -/
def writeBackCsr (c : Core) : Core :=
  let w := c.currentInstruction
  if w.funct3 = 0b000#3 ∨ w.funct3 = 0b100#3 then c
  else
    let registers := c.registers.writeGpr w.rd c.csrOldValue
    match c.csrNewValue with
    | some value => { c with registers := registers.writeCsr c.csrTargetAddress value }
    | none => { c with registers }

/-- The value that an integer instruction writes to `rd`, if its opcode writes one. -/
def integerResult (c : Core) : Option Word :=
  match c.currentInstruction.opcode with
  | 0b0110011#7 | 0b0010011#7 | 0b0010111#7 => some c.executionResult
  | 0b0000011#7 => some c.memoryResult
  | 0b1100111#7 | 0b1101111#7 => some c.nextPc
  | 0b0110111#7 => some ((immGenerator c.currentInstruction <<< 12).signExtend 64)
  | _ => none

def writeBackInteger (c : Core) : Core × Changes :=
  let rd := c.currentInstruction.rd
  let registers :=
    match c.integerResult with
    | some value => if c.controlUnit.regWrite then c.registers.writeGpr rd value else c.registers
    | none => c.registers
  ({ c with registers },
    .ofRegister (.gpr rd) (c.registers.readGpr rd) (registers.readGpr rd))

def writeBack (c : Core) : Core × Changes :=
  let w := c.currentInstruction
  if w.opcode = 0b1110011#7 ∧ w.funct3 = 0b000#3 then (c, .none)
  else if isFInstruction w then c.writeBackFloat
  else if isDInstruction w then c.writeBackDouble
  else if w.opcode = 0b1110011#7 then (c.writeBackCsr, .none)
  else c.writeBackInteger

/-- One fetch cycle: the five stages and the two counters. -/
def fetchCycle (fpu : Fpu) (c : Core) : Except Fault (Core × Changes) := do
  let c ← c.fetch
  let c ← c.decode
  let (c, executed) ← c.execute fpu
  let (c, stored) ← c.writeMemory
  let (c, written) := c.writeBack
  return ({ c with
    instructionsRetired := c.instructionsRetired + 1
    cycleS := c.cycleS + 1 }, executed ++ stored ++ written)

end Core

end RiscvSim
