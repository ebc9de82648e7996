import RiscvSim.Cycle

/-! The commands of the virtual machine and its undo history. -/

namespace RiscvSim

/-- `custom_instr_executed`: 0, 1 and 2. -/
inductive CustomInstr where
  | none | ldbm | bigmul
  deriving DecidableEq, Repr

structure StepDelta where
  oldPc : Word
  newPc : Word
  registerChanges : List RegisterChange
  memoryChanges : List MemoryChange
  bigmulState : BigmulState
  customInstrExecuted : CustomInstr
  deriving DecidableEq, Repr

namespace StepDelta

/-- `StepDelta()` -/
def empty : StepDelta where
  oldPc := 0
  newPc := 0
  registerChanges := []
  memoryChanges := []
  bigmulState := { BigmulState.initial with bigmulDone := false, ldbmDone := false, writeDone := false }
  customInstrExecuted := .none

def record (d : StepDelta) (changes : Changes) : StepDelta :=
  { d with
    registerChanges := d.registerChanges ++ changes.registerChanges
    memoryChanges := d.memoryChanges ++ changes.memoryChanges }

end StepDelta

/-- An element of the data buffer; floating-point values are given by their bits. -/
inductive DataItem where
  | byte (value : BitVec 8)
  | halfWord (value : BitVec 16)
  | word (value : BitVec 32)
  | doubleWord (value : BitVec 64)
  | float (bits : BitVec 32)
  | double (bits : BitVec 64)
  | string (bytes : List Byte)
  deriving DecidableEq, Repr

structure AssembledProgram where
  textBuffer : List Instr
  dataBuffer : List DataItem
  deriving DecidableEq, Repr

structure Config where
  dataSectionStart : Word
  instructionExecutionLimit : Word
  deriving DecidableEq, Repr

structure Vm where
  core : Core
  programSize : Word
  breakpoints : List Word
  currentDelta : StepDelta
  undoStack : List StepDelta
  redoStack : List StepDelta

instance (a : Word) (l : List Word) : Decidable (a ∈ l) :=
  List.instDecidableMemOfLawfulBEq a l

namespace Core

def ldbmBusy (c : Core) : Bool := c.controlUnit.ldbmStart && !c.bigmul.ldbmDone

def bigmulBusy (c : Core) : Bool := c.controlUnit.bigmulStart && !c.bigmul.bigmulDone

def busy (c : Core) : Bool := c.ldbmBusy || c.bigmulBusy

def writeRegisters (registers : RegisterFile) (value : RegisterChange → Word)
    (changes : List RegisterChange) : RegisterFile :=
  changes.foldl (fun r change => r.write change.key (value change)) registers

def writeBytesBack (m : Memory) (bytes : MemoryChange → List Byte) :
    List MemoryChange → Except Fault Memory
  | [] => .ok m
  | change :: changes => do
    let m ← m.writeBytes change.address 0 (bytes change)
    writeBytesBack m bytes changes

/-- What Undo and Redo share: the values and bytes to write and the new program
counter are parameters, the snapshot of the unit is the same for both. -/
def applyDelta (c : Core) (d : StepDelta) (value : RegisterChange → Word)
    (bytes : MemoryChange → List Byte) (pc : Word) : Except Fault Core := do
  let bigmul :=
    if d.customInstrExecuted = .none then c.bigmul else c.bigmul.restore d.bigmulState
  let registers := writeRegisters c.registers value d.registerChanges
  let memory ← writeBytesBack c.memory bytes d.memoryChanges
  return { c with bigmul, registers, memory, programCounter := pc }

/-- The machine when the simulator starts. -/
def initial (memorySize : Word) : Core where
  programCounter := 0
  currentInstruction := 0
  instructionsRetired := 0
  cycleS := 0
  registers := .reset
  memory := ⟨memorySize, fun _ => 0⟩
  controlUnit := .reset
  bigmul := .initial
  executionResult := 0
  memoryResult := 0
  returnAddress := 0
  branchFlag := false
  nextPc := 0
  csrTargetAddress := 0
  csrOldValue := 0
  csrWriteVal := 0
  csrUimm := 0
  hostRound := .toNearest
  inputQueue := []

/-- `Reset` keeps the last instruction word, the pending input, the rounding mode of
the host and the operand size. -/
def reset (c : Core) : Core :=
  { c with
    programCounter := 0
    instructionsRetired := 0
    cycleS := 0
    registers := .reset
    memory := c.memory.reset
    controlUnit := .reset
    bigmul := c.bigmul.reset
    branchFlag := false
    nextPc := 0
    executionResult := 0
    memoryResult := 0
    returnAddress := 0
    csrTargetAddress := 0
    csrOldValue := 0
    csrWriteVal := 0
    csrUimm := 0 }

end Core

namespace Vm

def initial (memorySize : Word) : Vm where
  core := .initial memorySize
  programSize := 0
  breakpoints := []
  currentDelta := .empty
  undoStack := []
  redoStack := []

def record (v : Vm) (changes : Changes) : Vm :=
  { v with currentDelta := v.currentDelta.record changes }

/-- Note the kind of the next instruction and the state before it. -/
def noteState (v : Vm) (w : Instr) : Vm :=
  let customInstrExecuted : CustomInstr :=
    if w.opcode = 0b0101010#7 then .ldbm else if w.opcode = 0b0111111#7 then .bigmul else .none
  { v with currentDelta := { v.currentDelta with
    customInstrExecuted
    bigmulState := v.core.bigmul.snapshot
    oldPc := v.core.programCounter } }

@[simp] theorem noteState_core (v : Vm) (w : Instr) : (v.noteState w).core = v.core := rfl

@[simp] theorem noteState_programSize (v : Vm) (w : Instr) :
    (v.noteState w).programSize = v.programSize := rfl

@[simp] theorem noteState_breakpoints (v : Vm) (w : Instr) :
    (v.noteState w).breakpoints = v.breakpoints := rfl

/-- Peek at the next instruction. -/
def preview (v : Vm) : Except Fault Vm := do
  return v.noteState (← v.core.memory.readWord v.core.programCounter)

def fetchCycle (fpu : Fpu) (v : Vm) : Except Fault Vm := do
  let (core, changes) ← v.core.fetchCycle fpu
  return { v with core }.record changes

/-- A stall cycle that runs `WriteMemory`. -/
def stallWrite (v : Vm) : Except Fault Vm := do
  let (core, changes) ← v.core.writeMemory
  return { v with core := { core with cycleS := core.cycleS + 1 } }.record changes

/-- A stall cycle that advances the product. -/
def stallExecute (v : Vm) : Except Fault Vm := do
  let bigmul ← v.core.bigmul.executeBigmul
  return { v with core := { v.core with bigmul, cycleS := v.core.cycleS + 1 } }

/-- A stall cycle of BIGMUL: write back, or compute. -/
def stallBigmul (v : Vm) : Except Fault Vm :=
  if ¬ v.core.bigmul.writeDone then v.stallWrite else v.stallExecute

/-- The stall logic of `Run`: a started LDBM goes first. -/
def stallCycle (v : Vm) : Except Fault Vm :=
  if v.core.ldbmBusy then v.stallWrite else v.stallBigmul

/-- More turns than any stall loop takes (`drainLdbm_ne_stuck`, `drainBigmul_ne_stuck`). -/
def drainBudget : Nat := 16384

/-- `while (cond) body` for the stall loops. -/
def drain (cond : Vm → Bool) (body : Vm → Except Fault Vm) (v : Vm) : Except Fault Vm :=
  match Loop.run (Loop.whileTurn cond body) drainBudget v with
  | .error e => .error e
  | .ok (.done w) => .ok w
  | .ok (.yield _) => .error .stuck

def drainLdbm (v : Vm) : Except Fault Vm := drain (fun v => v.core.ldbmBusy) stallWrite v

def drainBigmul (v : Vm) : Except Fault Vm := drain (fun v => v.core.bigmulBusy) stallBigmul v

/-- The instruction of one step with all its stall cycles. -/
def executeInstruction (fpu : Fpu) (v : Vm) : Except Fault Vm := do
  let v ← v.fetchCycle fpu
  let v ← v.drainLdbm
  v.drainBigmul

/-- Push the current delta and drop the undone future. -/
def commit (v : Vm) : Vm :=
  { v with
    undoStack := { v.currentDelta with newPc := v.core.programCounter } :: v.undoStack
    redoStack := []
    currentDelta := .empty }

def step (fpu : Fpu) (v : Vm) : Except Fault Vm := do
  let v ← v.preview
  if v.core.programCounter < v.programSize then return (← v.executeInstruction fpu).commit
  else return v

/-- One round of the loop of `Run`. Its second component counts the instructions. -/
def runTurn (fpu : Fpu) (limit : Word) :
    Vm × Word → Except Fault (ForInStep (Vm × Word))
  | (v, executed) =>
    if ¬ v.core.programCounter < v.programSize then .ok (.done (v, executed))
    else if executed > limit then .ok (.done (v, executed))
    else if v.core.busy then do return .yield (← v.stallCycle, executed)
    else do return .yield (← v.fetchCycle fpu, executed + 1)

/-- `Run` for at most `turns` rounds: a stop request between two rounds is a run
that is cut off there. -/
def run (fpu : Fpu) (limit : Word) (turns : Nat) (v : Vm) :
    Except Fault (ForInStep (Vm × Word)) :=
  Loop.run (runTurn fpu limit) turns (v, 0)

/-- One round of the loop of `DebugRun`. -/
def debugTurn (fpu : Fpu) (limit : Word) :
    Vm × Word → Except Fault (ForInStep (Vm × Word))
  | (v, executed) =>
    if ¬ v.core.programCounter < v.programSize then .ok (.done (v, executed))
    else if executed > limit then .ok (.done (v, executed))
    else do
      let v ← v.preview
      if v.core.programCounter ∈ v.breakpoints then
        return .done ({ v with currentDelta := .empty }, executed)
      else return .yield ((← v.executeInstruction fpu).commit, executed + 1)

def debugRun (fpu : Fpu) (limit : Word) (turns : Nat) (v : Vm) :
    Except Fault (ForInStep (Vm × Word)) :=
  Loop.run (debugTurn fpu limit) turns (v, 0)

def undo (v : Vm) : Except Fault Vm :=
  match v.undoStack with
  | [] => .ok v
  | last :: undoStack => do
    let core ← v.core.applyDelta last RegisterChange.oldValue MemoryChange.oldBytes last.oldPc
    return { v with
      core := { core with
        instructionsRetired := core.instructionsRetired - 1
        cycleS := core.cycleS - 1 }
      undoStack
      redoStack := last :: v.redoStack }

def redo (v : Vm) : Except Fault Vm :=
  match v.redoStack with
  | [] => .ok v
  | next :: redoStack => do
    let core ← v.core.applyDelta next RegisterChange.newValue MemoryChange.newBytes next.newPc
    return { v with
      core := { core with
        instructionsRetired := core.instructionsRetired + 1
        cycleS := core.cycleS + 1 }
      undoStack := next :: v.undoStack
      redoStack }

def reset (v : Vm) : Vm :=
  { v with
    core := v.core.reset
    currentDelta := { v.currentDelta with
      registerChanges := []
      memoryChanges := []
      oldPc := 0
      newPc := 0 }
    undoStack := []
    redoStack := [] }

/-- `WriteWord` of the text from `counter` on. -/
def loadText (m : Memory) (counter : BitVec 32) : List Instr → Except Fault (Memory × BitVec 32)
  | [] => .ok (m, counter)
  | w :: text => do
    let m ← m.writeWord (counter.setWidth 64) w
    loadText m (counter + 4) text

def alignCounter (counter alignment : BitVec 32) : BitVec 32 :=
  if counter % alignment ≠ 0 then counter + (alignment - counter % alignment) else counter

/-- Write one element of the data buffer at its aligned offset. -/
def loadItem (start : Word) (m : Memory) (counter : BitVec 32) :
    DataItem → Except Fault (Memory × BitVec 32)
  | .byte x => do
    return (← m.writeByte (start + counter.setWidth 64) x, counter + 1)
  | .halfWord x => do
    let counter := alignCounter counter 2
    return (← m.writeHalfWord (start + counter.setWidth 64) x, counter + 2)
  | .word x | .float x => do
    let counter := alignCounter counter 4
    return (← m.writeWord (start + counter.setWidth 64) x, counter + 4)
  | .doubleWord x | .double x => do
    let counter := alignCounter counter 8
    return (← m.writeDoubleWord (start + counter.setWidth 64) x, counter + 8)
  | .string bytes =>
    bytes.foldlM (fun (m, counter) b => do
      return (← m.writeByte (start + counter.setWidth 64) b, counter + 1)) (m, counter)

def loadData (start : Word) (m : Memory) (counter : BitVec 32) :
    List DataItem → Except Fault Memory
  | [] => .ok m
  | item :: items => do
    let (m, counter) ← loadItem start m counter item
    loadData start m counter items

/-- Loading a program marks its end with a breakpoint. -/
def loadProgram (config : Config) (program : AssembledProgram) (v : Vm) : Except Fault Vm := do
  let (memory, counter) ← loadText v.core.memory 0 program.textBuffer
  let programSize : Word := counter.setWidth 64
  let breakpoints :=
    if programSize ∈ v.breakpoints then v.breakpoints else v.breakpoints ++ [programSize]
  let memory ← loadData config.dataSectionStart memory 0 program.dataBuffer
  return { v with core := { v.core with memory }, programSize, breakpoints }

end Vm

end RiscvSim
