import RiscvSim.InstructionSet
import RiscvSim.Loop
import RiscvSim.RegisterNames

/-! Intermediate code and the instruction words made from it. -/

namespace RiscvSim

/-- The exceptions of the assembler. -/
inductive Thrown where
  | outOfRange | invalidArgument | runtimeError
  deriving DecidableEq, Repr

/-- `std::unordered_map::at` -/
def mapAt {α : Type} (entries : List (String × α)) (key : String) : Except Thrown α :=
  match entries.lookup key with
  | some x => .ok x
  | none => .error .outOfRange

/-- A decimal conversion to an integer of the given range. -/
def stoRange (low high : Int) (s : String) : Except Thrown Int :=
  match Decimal.value s with
  | some n => if low ≤ n ∧ n ≤ high then .ok n else .error .outOfRange
  | none => .error .invalidArgument

def stoi : String → Except Thrown Int := stoRange (-2147483648) 2147483647

def stoll : String → Except Thrown Int := stoRange (-9223372036854775808) 9223372036854775807

/-- `std::stoull` also takes a sign; a negative number wraps. -/
def stoull : String → Except Thrown Int := stoRange (-18446744073709551615) 18446744073709551615

/-- A unit of intermediate code. The operands are texts, as the source keeps them. -/
structure ICUnit where
  lineNumber : Nat := 0
  instructionIndex : Nat := 0
  opcode : String := ""
  rd : String := ""
  rs1 : String := ""
  rs2 : String := ""
  rs3 : String := ""
  csr : BitVec 32 := 0
  imm : String := ""
  label : String := ""
  rm : Byte := 0
  deriving DecidableEq, Repr

namespace CodeGenerator

open InstructionSet

def extractRegisterIndex (reg : String) : Except Thrown (BitVec 32) :=
  match reg.toList with
  | [] => .error .outOfRange
  | _ :: digits => do return BitVec.ofInt 32 (← stoi (String.ofList digits))

/-- `static_cast<uint32_t>(std::stoi(imm))` -/
def immediate (imm : String) : Except Thrown (BitVec 32) := do
  return BitVec.ofInt 32 (← stoi imm)

variable (block : ICUnit)

/-- Three registers, `funct7` and `funct3`. -/
def encodeRegisters (map : List (String × Encoding)) : Except Thrown Instr := do
  let encoding ← mapAt map block.opcode
  let rd ← extractRegisterIndex block.rd
  let rs1 ← extractRegisterIndex block.rs1
  let rs2 ← extractRegisterIndex block.rs2
  return encoding.funct7.setWidth 32 <<< 25 ||| rs2 <<< 20 ||| rs1 <<< 15 |||
    encoding.funct3.setWidth 32 <<< 12 ||| rd <<< 7 ||| encoding.opcode.setWidth 32

/-- A destination, a source and an immediate. -/
def encodeImmediate (map : List (String × Encoding)) : Except Thrown Instr := do
  let encoding ← mapAt map block.opcode
  let rd ← extractRegisterIndex block.rd
  let rs1 ← extractRegisterIndex block.rs1
  let imm ← immediate block.imm
  return imm <<< 20 ||| rs1 <<< 15 ||| encoding.funct3.setWidth 32 <<< 12 ||| rd <<< 7 |||
    encoding.opcode.setWidth 32

/-- Two sources and an immediate in two parts. -/
def encodeStore (map : List (String × Encoding)) : Except Thrown Instr := do
  let encoding ← mapAt map block.opcode
  let rs1 ← extractRegisterIndex block.rs1
  let rs2 ← extractRegisterIndex block.rs2
  let imm ← immediate block.imm
  let immLo := imm &&& 0b11111
  let immHi := imm >>> 5 &&& 0b1111111
  return immHi <<< 25 ||| rs2 <<< 20 ||| rs1 <<< 15 ||| encoding.funct3.setWidth 32 <<< 12 |||
    immLo <<< 7 ||| encoding.opcode.setWidth 32

def generateRTypeMachineCode : Except Thrown Instr :=
  encodeRegisters block rTypeInstructionEncodingMap

def generateRLTypeMachineCode : Except Thrown Instr :=
  encodeRegisters block rlTypeInstructionEncodingMap

def generateSRTypeMachineCode : Except Thrown Instr :=
  encodeStore block srTypeInstructionEncodingMap

def generateI1TypeMachineCode : Except Thrown Instr :=
  encodeImmediate block i1TypeInstructionEncodingMap

def generateI2TypeMachineCode : Except Thrown Instr := do
  let encoding ← mapAt i2TypeInstructionEncodingMap block.opcode
  let rd ← extractRegisterIndex block.rd
  let rs1 ← extractRegisterIndex block.rs1
  let imm ← immediate block.imm
  return encoding.funct6.setWidth 32 <<< 26 ||| imm <<< 20 ||| rs1 <<< 15 |||
    encoding.funct3.setWidth 32 <<< 12 ||| rd <<< 7 ||| encoding.opcode.setWidth 32

def generateI3TypeMachineCode : Except Thrown Instr := do
  let encoding ← mapAt i3TypeInstructionEncodingMap block.opcode
  return encoding.funct3.setWidth 32 <<< 12 ||| encoding.opcode.setWidth 32

def generateSTypeMachineCode : Except Thrown Instr :=
  encodeStore block sTypeInstructionEncodingMap

def generateBTypeMachineCode : Except Thrown Instr := do
  let encoding ← mapAt bTypeInstructionEncodingMap block.opcode
  let rs1 ← extractRegisterIndex block.rs1
  let rs2 ← extractRegisterIndex block.rs2
  let imm ← immediate block.imm
  let imm12 := imm.sshiftRight 12 &&& 0b1
  let imm10_5 := imm.sshiftRight 5 &&& 0b111111
  let imm4_1 := imm.sshiftRight 1 &&& 0b1111
  let imm11 := imm.sshiftRight 11 &&& 0b1
  return imm12 <<< 31 ||| imm10_5 <<< 25 ||| rs2 <<< 20 ||| rs1 <<< 15 |||
    encoding.funct3.setWidth 32 <<< 12 ||| imm4_1 <<< 8 ||| imm11 <<< 7 |||
    encoding.opcode.setWidth 32

def generateUTypeMachineCode : Except Thrown Instr := do
  let encoding ← mapAt uTypeInstructionEncodingMap block.opcode
  let rd ← extractRegisterIndex block.rd
  let imm := (← immediate block.imm) &&& 0xFFFFF
  return imm <<< 12 ||| rd <<< 7 ||| encoding.opcode.setWidth 32

def generateJTypeMachineCode : Except Thrown Instr := do
  let encoding ← mapAt jTypeInstructionEncodingMap block.opcode
  let rd ← extractRegisterIndex block.rd
  let imm ← immediate block.imm
  return (imm &&& 0x100000) <<< 11 ||| (imm &&& 0x7FE) <<< 20 ||| (imm &&& 0x800) <<< 9 |||
    (imm &&& 0xFF000) <<< 0 ||| rd <<< 7 ||| encoding.opcode.setWidth 32

def generateCSRRTypeMachineCode : Except Thrown Instr := do
  let encoding ← mapAt csrRTypeInstructionEncodingMap block.opcode
  let rd ← extractRegisterIndex block.rd
  let rs1 ← extractRegisterIndex block.rs1
  let csr := block.csr &&& 0xFFF
  return csr <<< 20 ||| rs1 <<< 15 ||| encoding.funct3.setWidth 32 <<< 12 ||| rd <<< 7 |||
    encoding.opcode.setWidth 32

def generateCSRITypeMachineCode : Except Thrown Instr := do
  let encoding ← mapAt csrITypeInstructionEncodingMap block.opcode
  let rd ← extractRegisterIndex block.rd
  let zimm := (← immediate block.imm) &&& 0b11111
  let csr := block.csr &&& 0xFFF
  return csr <<< 20 ||| zimm <<< 15 ||| encoding.funct3.setWidth 32 <<< 12 ||| rd <<< 7 |||
    encoding.opcode.setWidth 32

def generateFDRTypeMachineCode : Except Thrown Instr :=
  encodeRegisters block fdRTypeInstructionEncodingMap

/-- `static_cast<uint32_t>(block.getRm() & 0b111)` -/
def roundingMode : BitVec 32 := (block.rm &&& 0b111).setWidth 32

def generateFDR1TypeMachineCode : Except Thrown Instr := do
  let encoding ← mapAt fdR1TypeInstructionEncodingMap block.opcode
  let rd ← extractRegisterIndex block.rd
  let rs1 ← extractRegisterIndex block.rs1
  let rs2 ← extractRegisterIndex block.rs2
  return encoding.funct7.setWidth 32 <<< 25 ||| rs2 <<< 20 ||| rs1 <<< 15 |||
    roundingMode block <<< 12 ||| rd <<< 7 ||| encoding.opcode.setWidth 32

def generateFDR2TypeMachineCode : Except Thrown Instr := do
  let encoding ← mapAt fdR2TypeInstructionEncodingMap block.opcode
  let rd ← extractRegisterIndex block.rd
  let rs1 ← extractRegisterIndex block.rs1
  return encoding.funct7.setWidth 32 <<< 25 ||| encoding.funct5.setWidth 32 <<< 20 |||
    rs1 <<< 15 ||| roundingMode block <<< 12 ||| rd <<< 7 ||| encoding.opcode.setWidth 32

def generateFDR3TypeMachineCode : Except Thrown Instr := do
  let encoding ← mapAt fdR3TypeInstructionEncodingMap block.opcode
  let rd ← extractRegisterIndex block.rd
  let rs1 ← extractRegisterIndex block.rs1
  return encoding.funct7.setWidth 32 <<< 25 ||| encoding.funct5.setWidth 32 <<< 20 |||
    rs1 <<< 15 ||| encoding.funct3.setWidth 32 <<< 12 ||| rd <<< 7 ||| encoding.opcode.setWidth 32

def generateFDR4TypeMachineCode : Except Thrown Instr := do
  let encoding ← mapAt fdR4TypeInstructionEncodingMap block.opcode
  let rd ← extractRegisterIndex block.rd
  let rs1 ← extractRegisterIndex block.rs1
  let rs2 ← extractRegisterIndex block.rs2
  let rs3 ← extractRegisterIndex block.rs3
  return rs3 <<< 27 ||| encoding.funct2.setWidth 32 <<< 25 ||| rs2 <<< 20 ||| rs1 <<< 15 |||
    roundingMode block <<< 12 ||| rd <<< 7 ||| encoding.opcode.setWidth 32

def generateFDITypeMachineCode : Except Thrown Instr :=
  encodeImmediate block fdITypeInstructionEncodingMap

def generateFDSTypeMachineCode : Except Thrown Instr :=
  encodeStore block fdSTypeInstructionEncodingMap

/-- The instruction formats. -/
inductive Format where
  | R | RL | SR | I1 | I2 | I3 | S | B | U | J | CSRR | CSRI
  | FDR | FDR1 | FDR2 | FDR3 | FDR4 | FDI | FDS
  deriving DecidableEq, Repr

/-- The tests of `generateMachineCode` in their order. -/
def formatOf (opcode : String) : Option Format :=
  if isValidRTypeInstruction opcode then some .R
  else if isValidRLTypeInstruction opcode then some .RL
  else if isValidSRTypeInstruction opcode then some .SR
  else if isValidI1TypeInstruction opcode then some .I1
  else if isValidI2TypeInstruction opcode then some .I2
  else if isValidI3TypeInstruction opcode then some .I3
  else if isValidSTypeInstruction opcode then some .S
  else if isValidBTypeInstruction opcode then some .B
  else if isValidUTypeInstruction opcode then some .U
  else if isValidJTypeInstruction opcode then some .J
  else if isValidCSRRTypeInstruction opcode then some .CSRR
  else if isValidCSRITypeInstruction opcode then some .CSRI
  else if isValidFDRTypeInstruction opcode then some .FDR
  else if isValidFDR1TypeInstruction opcode then some .FDR1
  else if isValidFDR2TypeInstruction opcode then some .FDR2
  else if isValidFDR3TypeInstruction opcode then some .FDR3
  else if isValidFDR4TypeInstruction opcode then some .FDR4
  else if isValidFDITypeInstruction opcode then some .FDI
  else if isValidFDSTypeInstruction opcode then some .FDS
  else none

/-- The word of one unit. -/
def machineCode : Except Thrown Instr :=
  match formatOf block.opcode with
  | some .R => generateRTypeMachineCode block
  | some .RL => generateRLTypeMachineCode block
  | some .SR => generateSRTypeMachineCode block
  | some .I1 => generateI1TypeMachineCode block
  | some .I2 => generateI2TypeMachineCode block
  | some .I3 => generateI3TypeMachineCode block
  | some .S => generateSTypeMachineCode block
  | some .B => generateBTypeMachineCode block
  | some .U => generateUTypeMachineCode block
  | some .J => generateJTypeMachineCode block
  | some .CSRR => generateCSRRTypeMachineCode block
  | some .CSRI => generateCSRITypeMachineCode block
  | some .FDR => generateFDRTypeMachineCode block
  | some .FDR1 => generateFDR1TypeMachineCode block
  | some .FDR2 => generateFDR2TypeMachineCode block
  | some .FDR3 => generateFDR3TypeMachineCode block
  | some .FDR4 => generateFDR4TypeMachineCode block
  | some .FDI => generateFDITypeMachineCode block
  | some .FDS => generateFDSTypeMachineCode block
  | none => .error .runtimeError

def generateMachineCode (intermediateCode : List (ICUnit × Bool)) : Except Thrown (List Instr) :=
  intermediateCode.mapM fun (block, _) => machineCode block

end CodeGenerator

end RiscvSim
