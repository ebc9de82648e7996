import RiscvSim.Word

/-! The fields of an instruction word and the immediate the decoder takes from it. -/

namespace RiscvSim

namespace Instr

/-- `(instruction >> low) & (2 ^ len - 1)` -/
def field (w : Instr) (low len : Nat) : BitVec len := w.extractLsb' low len

def opcode (w : Instr) : BitVec 7 := field w 0 7
def rd (w : Instr) : BitVec 5 := field w 7 5
def funct3 (w : Instr) : BitVec 3 := field w 12 3
def rs1 (w : Instr) : BitVec 5 := field w 15 5
def rs2 (w : Instr) : BitVec 5 := field w 20 5
def rs3 (w : Instr) : BitVec 5 := field w 27 5
def funct2 (w : Instr) : BitVec 2 := field w 25 2
def funct5 (w : Instr) : BitVec 5 := field w 20 5
def funct7 (w : Instr) : BitVec 7 := field w 25 7
def csr (w : Instr) : BitVec 12 := field w 20 12

end Instr

def isFInstruction (w : Instr) : Bool :=
  match Instr.opcode w with
  | 0b0000111#7 | 0b0100111#7 => Instr.funct3 w == 0b010#3
  | 0b1010011#7 => Instr.funct7 w &&& 1 == 0 && Instr.funct7 w != 0b0100000#7
  | _ => false

def isDInstruction (w : Instr) : Bool :=
  match Instr.opcode w with
  | 0b0000111#7 | 0b0100111#7 => Instr.funct3 w == 0b011#3
  | 0b1010011#7 => Instr.funct7 w &&& 1 != 0 || Instr.funct7 w == 0b0100000#7
  | _ => false

/-- `sign_extend` of the low `bits` bits of an `int32_t`. -/
def signExtendImm (value : BitVec 32) (bits : Nat) : BitVec 32 :=
  let mask : BitVec 32 := 1 <<< (bits - 1)
  (value ^^^ mask) - mask

def immGenerator (w : Instr) : BitVec 32 :=
  match Instr.opcode w with
  -- ALU immediates, loads, JALR, FENCE, FLW and FLD
  | 0b0010011#7 | 0b0000011#7 | 0b1100111#7 | 0b0001111#7 | 0b0000111#7 =>
    signExtendImm ((Instr.field w 20 12).setWidth 32) 12
  -- stores, FSW and FSD
  | 0b0100011#7 | 0b0100111#7 =>
    let imm : BitVec 32 := (Instr.field w 7 5).setWidth 32 ||| (Instr.field w 25 7).setWidth 32 <<< 5
    signExtendImm imm 12
  -- branches
  | 0b1100011#7 =>
    let imm : BitVec 32 := (Instr.field w 8 4).setWidth 32 |||
      (Instr.field w 25 6).setWidth 32 <<< 4 ||| (Instr.field w 7 1).setWidth 32 <<< 10 |||
      (Instr.field w 31 1).setWidth 32 <<< 11
    signExtendImm (imm <<< 1) 13
  -- LUI and AUIPC
  | 0b0110111#7 | 0b0010111#7 => (w &&& 0xFFFFF000#32) >>> 12
  -- JAL
  | 0b1101111#7 =>
    let imm : BitVec 32 := (Instr.field w 21 10).setWidth 32 |||
      (Instr.field w 20 1).setWidth 32 <<< 10 ||| (Instr.field w 12 8).setWidth 32 <<< 11 |||
      (Instr.field w 31 1).setWidth 32 <<< 19
    signExtendImm (imm <<< 1) 21
  | _ => 0

end RiscvSim
