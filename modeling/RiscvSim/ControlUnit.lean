import RiscvSim.Alu
import RiscvSim.Instructions

/-! Control signals and the choice of the ALU operation. -/

namespace RiscvSim

structure ControlUnit where
  regWrite : Bool
  branch : Bool
  aluSrc : Bool
  memRead : Bool
  memWrite : Bool
  memToReg : Bool
  aluOp : Bool
  ldbmStart : Bool
  bigmulStart : Bool
  deriving DecidableEq, Repr

namespace ControlUnit

def reset : ControlUnit where
  regWrite := false
  branch := false
  aluSrc := false
  memRead := false
  memWrite := false
  memToReg := false
  aluOp := false
  ldbmStart := false
  bigmulStart := false

def setControlSignals (w : Instr) : ControlUnit :=
  match w.opcode with
  | 0b0110011#7 => { reset with regWrite := true, aluOp := true }
  | 0b0101010#7 => { reset with memRead := true, ldbmStart := true }
  | 0b0111111#7 => { reset with bigmulStart := true }
  | 0b0000011#7 => { reset with aluSrc := true, memToReg := true, regWrite := true, memRead := true }
  | 0b0100011#7 => { reset with aluSrc := true, aluOp := true, memWrite := true }
  | 0b1100011#7 => { reset with aluOp := true, branch := true }
  | 0b0010011#7 => { reset with aluSrc := true, regWrite := true, aluOp := true }
  | 0b0110111#7 => { reset with aluSrc := true, regWrite := true, aluOp := true }
  | 0b0010111#7 => { reset with aluSrc := true, regWrite := true, aluOp := true }
  | 0b1101111#7 => { reset with regWrite := true, branch := true }
  | 0b1100111#7 => { reset with aluSrc := true, regWrite := true, branch := true }
  | 0b0000001#7 => { reset with regWrite := true, aluOp := true }
  | 0b0000111#7 => { reset with aluSrc := true, memToReg := true, regWrite := true, memRead := true }
  | 0b0100111#7 => { reset with aluSrc := true, aluOp := true, memWrite := true }
  | 0b1010011#7 => { reset with regWrite := true, aluOp := true }
  | _ => reset

/-- The operations of opcode `0110011` by `funct3` and `funct7`. -/
def aluSignalR (funct3 : BitVec 3) (funct7 : BitVec 7) : AluOp :=
  match funct3, funct7 with
  | 0b000#3, 0b0000000#7 => .kAdd
  | 0b000#3, 0b0100000#7 => .kSub
  | 0b000#3, 0b0000001#7 => .kMul
  | 0b001#3, 0b0000000#7 => .kSll
  | 0b001#3, 0b0000001#7 => .kMulh
  | 0b010#3, 0b0000000#7 => .kSlt
  | 0b010#3, 0b0000001#7 => .kMulhsu
  | 0b011#3, 0b0000000#7 => .kSltu
  | 0b011#3, 0b0000001#7 => .kMulhu
  | 0b100#3, 0b0000000#7 => .kXor
  | 0b100#3, 0b0000001#7 => .kDiv
  | 0b101#3, 0b0000000#7 => .kSrl
  | 0b101#3, 0b0100000#7 => .kSra
  | 0b101#3, 0b0000001#7 => .kDivu
  | 0b110#3, 0b0000000#7 => .kOr
  | 0b110#3, 0b0000001#7 => .kRem
  | 0b111#3, 0b0000000#7 => .kAnd
  | 0b111#3, 0b0000001#7 => .kRemu
  | _, _ => .kNone

/-- The operations of opcode `0010011`. -/
def aluSignalI (funct3 : BitVec 3) (funct7 : BitVec 7) : AluOp :=
  match funct3 with
  | 0b000#3 => .kAdd
  | 0b001#3 => .kSll
  | 0b010#3 => .kSlt
  | 0b011#3 => .kSltu
  | 0b100#3 => .kXor
  | 0b101#3 => match funct7 with
    | 0b0000000#7 => .kSrl
    | 0b0100000#7 => .kSra
    | _ => .kNone
  | 0b110#3 => .kOr
  | _ => .kAnd

/-- The comparisons of opcode `1100011`. -/
def aluSignalB (funct3 : BitVec 3) : AluOp :=
  match funct3 with
  | 0b000#3 | 0b001#3 => .kSub
  | 0b100#3 | 0b101#3 => .kSlt
  | 0b110#3 | 0b111#3 => .kSltu
  | _ => .kNone

/-- The operations of opcode `0011011`. -/
def aluSignalIW (funct3 : BitVec 3) (funct7 : BitVec 7) : AluOp :=
  match funct3, funct7 with
  | 0b000#3, _ => .kAddw
  | 0b001#3, _ => .kSllw
  | 0b101#3, 0b0000000#7 => .kSrlw
  | 0b101#3, 0b0100000#7 => .kSraw
  | _, _ => .kNone

/-- The operations of opcode `0111011`. -/
def aluSignalRW (funct3 : BitVec 3) (funct7 : BitVec 7) : AluOp :=
  match funct3, funct7 with
  | 0b000#3, 0b0000000#7 => .kAddw
  | 0b000#3, 0b0100000#7 => .kSubw
  | 0b000#3, 0b0000001#7 => .kMulw
  | 0b001#3, _ => .kSllw
  | 0b100#3, 0b0000001#7 => .kDivw
  | 0b101#3, 0b0000000#7 => .kSrlw
  | 0b101#3, 0b0100000#7 => .kSraw
  | 0b101#3, 0b0000001#7 => .kDivuw
  | 0b110#3, 0b0000001#7 => .kRemw
  | 0b111#3, 0b0000001#7 => .kRemuw
  | _, _ => .kNone

/-- One of the four conversions that `rs2` chooses. -/
def ofConversion (funct5 : BitVec 5) (toW toWU toL toLU : AluOp) : AluOp :=
  match funct5 with
  | 0b00000#5 => toW
  | 0b00001#5 => toWU
  | 0b00010#5 => toL
  | 0b00011#5 => toLU
  | _ => .kNone

/-- One of the operations that `funct3` chooses. -/
def ofFunct3 (funct3 : BitVec 3) (op0 op1 op2 : AluOp) : AluOp :=
  match funct3 with
  | 0b000#3 => op0
  | 0b001#3 => op1
  | 0b010#3 => op2
  | _ => .kNone

/-- The operations of opcode `1010011`. The source also lists the fused
multiply-add opcodes among the `funct7` values; their inner switch on the low two
bits of the same `funct7` has no matching case. -/
def aluSignalFD (funct3 : BitVec 3) (funct5 : BitVec 5) (funct7 : BitVec 7) : AluOp :=
  match funct7 with
  | 0b0000000#7 => .FADD_S
  | 0b0000001#7 => .FADD_D
  | 0b0000100#7 => .FSUB_S
  | 0b0000101#7 => .FSUB_D
  | 0b0001000#7 => .FMUL_S
  | 0b0001001#7 => .FMUL_D
  | 0b0001100#7 => .FDIV_S
  | 0b0001101#7 => .FDIV_D
  | 0b0101100#7 => .FSQRT_S
  | 0b0101101#7 => .FSQRT_D
  | 0b1100000#7 => ofConversion funct5 .FCVT_W_S .FCVT_WU_S .FCVT_L_S .FCVT_LU_S
  | 0b1100001#7 => ofConversion funct5 .FCVT_W_D .FCVT_WU_D .FCVT_L_D .FCVT_LU_D
  | 0b1101000#7 => ofConversion funct5 .FCVT_S_W .FCVT_S_WU .FCVT_S_L .FCVT_S_LU
  | 0b1101001#7 => ofConversion funct5 .FCVT_D_W .FCVT_D_WU .FCVT_D_L .FCVT_D_LU
  | 0b0010000#7 => ofFunct3 funct3 .FSGNJ_S .FSGNJN_S .FSGNJX_S
  | 0b0010001#7 => ofFunct3 funct3 .FSGNJ_D .FSGNJN_D .FSGNJX_D
  | 0b0010100#7 => ofFunct3 funct3 .FMIN_S .FMAX_S .kNone
  | 0b0010101#7 => ofFunct3 funct3 .FMIN_D .FMAX_D .kNone
  | 0b1010000#7 => ofFunct3 funct3 .FLE_S .FLT_S .FEQ_S
  | 0b1010001#7 => ofFunct3 funct3 .FLE_D .FLT_D .FEQ_D
  | 0b1111000#7 => .FMV_W_X
  | 0b1111001#7 => .FMV_D_X
  | 0b1110000#7 => ofFunct3 funct3 .FMV_X_W .FCLASS_S .kNone
  | 0b1110001#7 => ofFunct3 funct3 .FMV_X_D .FCLASS_D .kNone
  | _ => .kNone

/-- `GetAluSignal` ignores its `ALUOp` argument. -/
def getAluSignal (w : Instr) : AluOp :=
  match w.opcode with
  | 0b0110011#7 => aluSignalR w.funct3 w.funct7
  | 0b0010011#7 => aluSignalI w.funct3 w.funct7
  | 0b1100011#7 => aluSignalB w.funct3
  | 0b0000011#7 | 0b0100011#7 | 0b1100111#7 | 0b1101111#7 | 0b0110111#7 | 0b0010111#7 => .kAdd
  | 0b0011011#7 => aluSignalIW w.funct3 w.funct7
  | 0b0111011#7 => aluSignalRW w.funct3 w.funct7
  | 0b1000011#7 => .kFmadd_s
  | 0b1010011#7 => aluSignalFD w.funct3 w.funct5 w.funct7
  | 0b0000111#7 | 0b0100111#7 => match w.funct3 with
    | 0b010#3 | 0b011#3 => .kAdd
    | _ => .kNone
  | _ => .kNone

end ControlUnit

end RiscvSim
