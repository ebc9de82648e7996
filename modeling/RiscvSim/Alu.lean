import RiscvSim.Word

/-! The arithmetic unit. Integer operations are computed here; the values and
exception flags of floating-point operations are those of a parameter. -/

namespace RiscvSim

inductive AluOp where
  | kNone | kAdd | kAddw | kSub | kSubw | kMul | kMulh | kMulhsu | kMulhu | kMulw
  | kDiv | kDivw | kDivu | kDivuw | kRem | kRemw | kRemu | kRemuw
  | kAnd | kOr | kXor | kSll | kSllw | kSrl | kSrlw | kSra | kSraw | kSlt | kSltu
  | kFmadd_s | kFmsub_s | kFnmadd_s | kFnmsub_s
  | FADD_S | FSUB_S | FMUL_S | FDIV_S | FSQRT_S | FSGNJ_S | FSGNJN_S | FSGNJX_S
  | FMIN_S | FMAX_S | FEQ_S | FLT_S | FLE_S | FCLASS_S
  | FCVT_W_S | FCVT_WU_S | FCVT_L_S | FCVT_LU_S | FCVT_S_W | FCVT_S_WU | FCVT_S_L | FCVT_S_LU
  | FMV_X_W | FMV_W_X
  | FMADD_D | FMSUB_D | FNMADD_D | FNMSUB_D
  | FADD_D | FSUB_D | FMUL_D | FDIV_D | FSQRT_D | FSGNJ_D | FSGNJN_D | FSGNJX_D
  | FMIN_D | FMAX_D | FEQ_D | FLT_D | FLE_D | FCLASS_D
  | FCVT_W_D | FCVT_WU_D | FCVT_L_D | FCVT_LU_D | FCVT_D_W | FCVT_D_WU | FCVT_D_L | FCVT_D_LU
  | FCVT_S_D | FCVT_D_S | FMV_D_X | FMV_X_D
  deriving DecidableEq, Repr

namespace Alu

/-- A 32-bit result sign-extended to 64 bits. -/
def ofWord32 (x : BitVec 32) : Word := x.signExtend 64

/-- The high half of a 128-bit product. -/
def highHalf (p : BitVec 128) : Word := (p >>> 64).setWidth 64

def ofBool (b : Bool) : Word := if b then 1 else 0

/-- The result and the overflow flag. A division the host traps on is a fault. -/
def execute (op : AluOp) (a b : Word) : Except Fault (Word × Bool) :=
  let a32 : BitVec 32 := a.setWidth 32
  let b32 : BitVec 32 := b.setWidth 32
  match op with
  | .kAdd => .ok (a + b, BitVec.saddOverflow a b)
  | .kAddw => .ok (ofWord32 (a32 + b32), BitVec.saddOverflow a32 b32)
  | .kSub => .ok (a - b, BitVec.ssubOverflow a b)
  | .kSubw => .ok (ofWord32 (a32 - b32), BitVec.ssubOverflow a32 b32)
  | .kMul => .ok (a * b, BitVec.smulOverflow a b)
  | .kMulh => .ok (highHalf (a.signExtend 128 * b.signExtend 128), false)
  | .kMulhsu => .ok (highHalf (a.signExtend 128 * b.setWidth 128), false)
  | .kMulhu => .ok (highHalf (a.setWidth 128 * b.setWidth 128), false)
  | .kMulw =>
    let result : Word := a32.signExtend 64 * b32.signExtend 64
    .ok (ofWord32 (result.setWidth 32), result != ofWord32 (result.setWidth 32))
  | .kDiv =>
    if b = 0 then .ok (0, false)
    else if a = BitVec.intMin 64 ∧ b = -1 then .ok (BitVec.intMax 64, true)
    else .ok (a.sdiv b, false)
  | .kDivw =>
    if b32 = 0 then .ok (0, false)
    else if a32 = BitVec.intMin 32 ∧ b32 = -1 then .ok (ofWord32 (BitVec.intMin 32), true)
    else .ok (ofWord32 (a32.sdiv b32), false)
  | .kDivu => if b = 0 then .ok (0, false) else .ok (a / b, false)
  -- the guards below test the 64-bit divisor, the division uses its low half
  | .kDivuw =>
    if b = 0 then .ok (0, false)
    else if b32 = 0 then .error .divisionTrap
    else .ok ((a32 / b32).setWidth 64, false)
  | .kRem =>
    if b = 0 then .ok (0, false)
    else if a = BitVec.intMin 64 ∧ b = -1 then .error .divisionTrap
    else .ok (a.srem b, false)
  | .kRemw =>
    if b = 0 then .ok (0, false)
    else if b32 = 0 ∨ a32 = BitVec.intMin 32 ∧ b32 = -1 then .error .divisionTrap
    else .ok (ofWord32 (a32.srem b32), false)
  | .kRemu => if b = 0 then .ok (0, false) else .ok (a % b, false)
  | .kRemuw =>
    if b = 0 then .ok (0, false)
    else if b32 = 0 then .error .divisionTrap
    else .ok ((a32 % b32).setWidth 64, false)
  | .kAnd => .ok (a &&& b, false)
  | .kOr => .ok (a ||| b, false)
  | .kXor => .ok (a ^^^ b, false)
  | .kSll => .ok (a <<< (b &&& 63), false)
  | .kSllw => .ok (ofWord32 (a32 <<< (b32 &&& 31)), false)
  | .kSrl => .ok (a >>> (b &&& 63), false)
  | .kSrlw => .ok (ofWord32 (a32 >>> (b32 &&& 31)), false)
  | .kSra => .ok (a.sshiftRight' (b &&& 63), false)
  | .kSraw => .ok (ofWord32 (a32.sshiftRight' (b32 &&& 31)), false)
  | .kSlt => .ok (ofBool (a.slt b), false)
  | .kSltu => .ok (ofBool (a.ult b), false)
  | _ => .ok (0, false)

end Alu

/-- The rounding mode of the host's floating-point environment. -/
inductive HostRound where
  | toNearest | towardZero | downward | upward
  deriving DecidableEq, Repr

/-- `fesetround` for the `rm` values that have a host mode; others keep the mode. -/
def setRound (rm : Byte) (mode : HostRound) : HostRound :=
  match rm with
  | 0b000#8 => .toNearest
  | 0b001#8 => .towardZero
  | 0b010#8 => .downward
  | 0b011#8 => .upward
  | _ => mode

/-- The host's floating-point arithmetic: the register image and the exception
flags of an operation under a rounding mode, and the outcome of a comparison. -/
structure Fpu where
  single : AluOp → HostRound → Word → Word → Word → Word × Byte
  singleHolds : AluOp → Word → Word → Bool
  double : AluOp → HostRound → Word → Word → Word → Word × Byte
  doubleHolds : AluOp → Word → Word → Bool

namespace Fpu

/-- The arithmetic that answers zero, for examples. -/
def zero : Fpu where
  single := fun _ _ _ _ _ => (0, 0)
  singleHolds := fun _ _ _ => false
  double := fun _ _ _ _ _ => (0, 0)
  doubleHolds := fun _ _ _ => false

/-- The result and the flags of an operation and the mode it leaves behind: the
early returns of address sums, moves and true comparisons skip the final
`fesetround(original_rm)`. -/
def fpexecute (fpu : Fpu) (op : AluOp) (ina inb inc : Word) (rm : Byte) (mode : HostRound) :
    (Word × Byte) × HostRound :=
  let rounding := setRound rm mode
  match op with
  | .kAdd => ((ina + inb, 0), rounding)
  | .FMV_X_W => ((Alu.ofWord32 (ina.setWidth 32), 0), rounding)
  | .FEQ_S | .FLT_S | .FLE_S =>
    if fpu.singleHolds op ina inb then ((1, 0), rounding)
    else (fpu.single op rounding ina inb inc, mode)
  | _ => (fpu.single op rounding ina inb inc, mode)

def dfpexecute (fpu : Fpu) (op : AluOp) (ina inb inc : Word) (rm : Byte) (mode : HostRound) :
    (Word × Bool) × HostRound :=
  let rounding := setRound rm mode
  let answer := fpu.double op rounding ina inb inc
  match op with
  | .kAdd => ((ina + inb, false), rounding)
  | .FMV_D_X => ((ina, false), rounding)
  | .FEQ_D | .FLT_D | .FLE_D =>
    if fpu.doubleHolds op ina inb then ((1, false), rounding)
    else ((answer.1, answer.2 != 0), mode)
  | _ => ((answer.1, answer.2 != 0), mode)

end Fpu

end RiscvSim
