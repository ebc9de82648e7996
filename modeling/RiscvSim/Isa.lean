import RiscvSim.Division
import RiscvSim.IntegerInstructions
import RiscvSim.LoadsStores

/-! The 64-bit instructions of the base integer set and of the M extension as the architecture has
them: their words, and what they do to a hart. -/

namespace RiscvSim

/-- The element of a list with a given code. -/
def ofCode {α β : Type} [DecidableEq β] (code : α → β) (all : List α) (c : β) : Option α :=
  all.find? fun a => code a = c

theorem ofCode_eq_some_iff {α β : Type} [DecidableEq β] {code : α → β} {all : List α} {a : α} {c : β}
    (hall : ∀ a, a ∈ all) (hinjective : ∀ a ∈ all, ∀ b ∈ all, code a = code b → a = b) :
    ofCode code all c = some a ↔ code a = c := by
  constructor
  · intro h
    simpa using List.find?_some h
  · intro h
    cases hfind : ofCode code all c with
    | none =>
      have hne := List.find?_eq_none.mp hfind a (hall a)
      simp [h] at hne
    | some b =>
      have hb : code b = c := by simpa using List.find?_some hfind
      rw [hinjective b (hall b) a (hall a) (hb.trans h.symm)]

namespace RegisterOp

def funct3 : RegisterOp → BitVec 3
  | add | sub | mul => 0b000
  | sll | mulh => 0b001
  | slt | mulhsu => 0b010
  | sltu | mulhu => 0b011
  | xor => 0b100
  | srl | sra => 0b101
  | or => 0b110
  | and => 0b111

def funct7 : RegisterOp → BitVec 7
  | sub | sra => 0b0100000
  | mul | mulh | mulhsu | mulhu => 0b0000001
  | _ => 0b0000000

def all : List RegisterOp :=
  [add, sub, and, or, xor, sll, srl, sra, slt, sltu, mul, mulh, mulhsu, mulhu]

def ofFields (funct3 : BitVec 3) (funct7 : BitVec 7) : Option RegisterOp :=
  ofCode (fun op => (op.funct3, op.funct7)) all (funct3, funct7)

theorem ofFields_eq_some_iff {op : RegisterOp} {f3 : BitVec 3} {f7 : BitVec 7} :
    ofFields f3 f7 = some op ↔ op.funct3 = f3 ∧ op.funct7 = f7 := by
  rw [ofFields, ofCode_eq_some_iff (fun op => by cases op <;> decide) (by decide), Prod.mk.injEq]

end RegisterOp

/-- The divisions of 64-bit integers. -/
inductive QuotientOp where
  | div | divu | rem | remu
  deriving DecidableEq, Repr

namespace QuotientOp

def mnemonic : QuotientOp → String
  | div => "div"
  | divu => "divu"
  | rem => "rem"
  | remu => "remu"

def divOp : QuotientOp → DivOp
  | div => .div
  | divu => .divu
  | rem => .rem
  | remu => .remu

def funct3 : QuotientOp → BitVec 3
  | div => 0b100
  | divu => 0b101
  | rem => 0b110
  | remu => 0b111

def ofFunct3 (f3 : BitVec 3) : Option QuotientOp := ofCode funct3 [div, divu, rem, remu] f3

theorem ofFunct3_eq_some_iff {op : QuotientOp} {f3 : BitVec 3} :
    ofFunct3 f3 = some op ↔ op.funct3 = f3 :=
  ofCode_eq_some_iff (fun op => by cases op <;> decide) (by decide)

end QuotientOp

namespace ImmediateOp

def funct3 : ImmediateOp → BitVec 3
  | addi => 0b000
  | slti => 0b010
  | sltiu => 0b011
  | xori => 0b100
  | ori => 0b110
  | andi => 0b111

def ofFunct3 (f3 : BitVec 3) : Option ImmediateOp :=
  ofCode funct3 [addi, xori, ori, andi, slti, sltiu] f3

theorem ofFunct3_eq_some_iff {op : ImmediateOp} {f3 : BitVec 3} :
    ofFunct3 f3 = some op ↔ op.funct3 = f3 :=
  ofCode_eq_some_iff (fun op => by cases op <;> decide) (by decide)

end ImmediateOp

namespace ShiftOp

def ofFields (f3 : BitVec 3) (f6 : BitVec 6) : Option ShiftOp :=
  ofCode (fun op => (op.funct3, op.funct6)) [slli, srli, srai] (f3, f6)

theorem ofFields_eq_some_iff {op : ShiftOp} {f3 : BitVec 3} {f6 : BitVec 6} :
    ofFields f3 f6 = some op ↔ op.funct3 = f3 ∧ op.funct6 = f6 := by
  rw [ofFields, ofCode_eq_some_iff (fun op => by cases op <;> decide) (by decide), Prod.mk.injEq]

end ShiftOp

namespace UpperOp

def opcode : UpperOp → BitVec 7
  | lui => 0b0110111#7
  | auipc => 0b0010111#7

end UpperOp

namespace LoadOp

def mnemonic : LoadOp → String
  | lb => "lb"
  | lh => "lh"
  | lw => "lw"
  | ld => "ld"
  | lbu => "lbu"
  | lhu => "lhu"
  | lwu => "lwu"

def ofFunct3 (f3 : BitVec 3) : Option LoadOp := ofCode funct3 [lb, lh, lw, ld, lbu, lhu, lwu] f3

theorem ofFunct3_eq_some_iff {op : LoadOp} {f3 : BitVec 3} :
    ofFunct3 f3 = some op ↔ op.funct3 = f3 :=
  ofCode_eq_some_iff (fun op => by cases op <;> decide) (by decide)

end LoadOp

namespace StoreOp

def mnemonic : StoreOp → String
  | sb => "sb"
  | sh => "sh"
  | sw => "sw"
  | sd => "sd"

def ofFunct3 (f3 : BitVec 3) : Option StoreOp := ofCode funct3 [sb, sh, sw, sd] f3

theorem ofFunct3_eq_some_iff {op : StoreOp} {f3 : BitVec 3} :
    ofFunct3 f3 = some op ↔ op.funct3 = f3 :=
  ofCode_eq_some_iff (fun op => by cases op <;> decide) (by decide)

end StoreOp

inductive BranchOp where
  | beq | bne | blt | bge | bltu | bgeu
  deriving DecidableEq, Repr

namespace BranchOp

def mnemonic : BranchOp → String
  | beq => "beq"
  | bne => "bne"
  | blt => "blt"
  | bge => "bge"
  | bltu => "bltu"
  | bgeu => "bgeu"

def funct3 : BranchOp → BitVec 3
  | beq => 0b000
  | bne => 0b001
  | blt => 0b100
  | bge => 0b101
  | bltu => 0b110
  | bgeu => 0b111

/-- The comparison, of signed or of unsigned integers. -/
def taken (op : BranchOp) (x y : Word) : Bool :=
  match op with
  | beq => x = y
  | bne => x ≠ y
  | blt => x.toInt < y.toInt
  | bge => y.toInt ≤ x.toInt
  | bltu => x.toNat < y.toNat
  | bgeu => y.toNat ≤ x.toNat

def ofFunct3 (f3 : BitVec 3) : Option BranchOp := ofCode funct3 [beq, bne, blt, bge, bltu, bgeu] f3

theorem ofFunct3_eq_some_iff {op : BranchOp} {f3 : BitVec 3} :
    ofFunct3 f3 = some op ↔ op.funct3 = f3 :=
  ofCode_eq_some_iff (fun op => by cases op <;> decide) (by decide)

end BranchOp

namespace Instr

variable (w : Instr)

def immI : BitVec 12 := field w 20 12

def immS : BitVec 12 := field w 25 7 ++ field w 7 5

def immU : BitVec 20 := field w 12 20

/-- The offset of a branch in halfwords. -/
def immB : BitVec 12 := field w 31 1 ++ field w 7 1 ++ field w 25 6 ++ field w 8 4

/-- The offset of a jump in halfwords. -/
def immJ : BitVec 20 := field w 31 1 ++ field w 12 8 ++ field w 20 1 ++ field w 21 10

/-- Neighbouring fields are one field. -/
theorem field_append {low high m n : Nat} (h : high = low + n) :
    field w high m ++ field w low n = field w low (m + n) := by
  apply BitVec.eq_of_toNat_eq
  rw [append_toNat, field_toNat, field_toNat, field_toNat, h, Nat.pow_add, Nat.add_comm m n,
    Nat.pow_add, Nat.mod_mul, Nat.div_div_eq_div_mul, Nat.mul_comm, Nat.add_comm]

theorem field_all : field w 0 32 = w := BitVec.extractLsb'_eq_self

theorem rType_fields : rType w.funct7 w.rs2 w.rs1 w.funct3 w.rd w.opcode = w := by
  simp (disch := decide) only [rType, funct7, rs2, rs1, funct3, rd, opcode, field_append]
  exact w.field_all

theorem iType_fields : iType w.immI w.rs1 w.funct3 w.rd w.opcode = w := by
  simp (disch := decide) only [iType, immI, rs1, funct3, rd, opcode, field_append]
  exact w.field_all

theorem sType_fields : sType w.immS w.rs2 w.rs1 w.funct3 w.opcode = w := by
  have hparts : w.immS.extractLsb' 5 7 = field w 25 7 ∧ w.immS.extractLsb' 0 5 = field w 7 5 := by
    constructor <;>
      simp (disch := decide) only [immS, BitVec.extractLsb'_append_eq_of_le,
        BitVec.extractLsb'_append_eq_of_add_le, BitVec.extractLsb'_eq_self, Nat.reduceSub]
  obtain ⟨h₁, h₂⟩ := hparts
  simp (disch := decide) only [sType, h₁, h₂, rs2, rs1, funct3, opcode, field_append]
  exact w.field_all

theorem uType_fields : uType w.immU w.rd w.opcode = w := by
  simp (disch := decide) only [uType, immU, rd, opcode, field_append]
  exact w.field_all

theorem bType_fields : bType w.immB w.rs2 w.rs1 w.funct3 w.opcode = w := by
  have hparts : w.immB.extractLsb' 11 1 = field w 31 1 ∧ w.immB.extractLsb' 4 6 = field w 25 6 ∧
      w.immB.extractLsb' 0 4 = field w 8 4 ∧ w.immB.extractLsb' 10 1 = field w 7 1 := by
    refine ⟨?_, ?_, ?_, ?_⟩ <;>
      simp (disch := decide) only [immB, BitVec.extractLsb'_append_eq_of_le,
        BitVec.extractLsb'_append_eq_of_add_le, BitVec.extractLsb'_eq_self, Nat.reduceSub]
  obtain ⟨h₁, h₂, h₃, h₄⟩ := hparts
  simp (disch := decide) only [bType, h₁, h₂, h₃, h₄, rs2, rs1, funct3, opcode, field_append]
  exact w.field_all

theorem jType_fields : jType w.immJ w.rd w.opcode = w := by
  have hparts : w.immJ.extractLsb' 19 1 = field w 31 1 ∧ w.immJ.extractLsb' 0 10 = field w 21 10 ∧
      w.immJ.extractLsb' 10 1 = field w 20 1 ∧ w.immJ.extractLsb' 11 8 = field w 12 8 := by
    refine ⟨?_, ?_, ?_, ?_⟩ <;>
      simp (disch := decide) only [immJ, BitVec.extractLsb'_append_eq_of_le,
        BitVec.extractLsb'_append_eq_of_add_le, BitVec.extractLsb'_eq_self, Nat.reduceSub]
  obtain ⟨h₁, h₂, h₃, h₄⟩ := hparts
  simp (disch := decide) only [jType, h₁, h₂, h₃, h₄, rd, opcode, field_append]
  exact w.field_all

theorem immS_sType (imm : BitVec 12) (rs2 rs1 : BitVec 5) (funct3 : BitVec 3) (op : BitVec 7) :
    (sType imm rs2 rs1 funct3 op).immS = imm := by
  have hparts : field (sType imm rs2 rs1 funct3 op) 25 7 = imm.extractLsb' 5 7 ∧
      field (sType imm rs2 rs1 funct3 op) 7 5 = imm.extractLsb' 0 5 := by
    constructor <;>
      simp (disch := decide) only [field, sType, BitVec.extractLsb'_append_eq_of_le,
        BitVec.extractLsb'_append_eq_of_add_le, BitVec.extractLsb'_eq_self, Nat.reduceSub]
  have himm := imm.isLt
  apply BitVec.eq_of_toNat_eq
  simp only [immS, hparts, append_toNat, BitVec.extractLsb'_toNat, Nat.shiftRight_eq_div_pow]
  omega

theorem immB_bType (half : BitVec 12) (rs2 rs1 : BitVec 5) (funct3 : BitVec 3) (op : BitVec 7) :
    (bType half rs2 rs1 funct3 op).immB = half := by
  obtain ⟨h₁, h₂, h₃, h₄⟩ := bType_parts op rs2 rs1 funct3 half
  have hhalf := half.isLt
  apply BitVec.eq_of_toNat_eq
  simp only [immB, h₁, h₂, h₃, h₄, append_toNat, BitVec.extractLsb'_toNat,
    Nat.shiftRight_eq_div_pow]
  omega

theorem immJ_jType (half : BitVec 20) (rd : BitVec 5) (op : BitVec 7) :
    (jType half rd op).immJ = half := by
  obtain ⟨h₁, h₂, h₃, h₄⟩ := jType_parts op rd half
  have hhalf := half.isLt
  apply BitVec.eq_of_toNat_eq
  simp only [immJ, h₁, h₂, h₃, h₄, append_toNat, BitVec.extractLsb'_toNat,
    Nat.shiftRight_eq_div_pow]
  omega

theorem immI_parts : field w 26 6 ++ field w 20 6 = w.immI := w.field_append rfl

end Instr

/-- An instruction; the offset of a branch or a jump is given in halfwords. -/
inductive Instruction where
  | register (op : RegisterOp) (rd rs1 rs2 : RegIndex)
  | divide (op : QuotientOp) (rd rs1 rs2 : RegIndex)
  | immediate (op : ImmediateOp) (rd rs1 : RegIndex) (imm : BitVec 12)
  | shift (op : ShiftOp) (rd rs1 : RegIndex) (shamt : BitVec 6)
  | upper (op : UpperOp) (rd : RegIndex) (imm : BitVec 20)
  | load (op : LoadOp) (rd rs1 : RegIndex) (imm : BitVec 12)
  | store (op : StoreOp) (rs2 rs1 : RegIndex) (imm : BitVec 12)
  | branch (op : BranchOp) (rs1 rs2 : RegIndex) (half : BitVec 12)
  | jal (rd : RegIndex) (half : BitVec 20)
  | jalr (rd rs1 : RegIndex) (imm : BitVec 12)
  deriving DecidableEq, Repr

theorem QuotientOp.not_register (op : QuotientOp) :
    RegisterOp.ofFields op.funct3 0b0000001#7 = none := by
  cases op <;> decide

theorem ImmediateOp.not_shift (op : ImmediateOp) (f6 : BitVec 6) :
    ShiftOp.ofFields op.funct3 f6 = none := by
  cases h : ShiftOp.ofFields op.funct3 f6 with
  | none => rfl
  | some shift =>
    have h3 := (ShiftOp.ofFields_eq_some_iff.mp h).1
    cases op <;> cases shift <;> cases h3

theorem ShiftOp.word_fields (op : ShiftOp) (rd rs1 : RegIndex) (shamt : BitVec 6) :
    Instr.field (op.word rd rs1 shamt) 26 6 = op.funct6 ∧
      Instr.field (op.word rd rs1 shamt) 20 6 = shamt := by
  constructor <;>
    simp (disch := decide) only [Instr.field, ShiftOp.word, Instr.iType,
      BitVec.extractLsb'_append_eq_of_le, BitVec.extractLsb'_append_eq_of_add_le,
      BitVec.extractLsb'_eq_self, Nat.reduceSub]

namespace Instruction

def word : Instruction → Instr
  | register op rd rs1 rs2 => Instr.rType op.funct7 rs2 rs1 op.funct3 rd 0b0110011#7
  | divide op rd rs1 rs2 => Instr.rType 0b0000001#7 rs2 rs1 op.funct3 rd 0b0110011#7
  | immediate op rd rs1 imm => Instr.iType imm rs1 op.funct3 rd 0b0010011#7
  | shift op rd rs1 shamt => op.word rd rs1 shamt
  | upper op rd imm => Instr.uType imm rd op.opcode
  | load op rd rs1 imm => op.word rd rs1 imm
  | store op rs2 rs1 imm => op.word rs2 rs1 imm
  | branch op rs1 rs2 half => Instr.bType half rs2 rs1 op.funct3 0b1100011#7
  | jal rd half => Instr.jType half rd 0b1101111#7
  | jalr rd rs1 imm => Instr.iType imm rs1 0b000#3 rd 0b1100111#7

/-- The instruction of a word, if the word is one of these instructions. -/
def decode (w : Instr) : Option Instruction :=
  match w.opcode with
  | 0b0110011#7 =>
    match RegisterOp.ofFields w.funct3 w.funct7 with
    | some op => some (.register op w.rd w.rs1 w.rs2)
    | none => if w.funct7 = 0b0000001#7 then
        (QuotientOp.ofFunct3 w.funct3).map (divide · w.rd w.rs1 w.rs2)
      else none
  | 0b0010011#7 =>
    match ShiftOp.ofFields w.funct3 (Instr.field w 26 6) with
    | some op => some (.shift op w.rd w.rs1 (Instr.field w 20 6))
    | none => (ImmediateOp.ofFunct3 w.funct3).map (immediate · w.rd w.rs1 w.immI)
  | 0b0110111#7 => some (.upper .lui w.rd w.immU)
  | 0b0010111#7 => some (.upper .auipc w.rd w.immU)
  | 0b0000011#7 => (LoadOp.ofFunct3 w.funct3).map (load · w.rd w.rs1 w.immI)
  | 0b0100011#7 => (StoreOp.ofFunct3 w.funct3).map (store · w.rs2 w.rs1 w.immS)
  | 0b1100011#7 => (BranchOp.ofFunct3 w.funct3).map (branch · w.rs1 w.rs2 w.immB)
  | 0b1101111#7 => some (.jal w.rd w.immJ)
  | 0b1100111#7 => if w.funct3 = 0b000#3 then some (.jalr w.rd w.rs1 w.immI) else none
  | _ => none

/-- A word is that of at most one instruction, and decoding finds it. -/
theorem decode_eq_some_iff {w : Instr} {i : Instruction} : decode w = some i ↔ i.word = w := by
  constructor
  · intro h
    unfold decode at h
    split at h
    case h_1 hop =>
      split at h
      case h_1 op hfields =>
        obtain rfl := Option.some.inj h
        obtain ⟨h3, h7⟩ := RegisterOp.ofFields_eq_some_iff.mp hfields
        rw [word, h3, h7, ← hop, w.rType_fields]
      case h_2 =>
        split at h
        case isTrue h7 =>
          obtain ⟨op, h3, rfl⟩ := Option.map_eq_some_iff.mp h
          rw [word, QuotientOp.ofFunct3_eq_some_iff.mp h3, ← h7, ← hop, w.rType_fields]
        case isFalse => cases h
    case h_2 hop =>
      split at h
      case h_1 op hfields =>
        obtain rfl := Option.some.inj h
        obtain ⟨h3, h6⟩ := ShiftOp.ofFields_eq_some_iff.mp hfields
        rw [word, ShiftOp.word, h3, h6, w.immI_parts, ← hop, w.iType_fields]
      case h_2 =>
        obtain ⟨op, h3, rfl⟩ := Option.map_eq_some_iff.mp h
        rw [word, ImmediateOp.ofFunct3_eq_some_iff.mp h3, ← hop, w.iType_fields]
    case h_3 hop =>
      obtain rfl := Option.some.inj h
      rw [word, UpperOp.opcode, ← hop, w.uType_fields]
    case h_4 hop =>
      obtain rfl := Option.some.inj h
      rw [word, UpperOp.opcode, ← hop, w.uType_fields]
    case h_5 hop =>
      obtain ⟨op, h3, rfl⟩ := Option.map_eq_some_iff.mp h
      rw [word, LoadOp.word, LoadOp.ofFunct3_eq_some_iff.mp h3, ← hop, w.iType_fields]
    case h_6 hop =>
      obtain ⟨op, h3, rfl⟩ := Option.map_eq_some_iff.mp h
      rw [word, StoreOp.word, StoreOp.ofFunct3_eq_some_iff.mp h3, ← hop, w.sType_fields]
    case h_7 hop =>
      obtain ⟨op, h3, rfl⟩ := Option.map_eq_some_iff.mp h
      rw [word, BranchOp.ofFunct3_eq_some_iff.mp h3, ← hop, w.bType_fields]
    case h_8 hop =>
      obtain rfl := Option.some.inj h
      rw [word, ← hop, w.jType_fields]
    case h_9 hop =>
      split at h
      case isTrue h3 =>
        obtain rfl := Option.some.inj h
        rw [word, ← h3, ← hop, w.iType_fields]
      case isFalse => cases h
    case h_10 => cases h
  · rintro rfl
    cases i with
    | register op rd rs1 rs2 =>
      have hop := RegisterOp.ofFields_eq_some_iff.mpr (And.intro (Eq.refl op.funct3) rfl)
      simp [decode, word, hop]
    | divide op rd rs1 rs2 =>
      simp [decode, word, op.not_register, QuotientOp.ofFunct3_eq_some_iff.mpr (Eq.refl op.funct3)]
    | immediate op rd rs1 imm =>
      have himm : (Instr.iType imm rs1 op.funct3 rd 0b0010011#7).immI = imm := Instr.iType_imm ..
      simp [decode, word, op.not_shift, himm,
        ImmediateOp.ofFunct3_eq_some_iff.mpr (Eq.refl op.funct3)]
    | shift op rd rs1 shamt =>
      have hop := ShiftOp.ofFields_eq_some_iff.mpr (And.intro (Eq.refl op.funct3) rfl)
      obtain ⟨h6, hshamt⟩ := op.word_fields rd rs1 shamt
      have hopcode : (op.word rd rs1 shamt).opcode = 0b0010011#7 := Instr.iType_opcode ..
      have hrd : (op.word rd rs1 shamt).rd = rd := Instr.iType_rd ..
      have hrs1 : (op.word rd rs1 shamt).rs1 = rs1 := Instr.iType_rs1 ..
      have hfunct3 : (op.word rd rs1 shamt).funct3 = op.funct3 := Instr.iType_funct3 ..
      simp [decode, word, hopcode, hfunct3, h6, hshamt, hop, hrd, hrs1]
    | upper op rd imm =>
      have himm (op : BitVec 7) : (Instr.uType imm rd op).immU = imm := by
        simp (disch := decide) only [Instr.immU, Instr.field, Instr.uType,
          BitVec.extractLsb'_append_eq_of_le, BitVec.extractLsb'_eq_self, Nat.reduceSub]
      cases op <;> simp [decode, word, UpperOp.opcode, himm]
    | load op rd rs1 imm =>
      have himm : (op.word rd rs1 imm).immI = imm := Instr.iType_imm ..
      have hopcode : (op.word rd rs1 imm).opcode = 0b0000011#7 := Instr.iType_opcode ..
      have hrd : (op.word rd rs1 imm).rd = rd := Instr.iType_rd ..
      have hrs1 : (op.word rd rs1 imm).rs1 = rs1 := Instr.iType_rs1 ..
      have hfunct3 : (op.word rd rs1 imm).funct3 = op.funct3 := Instr.iType_funct3 ..
      simp [decode, word, hopcode, hfunct3, himm, hrd, hrs1,
        LoadOp.ofFunct3_eq_some_iff.mpr (Eq.refl op.funct3)]
    | store op rs2 rs1 imm =>
      have himm : (op.word rs2 rs1 imm).immS = imm := Instr.immS_sType ..
      have hopcode : (op.word rs2 rs1 imm).opcode = 0b0100011#7 := Instr.sType_opcode ..
      have hrs2 : (op.word rs2 rs1 imm).rs2 = rs2 := Instr.sType_rs2 ..
      have hrs1 : (op.word rs2 rs1 imm).rs1 = rs1 := Instr.sType_rs1 ..
      have hfunct3 : (op.word rs2 rs1 imm).funct3 = op.funct3 := Instr.sType_funct3 ..
      simp [decode, word, hopcode, hfunct3, himm, hrs1, hrs2,
        StoreOp.ofFunct3_eq_some_iff.mpr (Eq.refl op.funct3)]
    | branch op rs1 rs2 half =>
      simp [decode, word, Instr.immB_bType, BranchOp.ofFunct3_eq_some_iff.mpr (Eq.refl op.funct3)]
    | jal rd half => simp [decode, word, Instr.immJ_jType]
    | jalr rd rs1 imm =>
      have himm : (Instr.iType imm rs1 0b000#3 rd 0b1100111#7).immI = imm := Instr.iType_imm ..
      simp [decode, word, himm]

end Instruction

/-- A hart: the program counter, the registers and the memory. -/
@[ext] structure Hart where
  pc : Word
  x : RegIndex → Word
  memory : Memory
  x_zero : x 0 = 0

namespace Hart

def set (h : Hart) (rd : RegIndex) (value : Word) : Hart :=
  { h with
    x := fun r => if r = rd ∧ r ≠ 0 then value else h.x r
    x_zero := (if_neg fun hzero => hzero.2 rfl).trans h.x_zero }

def next (h : Hart) : Hart := { h with pc := h.pc + 4 }

/-- A transfer of control to an address that is no multiple of four raises an exception. -/
def jump (h : Hart) (target : Word) : Option Hart :=
  if target.toNat % 4 = 0 then some { h with pc := target } else none

def address (h : Hart) (rs1 : RegIndex) (imm : BitVec 12) : Word := h.x rs1 + imm.signExtend 64

/-- An instruction on a hart; `none` is an exception. -/
def exec (h : Hart) : Instruction → Option Hart
  | .register op rd rs1 rs2 => some (h.set rd (op.value (h.x rs1) (h.x rs2))).next
  | .divide op rd rs1 rs2 => some (h.set rd (op.divOp.value (h.x rs1) (h.x rs2))).next
  | .immediate op rd rs1 imm => some (h.set rd (op.registerOp.value (h.x rs1) (imm.signExtend 64))).next
  | .shift op rd rs1 shamt => some (h.set rd (op.value (h.x rs1) shamt)).next
  | .upper op rd imm => some (h.set rd (op.value h.pc imm.toInt)).next
  | .load op rd rs1 imm =>
    if h.memory.InRange (h.address rs1 imm) op.bytes then
      some (h.set rd (op.extend (h.memory.load (h.address rs1 imm) 64 op.bytes))).next
    else none
  | .store op rs2 rs1 imm =>
    if h.memory.InRange (h.address rs1 imm) op.bytes then
      some { h with memory := h.memory.store (h.address rs1 imm) (h.x rs2) op.bytes }.next
    else none
  | .branch op rs1 rs2 half =>
    if op.taken (h.x rs1) (h.x rs2) then h.jump (h.pc + (half ++ 0#1).signExtend 64)
    else some h.next
  | .jal rd half => (h.set rd (h.pc + 4)).jump (h.pc + (half ++ 0#1).signExtend 64)
  | .jalr rd rs1 imm => (h.set rd (h.pc + 4)).jump (h.address rs1 imm &&& ~~~1)

/-- The instruction at the program counter, in a program that ends at `size`. -/
def fetch (size : Word) (h : Hart) : Option Instruction :=
  if h.pc < size ∧ h.memory.InRange h.pc 4 then Instruction.decode (h.memory.load h.pc 32 4)
  else none

variable {h h' : Hart} {rd rs1 rs2 : RegIndex} {imm : BitVec 12} {target : Word}

theorem jump_eq_some_iff :
    h.jump target = some h' ↔ target.toNat % 4 = 0 ∧ h' = { h with pc := target } := by
  by_cases ht : target.toNat % 4 = 0
  · simp [jump, ht, eq_comm]
  · simp [jump, ht]

theorem exec_load_eq_some_iff {op : LoadOp} : h.exec (.load op rd rs1 imm) = some h' ↔
    h.memory.InRange (h.address rs1 imm) op.bytes ∧
      h' = (h.set rd (op.extend (h.memory.load (h.address rs1 imm) 64 op.bytes))).next := by
  by_cases hrange : h.memory.InRange (h.address rs1 imm) op.bytes
  · simp [exec, hrange, eq_comm]
  · simp [exec, hrange]

theorem exec_store_eq_some_iff {op : StoreOp} : h.exec (.store op rs2 rs1 imm) = some h' ↔
    h.memory.InRange (h.address rs1 imm) op.bytes ∧
      h' = { h with memory := h.memory.store (h.address rs1 imm) (h.x rs2) op.bytes }.next := by
  by_cases hrange : h.memory.InRange (h.address rs1 imm) op.bytes
  · simp [exec, hrange, eq_comm]
  · simp [exec, hrange]

theorem fetch_eq_some_iff {size : Word} {i : Instruction} : h.fetch size = some i ↔
    h.pc < size ∧ h.memory.InRange h.pc 4 ∧ i.word = h.memory.load h.pc 32 4 := by
  by_cases hin : h.pc < size ∧ h.memory.InRange h.pc 4
  · simp [fetch, hin, Instruction.decode_eq_some_iff]
  · rw [fetch, if_neg hin]
    constructor
    · intro hnone
      cases hnone
    · exact fun hi => absurd ⟨hi.1, hi.2.1⟩ hin

end Hart

end RiscvSim
