import RiscvSim.Layouts
import RiscvSim.Programs

/-! Programs and their sources: what the lines of a program are made of, how they may be written, and
one way to write each of them. -/

namespace RiscvSim

/-- What a line is made of. -/
inductive Terminal where
  | label (name : String)
  | mnemonic (name : String)
  | register (r : RegIndex)
  | number (n : Int)
  | reference (name : String)
  | comma
  | lparen
  | rparen
  deriving DecidableEq, Repr

namespace Terminal

def type : Terminal → TokenType
  | label _ => .LABEL
  | mnemonic _ => .OPCODE
  | register _ => .GP_REGISTER
  | number _ => .NUM
  | reference _ => .LABEL_REF
  | comma => .COMMA
  | lparen => .LPAREN
  | rparen => .RPAREN

/-- A text stands for a terminal; a register has several names. -/
def Shows : Terminal → String → Prop
  | label name, text => text = name
  | mnemonic name, text => text = name
  | register r, text => mapAt regAliasToName text = .ok (gprName r)
  | number n, text => text = toString n
  | reference name, text => text = name
  | comma, text => text = ","
  | lparen, text => text = "("
  | rparen, text => text = ")"

structure Spelled (x : Terminal) (type : TokenType) (text : String) : Prop where
  type : type = x.type
  shows : x.Shows text

/-- `m a, b, x` -/
def three (m : String) (a b : RegIndex) (x : Terminal) : List Terminal :=
  [.mnemonic m, .register a, .comma, .register b, .comma, x]

/-- `m a, x` -/
def two (m : String) (a : RegIndex) (x : Terminal) : List Terminal :=
  [.mnemonic m, .register a, .comma, x]

/-- `m a, n(b)` -/
def based (m : String) (a : RegIndex) (n : Int) (b : RegIndex) : List Terminal :=
  [.mnemonic m, .register a, .comma, .number n, .lparen, .register b, .rparen]

end Terminal

open Terminal (three two based)

def Instruction.terminals : Instruction → List Terminal
  | register op rd rs1 rs2 => three op.mnemonic rd rs1 (.register rs2)
  | divide op rd rs1 rs2 => three op.mnemonic rd rs1 (.register rs2)
  | immediate op rd rs1 imm => three op.mnemonic rd rs1 (.number imm.toInt)
  | shift op rd rs1 shamt => three op.mnemonic rd rs1 (.number shamt.toNat)
  | upper op rd imm => two op.mnemonic rd (.number imm.toNat)
  | load op rd rs1 imm => based op.mnemonic rd imm.toInt rs1
  | store op rs2 rs1 imm => based op.mnemonic rs2 imm.toInt rs1
  | branch op rs1 rs2 half => three op.mnemonic rs1 rs2 (.number (2 * half.toInt))
  | jal rd half => two "jal" rd (.number (2 * half.toInt))
  | jalr rd rs1 imm => based "jalr" rd imm.toInt rs1

def Operation.terminals : Operation → List Terminal
  | instruction i => i.terminals
  | branch op rs1 rs2 label => three op.mnemonic rs1 rs2 (.reference label)
  | jal rd label => two "jal" rd (.reference label)

namespace Line

def terminals (line : Line) : List Terminal :=
  line.labels.map Terminal.label ++ line.operation.toList.flatMap Operation.terminals

variable {floatText : String → Except Thrown String}

/-- The lexemes of a text spell a line. -/
def Written (floatText : String → Except Thrown String) (text : List Char) (line : Line) : Prop :=
  ∃ items, Lexer.Lays floatText false text items ∧
    List.Forall₂ (fun (x : Terminal) item => x.Spelled item.1 item.2) line.terminals items

end Line

end RiscvSim
