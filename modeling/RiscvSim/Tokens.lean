import RiscvSim.InstructionSet
import RiscvSim.RegisterNames

/-! Tokens. A text is the sequence of its bytes, each as the character of that code. -/

namespace RiscvSim

inductive TokenType where
  | INVALID | EOF_ | IDENTIFIER | DIRECTIVE | OPCODE | GP_REGISTER | FP_REGISTER | VEC_REGISTER
  | CSR_REGISTER | NUM | FLOAT | LABEL | LABEL_REF | COMMA | LPAREN | RPAREN | STRING | RM
  deriving DecidableEq, Repr

structure Token where
  type : TokenType := .INVALID
  value : String := ""
  lineNumber : Nat := 0
  columnNumber : Nat := 0
  deriving DecidableEq, Repr

/-- The token that stands for the positions after the last one. -/
def eofToken : Token := ⟨.EOF_, "", 1, 1⟩

namespace Token

/-- The value of a token fits its type. -/
def Lexed (t : Token) : Prop :=
  match t.type with
  | .OPCODE => InstructionSet.isValidInstruction t.value = true
  | .GP_REGISTER => isValidGeneralPurposeRegister t.value = true
  | .FP_REGISTER => isValidFloatingPointRegister t.value = true
  | .CSR_REGISTER => isValidCsr t.value = true
  | .RM => isValidRoundingMode t.value = true
  | .NUM => ∃ n : Int, t.value = toString n ∧ -2 ^ 63 ≤ n ∧ n < 2 ^ 64
  | .LABEL | .LABEL_REF => t.value ≠ ""
  | _ => True

theorem lexed_eofToken : eofToken.Lexed := trivial

end Token

/-- What the lexer hands to the parser. -/
def LexedTokens (tokens : List Token) : Prop := ∀ t ∈ tokens, t.Lexed

end RiscvSim
