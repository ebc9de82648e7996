import RiscvSim.CodeGenerator
import RiscvSim.Tokens
import RiscvSim.Vm

/-! The state of the parser and the operations that its statements are made of. -/

namespace RiscvSim

structure ParseError where
  line : Nat
  message : String
  deriving DecidableEq, Repr

inductive ErrorKind where
  | SyntaxError | UnexpectedTokenError | ImmediateOutOfRangeError | MisalignedImmediateError
  | InvalidLabelRefError | LabelRedefinitionError
  deriving DecidableEq, Repr

/-- An entry of `all_errors`. -/
structure DetailedError where
  kind : ErrorKind
  mainMessage : String
  subMessage : String
  lineNumber : Nat
  columnNumber : Nat
  deriving DecidableEq, Repr

structure ErrorTracker where
  count : Nat := 0
  parseErrors : List ParseError := []
  allErrors : List DetailedError := []
  deriving DecidableEq, Repr

structure SymbolData where
  address : Word
  lineNumber : Nat
  isData : Bool
  deriving DecidableEq, Repr

/-- The configuration that the parser reads, and the host's conversions of a text to the bits
of a floating-point number. -/
structure ParserConfig where
  mExtensionEnabled : Bool
  dataSectionStart : Word
  stof : String → Except Thrown (BitVec 32)
  stod : String → Except Thrown (BitVec 64)

/-- The default configuration, on a host that converts no text to a floating-point number. -/
def ParserConfig.default : ParserConfig where
  mExtensionEnabled := true
  dataSectionStart := 0x10000000
  stof _ := .error .invalidArgument
  stod _ := .error .invalidArgument

/-- `rest` is the part of `tokens` from the current position on. -/
structure Parser where
  tokens : List Token
  rest : List Token
  instructionIndex : Nat
  errors : ErrorTracker
  dataBuffer : List DataItem
  dataIndex : Word
  symbolTable : String → Option SymbolData
  backPatch : List Nat
  intermediateCode : List (ICUnit × Bool)
  instructionNumberLineNumberMapping : Nat → Option Nat

namespace Parser

def initial (tokens : List Token) : Parser where
  tokens := tokens
  rest := tokens
  instructionIndex := 0
  errors := {}
  dataBuffer := []
  dataIndex := 0
  symbolTable := fun _ => none
  backPatch := []
  intermediateCode := []
  instructionNumberLineNumberMapping := fun _ => none

def peekToken (p : Parser) (n : Nat) : Token := (p.rest.drop n).headD eofToken

def currentToken (p : Parser) : Token := p.rest.headD eofToken

def nextToken (p : Parser) : Parser := { p with rest := p.rest.tail }

/-- The loop condition `currentToken().type != EOF_`. -/
def notEof (p : Parser) : Bool := p.currentToken.type != .EOF_

/-- `nextToken` up to the end or a token with one of the given values. -/
def skipTo (p : Parser) (values : List String) : Parser :=
  { p with rest := p.rest.dropWhile fun t => t.type != .EOF_ && !values.contains t.value }

def skipCurrentLine (p : Parser) : Parser :=
  { p with rest := p.rest.dropWhile fun t =>
      t.lineNumber == p.currentToken.lineNumber && t.type != .EOF_ }

/-- The tokens after the current one are of the given types, on its line, and end it. -/
def lineIs (p : Parser) (types : List TokenType) : Bool :=
  types.zipIdx.all (fun (type, i) =>
    (p.peekToken (i + 1)).lineNumber == p.currentToken.lineNumber &&
      (p.peekToken (i + 1)).type == type) &&
  ((p.peekToken (types.length + 1)).type == .EOF_ ||
    (p.peekToken (types.length + 1)).lineNumber != p.currentToken.lineNumber)

def recordError (p : Parser) (error : ParseError) : Parser :=
  { p with errors := { p.errors with
      count := p.errors.count + 1
      parseErrors := p.errors.parseErrors ++ [error] } }

/-- `errors_.count++`, `recordError` and an entry of `all_errors`. -/
def failWith (p : Parser) (message : String) (error : DetailedError) : Parser :=
  recordError { p with errors := { p.errors with
      count := p.errors.count + 1
      allErrors := p.errors.allErrors ++ [error] } } ⟨error.lineNumber, message⟩

/-- An error at a token. -/
def fail (p : Parser) (t : Token) (message : String) (kind : ErrorKind)
    (mainMessage subMessage : String) : Parser :=
  p.failWith message ⟨kind, mainMessage, subMessage, t.lineNumber, t.columnNumber⟩

def outOfRange (p : Parser) (t : Token) (expected : String) : Parser :=
  p.fail t "Immediate value out of range" .ImmediateOutOfRangeError
    "Immediate value out of range" expected

def misaligned (p : Parser) (t : Token) : Parser :=
  p.fail t "Misaligned immediate value" .MisalignedImmediateError
    "Misaligned immediate value" "Expected: imm % 4 == 0"

def invalidLabel (p : Parser) (t : Token) : Parser :=
  p.fail t "Invalid label reference" .InvalidLabelRefError
    "Invalid label reference" "Expected: Label defined in .data section"

def define (p : Parser) (label : String) (symbol : SymbolData) : Parser :=
  { p with symbolTable := fun s => if s = label then some symbol else p.symbolTable s }

/-- `instruction_index_*4`, a product of `unsigned int`s, as an address. -/
def textAddress (index : Nat) : Word := (BitVec.ofNat 32 (4 * index)).setWidth 64

/-- The unit of the statement at the current token, without operands. -/
def block (p : Parser) : ICUnit :=
  { opcode := p.currentToken.value
    lineNumber := p.currentToken.lineNumber
    instructionIndex := p.instructionIndex }

/-- Append a unit to the intermediate code, with its line. -/
def emit (p : Parser) (u : ICUnit) (resolved : Bool) : Parser :=
  { p with
    intermediateCode := p.intermediateCode ++ [(u, resolved)]
    instructionNumberLineNumberMapping := fun i =>
      if i = p.instructionIndex then some u.lineNumber else p.instructionNumberLineNumberMapping i
    instructionIndex := p.instructionIndex + 1 }

/-- Append a unit whose label is not known yet. -/
def emitDeferred (p : Parser) (u : ICUnit) : Parser :=
  { p.emit u false with backPatch := p.backPatch ++ [p.instructionIndex] }

/-- `reg_alias_to_name.at` on the value of the token `n` places ahead. -/
def register (p : Parser) (n : Nat) : Except Thrown String :=
  mapAt regAliasToName (p.peekToken n).value

end Parser

end RiscvSim
