import RiscvSim.ParseFormats

/-! The two passes over the tokens: the first collects the data section, the second the text
section; last come the branches to labels that were not known yet. -/

namespace RiscvSim

/-- The directives that define data. -/
inductive DataDirective where
  | dword | word | halfword | byte | float | double | zero | string | udword
  deriving DecidableEq, Repr

namespace DataDirective

def names : List (String × DataDirective) :=
  [("dword", dword), ("word", word), ("halfword", halfword), ("byte", byte), ("float", float),
   ("double", double), ("zero", zero), ("string", string), ("udword", udword)]

def ofName (name : String) : Option DataDirective := names.lookup name

def alignment : DataDirective → Word
  | dword | double | udword => 8
  | word | float => 4
  | halfword => 2
  | byte | zero | string => 1

/-- The type of the elements. -/
def tokenType : DataDirective → TokenType
  | float | double => .FLOAT
  | string => .STRING
  | _ => .NUM

end DataDirective

/-- The bytes that an element takes up, without padding. -/
def DataItem.size : DataItem → Nat
  | .byte _ => 1
  | .halfWord _ => 2
  | .word _ | .float _ => 4
  | .doubleWord _ | .double _ => 8
  | .string bytes => bytes.length

/-- A trailing backslash stays; an unknown escape stays as it is. -/
def parseEscapedString : List Char → List Char
  | '\\' :: c :: rest =>
    (match c with
      | 'n' => ['\n']
      | 't' => ['\t']
      | '\\' => ['\\']
      | '"' => ['"']
      | c => ['\\', c]) ++ parseEscapedString rest
  | c :: rest => c :: parseEscapedString rest
  | [] => []

namespace Parser

open InstructionSet

/-- The items that one element of a directive stands for; `.zero 0` is rejected. -/
def elementItems (cfg : ParserConfig) (d : DataDirective) (value : String) :
    Except Thrown (Option (List DataItem)) := do
  match d with
  | .dword => return some [.doubleWord (BitVec.ofInt 64 (← stoll value))]
  | .word => return some [.word (BitVec.ofInt 32 (← stoll value))]
  | .halfword => return some [.halfWord (BitVec.ofInt 16 (← stoll value))]
  | .byte => return some [.byte (BitVec.ofInt 8 (← stoll value))]
  | .float => return some [.float (← cfg.stof value)]
  | .double => return some [.double (← cfg.stod value)]
  | .zero =>
    let num := BitVec.ofInt 64 (← stoll value)
    return if num ≠ 0 then some (List.replicate num.toNat (.byte 0)) else none
  | .string =>
    let processed := parseEscapedString value.toList ++ ['\x00']
    return some [.string (processed.map fun c => BitVec.ofNat 8 c.toNat)]
  | .udword => return some [.doubleWord (BitVec.ofInt 64 (← stoull value))]

def align (p : Parser) (alignment : Word) : Parser :=
  if p.dataIndex % alignment ≠ 0 then
    { p with dataIndex := p.dataIndex + (alignment - p.dataIndex % alignment) }
  else p

/-- Append items to the data buffer. -/
def place (p : Parser) (items : List DataItem) : Parser :=
  { p with
    dataBuffer := p.dataBuffer ++ items
    dataIndex := p.dataIndex + BitVec.ofNat 64 (items.map DataItem.size).sum }

/-- One round of the loop over the elements of a directive. -/
def elementTurn (cfg : ParserConfig) (d : DataDirective) (p : Parser) : Except Thrown Parser := do
  if p.currentToken.type = d.tokenType then
    match ← elementItems cfg d p.currentToken.value with
    | some items => return ((p.align d.alignment).place items).nextToken
    | none => return (p.fail p.currentToken "Invalid zero directive: Expected a positive number"
        .SyntaxError "Invalid zero directive" "Expected a positive number").nextToken
  else return p.nextToken

/-- The condition of that loop. -/
def atElement (d : DataDirective) (p : Parser) : Bool :=
  p.notEof && (p.currentToken.type == d.tokenType || p.currentToken.type == .COMMA)

/-- The elements after a directive. -/
def parseElements (cfg : ParserConfig) (d : DataDirective) (p : Parser) : Except Thrown Parser :=
  Loop.exhaust (fun p => p.rest.length) (atElement d) (elementTurn cfg d) p

/-- A label in a data section: aligned for the directive that follows, and entered whether or
not it is known already. -/
def defineDataLabel (p : Parser) : Parser :=
  let q := match DataDirective.ofName (p.peekToken 1).value with
    | some d => p.align d.alignment
    | none => p.fail p.currentToken ("Invalid directive: Expected .dword, .word, .halfword, " ++
        ".byte, .float, .double, .string, .zero, .udword") .SyntaxError "Invalid directive"
        "Expected .dword, .word, .halfword, .byte, .float, .double, .string, .zero, .udword"
  q.define p.currentToken.value ⟨q.dataIndex, p.currentToken.lineNumber, true⟩

/-- The values at which a data or bss section ends. -/
def sectionNames : List String := ["text", "data", "bss", "section"]

def inData (p : Parser) : Bool := !sectionNames.contains p.currentToken.value && p.notEof

def dataTurn (cfg : ParserConfig) (p : Parser) : Except Thrown Parser :=
  if p.currentToken.type = .LABEL then return p.defineDataLabel.nextToken
  else match DataDirective.ofName p.currentToken.value with
    | some d => p.nextToken.parseElements cfg d
    | none => return (p.fail p.currentToken ("Invalid directive: Expected .dword, .word, " ++
        ".halfword, .byte, .string, .float, .double, .zero .udword") .SyntaxError
        "Invalid directive" ("Expected .dword, .word, .halfword, .byte, .string, .float, " ++
        ".double, .zero, .udword")).nextToken

def parseDataDirective (cfg : ParserConfig) (p : Parser) : Except Thrown Parser :=
  Loop.exhaust (fun p => p.rest.length) inData (dataTurn cfg) p

def parseBSSDirective (p : Parser) : Parser := p.skipTo sectionNames

/-- `currentToken` is the directive of the given name. -/
def atDirective (p : Parser) (name : String) : Bool :=
  p.currentToken.value == name && p.currentToken.type == .DIRECTIVE

/-- One round of the first pass. -/
def firstTurn (cfg : ParserConfig) (p : Parser) : Except Thrown Parser :=
  if p.atDirective "section" then return p.nextToken
  else if p.atDirective "data" then p.nextToken.parseDataDirective cfg
  else if p.atDirective "bss" then return p.nextToken.parseBSSDirective
  else if p.atDirective "text" ∨ p.currentToken.type = .LABEL ∨ p.currentToken.type = .OPCODE then
    return p.skipTo ["data", "section", "bss"]
  else return (p.fail p.currentToken
    "Invalid token: Expected .data, .text, or <opcode> or <label>" .SyntaxError "Invalid token"
    "Expected: .data, .text, or <opcode> or <label>").nextToken

/-- A label in a text section. -/
def defineTextLabel (p : Parser) : Parser :=
  let t := p.currentToken
  match p.symbolTable t.value with
  | some symbol =>
    p.fail t ("Label redefinition: already defined at line " ++ toString symbol.lineNumber)
      .LabelRedefinitionError "Label redefinition"
      ("Label already defined at line " ++ toString symbol.lineNumber)
  | none => p.define t.value ⟨textAddress p.instructionIndex, t.lineNumber, false⟩

/-- A statement, in the first of its syntaxes that fits. -/
def parseStatement (cfg : ParserConfig) (p : Parser) : Except Thrown Parser := do
  let t := p.currentToken
  if isValidMExtensionInstruction t.value ∧ cfg.mExtensionEnabled = false then
    return (p.fail t ("Unexpected opcode, M extension is disabled: " ++ t.value)
      .UnexpectedTokenError "Unexpected opcode, M extension is disabled" "").skipCurrentLine
  else
    match ← parseSyntaxes cfg p (syntaxes t.value) with
    | some q => return q
    | none => return (p.fail t ("Invalid syntax: Expected: " ++ getExpectedSyntaxes t.value)
        .SyntaxError "Syntax error" ("Expected: " ++ getExpectedSyntaxes t.value)).skipCurrentLine

def inText (p : Parser) : Bool := p.currentToken.type != .DIRECTIVE && p.notEof

def textTurn (cfg : ParserConfig) (p : Parser) : Except Thrown Parser :=
  match p.currentToken.type with
  | .LABEL => return p.defineTextLabel.nextToken
  | .OPCODE => parseStatement cfg p
  | _ => return (p.fail p.currentToken ("Unexpected token: " ++ p.currentToken.value)
      .UnexpectedTokenError "Unexpected token" "").skipCurrentLine

def parseTextDirective (cfg : ParserConfig) (p : Parser) : Except Thrown Parser :=
  Loop.exhaust (fun p => p.rest.length) inText (textTurn cfg) p

/-- One round of the second pass. -/
def secondTurn (cfg : ParserConfig) (p : Parser) : Except Thrown Parser :=
  if p.atDirective "section" then return p.nextToken
  else if p.atDirective "data" ∨ p.atDirective "bss" then return p.skipTo ["text"]
  else if p.atDirective "text" then p.nextToken.parseTextDirective cfg
  else if p.currentToken.type = .LABEL ∨ p.currentToken.type = .OPCODE then
    p.parseTextDirective cfg
  else return (p.fail p.currentToken
    "Invalid token: Expected .data, .text, .bss or <opcode> or <label>" .SyntaxError
    "Invalid token" "Expected: .data, .text, .bss or <opcode> or <label>").nextToken

def setUnit (p : Parser) (index : Nat) (entry : ICUnit × Bool) : Parser :=
  { p with intermediateCode := p.intermediateCode.set index entry }

/-- Resolve the unit at `index` to the given address, if the offset is in range. -/
def patchOffset (p : Parser) (index : Nat) (u : ICUnit) (address : Word) (low high : Int)
    (expected : String) : Parser :=
  let offset := (address - textAddress index).toInt
  if low ≤ offset ∧ offset ≤ high then p.setUnit index ({ u with imm := toString offset }, true)
  else p.failWith "Immediate value out of range" ⟨.ImmediateOutOfRangeError,
    "Immediate value out of range", expected, u.lineNumber, 0⟩

def invalidReference (p : Parser) (u : ICUnit) (message subMessage : String) : Parser :=
  p.failWith ("Invalid label reference: " ++ message)
    ⟨.InvalidLabelRefError, "Invalid label reference", subMessage, u.lineNumber, 0⟩

/-- One round of the loop over `back_patch_`. A jump to a data label is resolved as if it were
a text label. -/
def patch (p : Parser) (index : Nat) : Parser :=
  match p.intermediateCode[index]? with
  | none => p
  | some (u, _) =>
    match p.symbolTable u.label with
    | some symbol =>
      if isValidBTypeInstruction u.opcode then
        if symbol.isData = false then
          p.patchOffset index u symbol.address (-4096) 4095 "Expected: -4096 <= imm <= 4095"
        else
          (p.invalidReference u "Label references data" "Label references data").setUnit index
            (u, true)
      else if isValidJTypeInstruction u.opcode then
        p.patchOffset index u symbol.address (-1048576) 1048575
          "Expected: -1048576 <= imm <= 1048575"
      else p.invalidReference u "Label references data" "Label reference not found"
    | none => p.invalidReference u "Label reference not found" "Label reference not found"

/-- The first pass, cut off after a number of rounds. -/
def firstPass (cfg : ParserConfig) (turns : Nat) (p : Parser) :
    Except Thrown (ForInStep Parser) :=
  Loop.run (Loop.whileTurn notEof (firstTurn cfg)) turns p

/-- The second pass starts at the first token again. -/
def restart (p : Parser) : Parser := { p with rest := p.tokens, instructionIndex := 0 }

def secondPass (cfg : ParserConfig) (p : Parser) : Except Thrown Parser :=
  Loop.exhaust (fun p => p.rest.length) notEof (secondTurn cfg) p

/-- `.yield` is a parser that was still in its first pass. -/
def parse (cfg : ParserConfig) (turns : Nat) (tokens : List Token) :
    Except Thrown (ForInStep Parser) := do
  match ← firstPass cfg turns (initial tokens) with
  | .yield p => return .yield p
  | .done p =>
    let p ← secondPass cfg p.restart
    return .done (p.backPatch.foldl patch p)

end Parser

end RiscvSim
