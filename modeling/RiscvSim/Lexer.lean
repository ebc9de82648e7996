import RiscvSim.CodeGenerator
import RiscvSim.Loop
import RiscvSim.Tokens

/-! The lexer. A source is the list of its lines, as `std::getline` reads them: no line contains
a line break. -/

namespace RiscvSim

namespace NumberText

/-- At least one character, all of them of a kind. -/
def isDigits (f : Char → Bool) (cs : List Char) : Bool := !cs.isEmpty && cs.all f

def isHexDigit (c : Char) : Bool :=
  c.isDigit || ('a' ≤ c && c ≤ 'f') || ('A' ≤ c && c ≤ 'F')

def isBinaryDigit (c : Char) : Bool := c == '0' || c == '1'

def isOctalDigit (c : Char) : Bool := '0' ≤ c && c ≤ '7'

/-- A number without a minus sign in front of it. -/
def unsigned : List Char → List Char
  | '-' :: cs => cs
  | cs => cs

/-- The digits after `0x`, `0b` or `0o`, in the lower or the upper case. -/
def afterPrefix (lower upper : Char) : List Char → Option (List Char)
  | '0' :: x :: cs => if x = lower ∨ x = upper then some cs else none
  | _ => none

def hasPrefix (lower upper : Char) (f : Char → Bool) (cs : List Char) : Bool :=
  (afterPrefix lower upper cs).any (isDigits f)

def isUnsignedHex : List Char → Bool := hasPrefix 'x' 'X' isHexDigit

def isHex (cs : List Char) : Bool := hasPrefix 'x' 'X' isHexDigit (unsigned cs)

def isBinary (cs : List Char) : Bool := hasPrefix 'b' 'B' isBinaryDigit (unsigned cs)

def isOctal (cs : List Char) : Bool := hasPrefix 'o' 'O' isOctalDigit (unsigned cs)

def isDecimal (cs : List Char) : Bool := isDigits Char.isDigit (unsigned cs)

/-- `[eE][-+]?[0-9]+` -/
def isExponent : List Char → Bool
  | e :: '-' :: cs | e :: '+' :: cs | e :: cs =>
    (e == 'e' || e == 'E') && isDigits Char.isDigit cs
  | [] => false

def isFloat (cs : List Char) : Bool :=
  let digits := (unsigned cs).takeWhile Char.isDigit
  match (unsigned cs).dropWhile Char.isDigit with
  | '.' :: fraction =>
    !(fraction.takeWhile Char.isDigit).isEmpty &&
      ((fraction.dropWhile Char.isDigit).isEmpty || isExponent (fraction.dropWhile Char.isDigit))
  | exponent => !digits.isEmpty && isExponent exponent

def digitValue (c : Char) : Nat :=
  if c.isDigit then c.toNat - '0'.toNat
  else if 'a' ≤ c then c.toNat - 'a'.toNat + 10
  else c.toNat - 'A'.toNat + 10

def value (base : Nat) (digits : List Char) : Nat :=
  digits.foldl (fun n c => base * n + digitValue c) 0

/-- `std::to_string(std::stoull(value, nullptr, 16))` -/
def ofUnsignedHex (cs : List Char) : Except Thrown String :=
  let n := value 16 (cs.drop 2)
  if n < 2 ^ 64 then .ok (toString (n : Int)) else .error .outOfRange

/-- The signed value of the digits after a prefix of the given length. -/
def signedValue (base skipped : Nat) (cs : List Char) : Int :=
  if cs.head? = some '-' then -(value base ((unsigned cs).drop skipped) : Int)
  else value base ((unsigned cs).drop skipped)

/-- `std::to_string(std::stoll(value, nullptr, base))` -/
def ofSigned (base skipped : Nat) (cs : List Char) : Except Thrown String :=
  let n := signedValue base skipped cs
  if -2 ^ 63 ≤ n ∧ n < 2 ^ 63 then .ok (toString n) else .error .outOfRange

end NumberText

/-- `rest` is the part of `current_line_` from `pos_` on. -/
structure Lexer where
  rest : List Char := []
  lineNumber : Nat := 0
  columnNumber : Nat := 0
  tokens : List Token := []

namespace Lexer

open InstructionSet

/-- Move past `n` characters. -/
def advance (l : Lexer) (n : Nat) : Lexer :=
  { l with rest := l.rest.drop n, columnNumber := l.columnNumber + n }

/-- Move past the characters of the given kind. -/
def skipWhile (l : Lexer) (f : Char → Bool) : Lexer := l.advance (l.rest.takeWhile f).length

def skipWhitespace (l : Lexer) : Lexer := l.skipWhile Decimal.isSpace

def skipComment (l : Lexer) : Lexer := l.advance l.rest.length

def skipLine (l : Lexer) : Lexer := l.advance l.rest.length

/-- A token that begins at the current position. -/
def token (l : Lexer) (type : TokenType) (value : List Char) : Token :=
  ⟨type, String.ofList value, l.lineNumber, l.columnNumber⟩

def isIdentifierChar (c : Char) : Bool := c.isAlphanum || c == '_' || c == '.'

def isNumberChar (c : Char) : Bool := c.isAlphanum || c == '-' || c == '.' || c == '+'

/-- The last token is a comma. -/
def afterComma (l : Lexer) : Bool := l.tokens.getLast?.any fun t => t.type == .COMMA

/-- The type of a name that is written as an instruction or an operand. -/
def nameType (name : String) : Option TokenType :=
  if isValidInstruction name then some .OPCODE
  else if isValidGeneralPurposeRegister name then some .GP_REGISTER
  else if isValidFloatingPointRegister name then some .FP_REGISTER
  else if isValidCsr name then some .CSR_REGISTER
  else if isValidRoundingMode name then some .RM
  else none

def identifier (l : Lexer) : Token × Lexer :=
  let value := l.rest.takeWhile isIdentifierChar
  let l' := l.skipWhile isIdentifierChar
  if l'.rest.head? = some ':' then
    (l.token (if value.contains '.' then .INVALID else .LABEL) value, l'.advance 1)
  else
    (l.token ((nameType (String.ofList value)).getD (if l.afterComma then .LABEL_REF else .INVALID))
      value, l')

/-- The type and the text of the token of a number. `floatText` is
`std::to_string(std::stod(value))` of the host. -/
def readNumber (floatText : String → Except Thrown String) (value : List Char) :
    Except Thrown (TokenType × String) := do
  if NumberText.isUnsignedHex value then return (.NUM, ← NumberText.ofUnsignedHex value)
  else if NumberText.isHex value then return (.NUM, ← NumberText.ofSigned 16 2 value)
  else if NumberText.isBinary value then return (.NUM, ← NumberText.ofSigned 2 2 value)
  else if NumberText.isOctal value then return (.NUM, ← NumberText.ofSigned 8 2 value)
  else if NumberText.isDecimal value then return (.NUM, ← NumberText.ofSigned 10 0 value)
  else if NumberText.isFloat value then return (.FLOAT, ← floatText (String.ofList value))
  else return (.INVALID, "Invalid")

def number (floatText : String → Except Thrown String) (l : Lexer) :
    Except Thrown (Token × Lexer) := do
  let (type, text) ← readNumber floatText (l.rest.takeWhile isNumberChar)
  return (⟨type, text, l.lineNumber, l.columnNumber⟩, l.skipWhile isNumberChar)

/-- The column does not count the dot. -/
def directive (l : Lexer) : Token × Lexer :=
  let l := { l with rest := l.rest.tail }
  (l.token .DIRECTIVE (l.rest.takeWhile Char.isAlpha), l.skipWhile Char.isAlpha)

def stringLiteral (l : Lexer) : Token × Lexer :=
  let l := l.advance 1
  let l' := l.skipWhile (· != '"')
  if l'.rest.isEmpty then (l.token .INVALID [], l')
  else (l.token .STRING (l.rest.takeWhile (· != '"')), l'.advance 1)

/-- The token at the current character `c`; a comment is the last thing on its line. -/
def tokenAt (floatText : String → Except Thrown String) (l : Lexer) (c : Char) :
    Except Thrown (Option Token × Lexer) :=
  if c.isAlpha ∨ c = '_' then .ok (some l.identifier.1, l.identifier.2)
  else if c.isDigit ∨ c = '-' then do
    let (t, l') ← l.number floatText
    return (some t, l')
  else if c = ',' then .ok (some (l.token .COMMA [c]), l.advance 1)
  else if c = '"' then .ok (some l.stringLiteral.1, l.stringLiteral.2)
  else if c = '(' then .ok (some (l.token .LPAREN [c]), l.advance 1)
  else if c = ')' then .ok (some (l.token .RPAREN [c]), l.advance 1)
  else if c = '.' then .ok (some l.directive.1, l.directive.2)
  else if c = '#' ∨ c = ';' then .ok (none, l.skipComment)
  else .ok (some ⟨.INVALID, "", l.lineNumber, l.skipLine.columnNumber - 1⟩, l.skipLine)

/-- `none` is the token `EOF_` at the end of a line, which `getTokenList` drops. -/
def getNextToken (floatText : String → Except Thrown String) (l : Lexer) :
    Except Thrown (Option Token × Lexer) :=
  match l.skipWhitespace.rest with
  | [] => .ok (none, l.skipWhitespace)
  | c :: _ => l.skipWhitespace.tokenAt floatText c

def push (l : Lexer) (t : Option Token) : Lexer := { l with tokens := l.tokens ++ t.toList }

/-- One round of the loop over a line. -/
def lineTurn (floatText : String → Except Thrown String) (l : Lexer) : Except Thrown Lexer := do
  let (t, l') ← l.getNextToken floatText
  return l'.push t

def inLine (l : Lexer) : Bool := !l.rest.isEmpty

/-- The next line has been read. -/
def readLine (l : Lexer) (line : List Char) : Lexer :=
  { l with rest := line, lineNumber := l.lineNumber + 1, columnNumber := 1 }

def lexLine (floatText : String → Except Thrown String) (l : Lexer) : Except Thrown Lexer :=
  Loop.exhaust (fun l => l.rest.length) inLine (lineTurn floatText) l

def lexLines (floatText : String → Except Thrown String) :
    Lexer → List (List Char) → Except Thrown Lexer
  | l, [] => .ok l
  | l, line :: lines => do lexLines floatText (← lexLine floatText (l.readLine line)) lines

def getTokenList (floatText : String → Except Thrown String) (source : List (List Char)) :
    Except Thrown (List Token) := do
  let l ← lexLines floatText {} source
  return l.tokens ++ [⟨.EOF_, "", l.lineNumber, l.columnNumber⟩]

end Lexer

end RiscvSim
