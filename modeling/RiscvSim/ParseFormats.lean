import RiscvSim.Parser

/-! The statements of the text section, one function for each syntax. `none` says that the
tokens do not have the syntax; then the parser is as before. -/

namespace RiscvSim

namespace Parser

open InstructionSet

/-- Skip the line of a statement and append its unit. -/
def finish (p : Parser) (u : ICUnit) : Parser := p.skipCurrentLine.emit u true

/-- End a statement with the immediate of the token `t`. -/
def finishImmediate (p : Parser) (t : Token) (low high : Int) (expected : String) (imm : Int)
    (u : ICUnit) : Parser :=
  if low ≤ imm ∧ imm ≤ high then p.finish { u with imm := toString imm }
  else (p.outOfRange t expected).skipCurrentLine

/-- End a statement with the immediate of the token `t`, a multiple of `unit`. -/
def finishAligned (p : Parser) (t : Token) (low high unit : Int) (expected : String) (imm : Int)
    (u : ICUnit) : Parser :=
  if low ≤ imm ∧ imm ≤ high then
    if imm.tmod unit = 0 then p.finish { u with imm := toString imm }
    else (p.misaligned t).skipCurrentLine
  else (p.outOfRange t expected).skipCurrentLine

/-- End a statement with the label of the token `t`: the offset of a text label that is
already known; any other label is left to the end of the program. -/
def finishLabel (p : Parser) (t : Token) (low high : Int) (expected : String) (u : ICUnit) :
    Parser :=
  match p.symbolTable t.value with
  | some ⟨address, _, false⟩ =>
    let offset := (address - textAddress p.instructionIndex).toInt
    if low ≤ offset ∧ offset ≤ high then
      p.finish { u with imm := toString offset, label := t.value }
    else (p.outOfRange t expected).skipCurrentLine
  | _ => (p.emitDeferred { u with label := t.value }).skipCurrentLine

/-- The high and the low part of the distance from the current instruction to an address of
the data section. -/
def dataOffset (cfg : ParserConfig) (p : Parser) (address : Word) : BitVec 32 × BitVec 32 :=
  let offset : Word := cfg.dataSectionStart + address - textAddress p.instructionIndex
  let hi20 : BitVec 32 := ((offset + 0x800).sshiftRight 12).setWidth 32
  let lo12 : BitVec 32 := (offset - (hi20 <<< 12).signExtend 64).setWidth 32
  (hi20, lo12)

/-- The data label of the token `n` places ahead. -/
def dataLabel (p : Parser) (n : Nat) : Option SymbolData :=
  (p.symbolTable (p.peekToken n).value).filter SymbolData.isData

/-- The operands `reg, imm(base)`; `set` stores the name of `reg`. -/
def parseOffset (p : Parser) (set : ICUnit → String → ICUnit) : Except Thrown (Option Parser) := do
  let reg ← p.register 1
  let imm ← stoll (p.peekToken 3).value
  if -2048 ≤ imm ∧ imm ≤ 2047 then
    let rs1 ← p.register 5
    return some (p.finish { set p.block reg with imm := toString imm, rs1 })
  else return some (p.outOfRange (p.peekToken 3) "Expected: -2048 <= imm <= 2047").skipCurrentLine

def setRd (u : ICUnit) (rd : String) : ICUnit := { u with rd }

def setRs2 (u : ICUnit) (rs2 : String) : ICUnit := { u with rs2 }

def parseO (p : Parser) : Except Thrown (Option Parser) :=
  if p.lineIs [] then return some (p.finish p.block) else return none

/-- The rounding mode of a statement: not set, dynamic, or its last operand. -/
inductive RmField where
  | absent | dynamic | given
  deriving DecidableEq, Repr

def getRoundingModeEncoding (mode : String) : Except Thrown Byte :=
  match roundingModeEncoding.lookup mode with
  | some rm => .ok rm
  | none => .error .invalidArgument

/-- A statement of registers `rd`, `rs1`, `rs2` and `rs3`, as many as are given. -/
def parseRegisters (types : List TokenType) (rm : RmField) (p : Parser) :
    Except Thrown (Option Parser) :=
  if p.lineIs (types.intersperse .COMMA ++ if rm = .given then [.COMMA, .RM] else []) then do
    let names ← (List.range types.length).mapM fun i => p.register (2 * i + 1)
    let mode ← (match rm with
      | .absent => pure 0
      | .dynamic => pure 0b111
      | .given => getRoundingModeEncoding (p.peekToken (2 * types.length + 1)).value)
    return some (p.finish { p.block with
      rd := names.getD 0 ""
      rs1 := names.getD 1 ""
      rs2 := names.getD 2 ""
      rs3 := names.getD 3 ""
      rm := mode })
  else return none

def parseOGprCGprCGpr : Parser → Except Thrown (Option Parser) :=
  parseRegisters [.GP_REGISTER, .GP_REGISTER, .GP_REGISTER] .absent

def parseOGprCGprCI (p : Parser) : Except Thrown (Option Parser) :=
  if p.lineIs [.GP_REGISTER, .COMMA, .GP_REGISTER, .COMMA, .NUM] then
    if isValidITypeInstruction p.block.opcode then do
      let rd ← p.register 1
      let rs1 ← p.register 3
      let imm ← stoll (p.peekToken 5).value
      if isValidI2TypeInstruction p.block.opcode then
        return some (p.finishImmediate (p.peekToken 5) 0 31 "Expected: 0 <= imm <= 31" imm
          { p.block with rd, rs1 })
      else
        return some (p.finishImmediate (p.peekToken 5) (-2048) 2047
          "Expected: -2048 <= imm <= 2047" imm { p.block with rd, rs1 })
    else if isValidBTypeInstruction p.block.opcode then do
      let rs1 ← p.register 1
      let rs2 ← p.register 3
      let imm ← stoll (p.peekToken 5).value
      return some (p.finishAligned (p.peekToken 5) (-4096) 4095 4
        "Expected: -4096 <= imm <= 4095" imm { p.block with rs1, rs2 })
    else return some (p.finish p.block)
  else return none

def parseOGprCI (p : Parser) : Except Thrown (Option Parser) :=
  if p.lineIs [.GP_REGISTER, .COMMA, .NUM] then
    if isValidUTypeInstruction p.block.opcode then do
      let rd ← p.register 1
      let imm ← stoll (p.peekToken 3).value
      return some (p.finishImmediate (p.peekToken 3) 0 1048575 "Expected: 0 <= imm <= 1048575" imm
        { p.block with rd })
    else if isValidJTypeInstruction p.block.opcode then do
      let rd ← p.register 1
      let imm ← stoll (p.peekToken 3).value
      return some (p.finishAligned (p.peekToken 3) (-1048576) 1048575 2
        "Expected: -1048576 <= imm <= 1048575" imm { p.block with rd })
    else return some (p.finish p.block)
  else return none

def parseOGprCGprCIl (p : Parser) : Except Thrown (Option Parser) :=
  if p.lineIs [.GP_REGISTER, .COMMA, .GP_REGISTER, .COMMA, .LABEL_REF] then
    if isValidBTypeInstruction p.block.opcode then do
      let rs1 ← p.register 1
      let rs2 ← p.register 3
      return some (p.finishLabel (p.peekToken 5) (-4096) 4095 "Expected: -4096 <= imm <= 4095"
        { p.block with rs1, rs2 })
    else return some (p.finish p.block)
  else return none

def parseOGprCIl (p : Parser) : Except Thrown (Option Parser) :=
  if p.lineIs [.GP_REGISTER, .COMMA, .LABEL_REF] then
    if isValidJTypeInstruction p.block.opcode then do
      let rd ← p.register 1
      return some (p.finishLabel (p.peekToken 3) (-1048576) 1048575
        "Expected: -1048576 <= imm <= 1048575" { p.block with rd })
    else return some (p.finish p.block)
  else return none

/-- A load from a data label. The instruction index goes to the first unit twice. -/
def parseOGprCDl (cfg : ParserConfig) (p : Parser) : Except Thrown (Option Parser) :=
  if p.lineIs [.GP_REGISTER, .COMMA, .LABEL_REF] then do
    let rd ← p.register 1
    match p.dataLabel 3 with
    | none => return some (p.invalidLabel (p.peekToken 3)).skipCurrentLine
    | some symbol =>
      let (hi20, lo12) := dataOffset cfg p symbol.address
      let auipc : ICUnit :=
        { opcode := "auipc", lineNumber := p.currentToken.lineNumber
          instructionIndex := p.instructionIndex + 1, rd, imm := toString hi20.toInt }
      let load : ICUnit :=
        { opcode := p.currentToken.value, lineNumber := p.currentToken.lineNumber
          rd, rs1 := rd, imm := toString lo12.toInt }
      return some ((p.emit auipc true).emit load true).skipCurrentLine
  else return none

def parseOGprCILpGprRp (p : Parser) : Except Thrown (Option Parser) :=
  if p.lineIs [.GP_REGISTER, .COMMA, .NUM, .LPAREN, .GP_REGISTER, .RPAREN] then
    if isValidITypeInstruction p.block.opcode then p.parseOffset setRd
    else if isValidSTypeInstruction p.block.opcode then p.parseOffset setRs2
    else if isValidSRTypeInstruction p.block.opcode then p.parseOffset setRs2
    else return some (p.finish p.block)
  else return none

def parseOGprCCsrCGpr (p : Parser) : Except Thrown (Option Parser) :=
  if p.lineIs [.GP_REGISTER, .COMMA, .CSR_REGISTER, .COMMA, .GP_REGISTER] then do
    let rd ← p.register 1
    let csr ← mapAt csrToAddress (p.peekToken 3).value
    let rs1 ← p.register 5
    return some (p.finish { p.block with rd, csr, rs1 })
  else return none

def parseOGprCCsrCI (p : Parser) : Except Thrown (Option Parser) :=
  if p.lineIs [.GP_REGISTER, .COMMA, .CSR_REGISTER, .COMMA, .NUM] then do
    let rd ← p.register 1
    let csr ← mapAt csrToAddress (p.peekToken 3).value
    let imm ← stoll (p.peekToken 5).value
    return some (p.finishImmediate (p.peekToken 5) 0 31 "Expected:0 <= imm <= 31" imm
      { p.block with rd, csr })
  else return none

def parseOFprCFprCFprCFpr : Parser → Except Thrown (Option Parser) :=
  parseRegisters [.FP_REGISTER, .FP_REGISTER, .FP_REGISTER, .FP_REGISTER] .dynamic

def parseOFprCFprCFprCFprCRm : Parser → Except Thrown (Option Parser) :=
  parseRegisters [.FP_REGISTER, .FP_REGISTER, .FP_REGISTER, .FP_REGISTER] .given

def parseOFprCFprCFpr : Parser → Except Thrown (Option Parser) :=
  parseRegisters [.FP_REGISTER, .FP_REGISTER, .FP_REGISTER] .dynamic

def parseOFprCFprCFprCRm : Parser → Except Thrown (Option Parser) :=
  parseRegisters [.FP_REGISTER, .FP_REGISTER, .FP_REGISTER] .given

def parseOFprCFpr : Parser → Except Thrown (Option Parser) :=
  parseRegisters [.FP_REGISTER, .FP_REGISTER] .dynamic

def parseOFprCFprCRm : Parser → Except Thrown (Option Parser) :=
  parseRegisters [.FP_REGISTER, .FP_REGISTER] .given

def parseOFprCGpr : Parser → Except Thrown (Option Parser) :=
  parseRegisters [.FP_REGISTER, .GP_REGISTER] .dynamic

def parseOFprCGprCRm : Parser → Except Thrown (Option Parser) :=
  parseRegisters [.FP_REGISTER, .GP_REGISTER] .given

def parseOGprCFpr : Parser → Except Thrown (Option Parser) :=
  parseRegisters [.GP_REGISTER, .FP_REGISTER] .dynamic

def parseOGprCFprCRm : Parser → Except Thrown (Option Parser) :=
  parseRegisters [.GP_REGISTER, .FP_REGISTER] .given

def parseOGprCFprCFpr : Parser → Except Thrown (Option Parser) :=
  parseRegisters [.GP_REGISTER, .FP_REGISTER, .FP_REGISTER] .absent

def parseOFprCILpGprRp (p : Parser) : Except Thrown (Option Parser) :=
  if p.lineIs [.FP_REGISTER, .COMMA, .NUM, .LPAREN, .GP_REGISTER, .RPAREN] then
    if isValidFDITypeInstruction p.block.opcode then p.parseOffset setRd
    else if isValidFDSTypeInstruction p.block.opcode then p.parseOffset setRs2
    else return some (p.finish p.block)
  else return none

/-- The address of a data label, in two instructions. -/
def parseLa (cfg : ParserConfig) (p : Parser) : Except Thrown (Option Parser) :=
  if p.lineIs [.GP_REGISTER, .COMMA, .LABEL_REF] then do
    let rd ← p.register 1
    match p.dataLabel 3 with
    | some symbol =>
      let (hi20, lo12) := dataOffset cfg p symbol.address
      let auipc : ICUnit :=
        { opcode := "auipc", lineNumber := p.currentToken.lineNumber
          instructionIndex := p.instructionIndex, rd, imm := toString hi20.toInt }
      let addi : ICUnit :=
        { opcode := "addi", lineNumber := p.currentToken.lineNumber
          instructionIndex := p.instructionIndex + 1, rd, rs1 := rd, imm := toString lo12.toInt }
      return some ((p.emit auipc true).emit addi true).skipCurrentLine
    | none => return some (p.invalidLabel p.currentToken).skipCurrentLine
  else return none

/-- A constant: one ADDI, or a LUI and an ADDI for the low part if there is one. -/
def parseLi (p : Parser) : Except Thrown (Option Parser) :=
  if p.lineIs [.GP_REGISTER, .COMMA, .NUM] then do
    let imm ← stoll (p.peekToken 3).value
    let rd ← p.register 1
    if -2048 ≤ imm ∧ imm ≤ 2047 then
      return some (p.emit { p.block with
        opcode := "addi", rd, rs1 := "x0", imm := (p.peekToken 3).value } true).skipCurrentLine
    else if -2147483648 ≤ imm ∧ imm ≤ 2147483647 then
      let upper := (imm + 2048) >>> (12 : Nat)
      let lower := imm - upper * 4096
      let q := p.emit { p.block with opcode := "lui", rd, imm := toString upper } true
      if lower ≠ 0 then
        return some (q.emit { p.block with
          opcode := "addi", instructionIndex := q.instructionIndex
          rd, rs1 := rd, imm := toString lower } true).skipCurrentLine
      else return some q.skipCurrentLine
    else return some (p.outOfRange p.currentToken
      "Expected: -2^31 <= imm <= 2^31 - 1").skipCurrentLine
  else return none

/-- The pseudo-instructions that the source implements. -/
def parsePseudo (cfg : ParserConfig) (p : Parser) : Except Thrown (Option Parser) :=
  match p.currentToken.value with
  | "la" => parseLa cfg p
  | "nop" =>
    if p.lineIs [] then
      return some (p.emit { p.block with
        opcode := "addi", rd := "x0", rs1 := "x0", imm := "0" } true).nextToken
    else return none
  | "li" => parseLi p
  | "mv" =>
    if p.lineIs [.GP_REGISTER, .COMMA, .GP_REGISTER] then do
      let rd ← p.register 1
      let rs1 ← p.register 3
      return some (p.emit { p.block with
        opcode := "add", rd, rs1, rs2 := "x0" } true).skipCurrentLine
    else return none
  | "not" =>
    if p.lineIs [.GP_REGISTER, .COMMA, .GP_REGISTER] then do
      let rd ← p.register 1
      let rs1 ← p.register 3
      return some (p.emit { p.block with
        opcode := "xori", rd, rs1, imm := "-1" } true).skipCurrentLine
    else return none
  | "ret" =>
    if p.lineIs [] then
      return some (p.emit { p.block with
        opcode := "jalr", rd := "x0", rs1 := "x1", imm := "0" } true).nextToken
    else return none
  | _ => return none

/-- The switch over the syntaxes of a mnemonic. -/
def parseSyntax (cfg : ParserConfig) (p : Parser) : SyntaxType → Except Thrown (Option Parser)
  | .O_GPR_C_GPR_C_GPR => p.parseOGprCGprCGpr
  | .O_GPR_C_GPR_C_I => p.parseOGprCGprCI
  | .O_GPR_C_GPR_C_IL => p.parseOGprCGprCIl
  | .O_GPR_C_I_LP_GPR_RP => p.parseOGprCILpGprRp
  | .O_GPR_C_I => p.parseOGprCI
  | .O_GPR_C_IL => p.parseOGprCIl
  | .O_GPR_C_DL => parseOGprCDl cfg p
  | .O_GPR_C_GPR_C_DL => return none
  | .O => p.parseO
  | .PSEUDO => parsePseudo cfg p
  | .O_GPR_C_CSR_C_GPR => p.parseOGprCCsrCGpr
  | .O_GPR_C_CSR_C_I => p.parseOGprCCsrCI
  | .O_FPR_C_FPR_C_FPR_C_FPR => p.parseOFprCFprCFprCFpr
  | .O_FPR_C_FPR_C_FPR_C_FPR_C_RM => p.parseOFprCFprCFprCFprCRm
  | .O_FPR_C_FPR_C_FPR => p.parseOFprCFprCFpr
  | .O_FPR_C_FPR_C_FPR_C_RM => p.parseOFprCFprCFprCRm
  | .O_FPR_C_FPR => p.parseOFprCFpr
  | .O_FPR_C_FPR_C_RM => p.parseOFprCFprCRm
  | .O_FPR_C_GPR => p.parseOFprCGpr
  | .O_FPR_C_GPR_C_RM => p.parseOFprCGprCRm
  | .O_GPR_C_FPR => p.parseOGprCFpr
  | .O_GPR_C_FPR_C_RM => p.parseOGprCFprCRm
  | .O_GPR_C_FPR_C_FPR => p.parseOGprCFprCFpr
  | .O_FPR_C_I_LP_GPR_RP => p.parseOFprCILpGprRp

/-- Try the syntaxes in their order. -/
def parseSyntaxes (cfg : ParserConfig) (p : Parser) :
    List SyntaxType → Except Thrown (Option Parser)
  | [] => return none
  | s :: rest => do
    match ← parseSyntax cfg p s with
    | some q => return some q
    | none => parseSyntaxes cfg p rest

end Parser

end RiscvSim
