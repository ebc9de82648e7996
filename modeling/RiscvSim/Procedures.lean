import RiscvSim.ParsePasses

/-! The member functions of the parser for the syntaxes, as procedures on its state. Each returns
whether the statement has its syntax; the functions without a state are shown to be what they
compute. -/

namespace RiscvSim

namespace Parser

open InstructionSet

/-- A member function that changes the parser and returns a truth value. -/
abbrev Procedure := StateT Parser (Except Thrown) Bool

namespace Procedure

def skipLine : StateT Parser (Except Thrown) Unit := modify Parser.skipCurrentLine

/-- `emplace_back`, the entry in the map of the lines, and `instruction_index_++`. -/
def append (u : ICUnit) : StateT Parser (Except Thrown) Unit := modify fun p => p.emit u true

/-- How a statement with one unit ends. -/
def finish (u : ICUnit) : Procedure := do
  skipLine
  append u
  return true

/-- How a statement that is an error ends. -/
def reject (record : Parser → Parser) : Procedure := do
  modify record
  skipLine
  return true

def finishImmediate (t : Token) (low high : Int) (expected : String) (imm : Int) (u : ICUnit) :
    Procedure :=
  if low ≤ imm ∧ imm ≤ high then finish { u with imm := toString imm }
  else reject fun p => p.outOfRange t expected

def finishAligned (t : Token) (low high unit : Int) (expected : String) (imm : Int) (u : ICUnit) :
    Procedure :=
  if low ≤ imm ∧ imm ≤ high then
    if imm.tmod unit = 0 then finish { u with imm := toString imm }
    else reject fun p => p.misaligned t
  else reject fun p => p.outOfRange t expected

def finishLabel (t : Token) (low high : Int) (expected : String) (u : ICUnit) : Procedure := do
  let p ← get
  match p.symbolTable t.value with
  | some ⟨address, _, false⟩ =>
    let offset := (address - textAddress p.instructionIndex).toInt
    if low ≤ offset ∧ offset ≤ high then
      finish { u with imm := toString offset, label := t.value }
    else reject fun p => p.outOfRange t expected
  | _ =>
    modify fun p => p.emitDeferred { u with label := t.value }
    skipLine
    return true

def parseOffset (set : ICUnit → String → ICUnit) : Procedure := do
  let p ← get
  let reg ← p.register 1
  let imm ← stoll (p.peekToken 3).value
  if -2048 ≤ imm ∧ imm ≤ 2047 then
    let rs1 ← p.register 5
    finish { set p.block reg with imm := toString imm, rs1 }
  else reject fun p => p.outOfRange (p.peekToken 3) "Expected: -2048 <= imm <= 2047"

def parseO : Procedure := do
  let p ← get
  if p.lineIs [] then finish p.block else return false

def parseRegisters (types : List TokenType) (rm : RmField) : Procedure := do
  let p ← get
  if p.lineIs (types.intersperse .COMMA ++ if rm = .given then [.COMMA, .RM] else []) then
    let names ← liftM ((List.range types.length).mapM fun i => p.register (2 * i + 1))
    let mode ← liftM (match rm with
      | .absent => pure 0
      | .dynamic => pure 0b111
      | .given => getRoundingModeEncoding (p.peekToken (2 * types.length + 1)).value)
    finish { p.block with
      rd := names.getD 0 ""
      rs1 := names.getD 1 ""
      rs2 := names.getD 2 ""
      rs3 := names.getD 3 ""
      rm := mode }
  else return false

def parseOGprCGprCI : Procedure := do
  let p ← get
  if p.lineIs [.GP_REGISTER, .COMMA, .GP_REGISTER, .COMMA, .NUM] then
    if isValidITypeInstruction p.block.opcode then
      let rd ← p.register 1
      let rs1 ← p.register 3
      let imm ← stoll (p.peekToken 5).value
      if isValidI2TypeInstruction p.block.opcode then
        finishImmediate (p.peekToken 5) 0 31 "Expected: 0 <= imm <= 31" imm { p.block with rd, rs1 }
      else
        finishImmediate (p.peekToken 5) (-2048) 2047 "Expected: -2048 <= imm <= 2047" imm
          { p.block with rd, rs1 }
    else if isValidBTypeInstruction p.block.opcode then
      let rs1 ← p.register 1
      let rs2 ← p.register 3
      let imm ← stoll (p.peekToken 5).value
      finishAligned (p.peekToken 5) (-4096) 4095 4 "Expected: -4096 <= imm <= 4095" imm
        { p.block with rs1, rs2 }
    else finish p.block
  else return false

def parseOGprCI : Procedure := do
  let p ← get
  if p.lineIs [.GP_REGISTER, .COMMA, .NUM] then
    if isValidUTypeInstruction p.block.opcode then
      let rd ← p.register 1
      let imm ← stoll (p.peekToken 3).value
      finishImmediate (p.peekToken 3) 0 1048575 "Expected: 0 <= imm <= 1048575" imm
        { p.block with rd }
    else if isValidJTypeInstruction p.block.opcode then
      let rd ← p.register 1
      let imm ← stoll (p.peekToken 3).value
      finishAligned (p.peekToken 3) (-1048576) 1048575 2 "Expected: -1048576 <= imm <= 1048575" imm
        { p.block with rd }
    else finish p.block
  else return false

def parseOGprCGprCIl : Procedure := do
  let p ← get
  if p.lineIs [.GP_REGISTER, .COMMA, .GP_REGISTER, .COMMA, .LABEL_REF] then
    if isValidBTypeInstruction p.block.opcode then
      let rs1 ← p.register 1
      let rs2 ← p.register 3
      finishLabel (p.peekToken 5) (-4096) 4095 "Expected: -4096 <= imm <= 4095"
        { p.block with rs1, rs2 }
    else finish p.block
  else return false

/-- It is not called: the loop over the syntaxes passes by the syntax that it is meant for. -/
def parseOGprCGprCDl : Procedure := return true

def parseOGprCIl : Procedure := do
  let p ← get
  if p.lineIs [.GP_REGISTER, .COMMA, .LABEL_REF] then
    if isValidJTypeInstruction p.block.opcode then
      let rd ← p.register 1
      finishLabel (p.peekToken 3) (-1048576) 1048575 "Expected: -1048576 <= imm <= 1048575"
        { p.block with rd }
    else finish p.block
  else return false

def parseOGprCDl (cfg : ParserConfig) : Procedure := do
  let p ← get
  if p.lineIs [.GP_REGISTER, .COMMA, .LABEL_REF] then
    let rd ← p.register 1
    match p.dataLabel 3 with
    | none => reject fun p => p.invalidLabel (p.peekToken 3)
    | some symbol =>
      let (hi20, lo12) := dataOffset cfg p symbol.address
      append
        { opcode := "auipc", lineNumber := p.currentToken.lineNumber
          instructionIndex := p.instructionIndex + 1, rd, imm := toString hi20.toInt }
      append
        { opcode := p.currentToken.value, lineNumber := p.currentToken.lineNumber
          rd, rs1 := rd, imm := toString lo12.toInt }
      skipLine
      return true
  else return false

def parseOGprCILpGprRp : Procedure := do
  let p ← get
  if p.lineIs [.GP_REGISTER, .COMMA, .NUM, .LPAREN, .GP_REGISTER, .RPAREN] then
    if isValidITypeInstruction p.block.opcode then parseOffset setRd
    else if isValidSTypeInstruction p.block.opcode then parseOffset setRs2
    else if isValidSRTypeInstruction p.block.opcode then parseOffset setRs2
    else finish p.block
  else return false

def parseOGprCCsrCGpr : Procedure := do
  let p ← get
  if p.lineIs [.GP_REGISTER, .COMMA, .CSR_REGISTER, .COMMA, .GP_REGISTER] then
    let rd ← p.register 1
    let csr ← mapAt csrToAddress (p.peekToken 3).value
    let rs1 ← p.register 5
    finish { p.block with rd, csr, rs1 }
  else return false

def parseOGprCCsrCI : Procedure := do
  let p ← get
  if p.lineIs [.GP_REGISTER, .COMMA, .CSR_REGISTER, .COMMA, .NUM] then
    let rd ← p.register 1
    let csr ← mapAt csrToAddress (p.peekToken 3).value
    let imm ← stoll (p.peekToken 5).value
    finishImmediate (p.peekToken 5) 0 31 "Expected:0 <= imm <= 31" imm { p.block with rd, csr }
  else return false

def parseOFprCILpGprRp : Procedure := do
  let p ← get
  if p.lineIs [.FP_REGISTER, .COMMA, .NUM, .LPAREN, .GP_REGISTER, .RPAREN] then
    if isValidFDITypeInstruction p.block.opcode then parseOffset setRd
    else if isValidFDSTypeInstruction p.block.opcode then parseOffset setRs2
    else finish p.block
  else return false

def parseLa (cfg : ParserConfig) : Procedure := do
  let p ← get
  if p.lineIs [.GP_REGISTER, .COMMA, .LABEL_REF] then
    let rd ← p.register 1
    match p.dataLabel 3 with
    | some symbol =>
      let (hi20, lo12) := dataOffset cfg p symbol.address
      append
        { opcode := "auipc", lineNumber := p.currentToken.lineNumber
          instructionIndex := p.instructionIndex, rd, imm := toString hi20.toInt }
      append
        { opcode := "addi", lineNumber := p.currentToken.lineNumber
          instructionIndex := p.instructionIndex + 1, rd, rs1 := rd, imm := toString lo12.toInt }
    | none => modify fun p => p.invalidLabel p.currentToken
    skipLine
    return true
  else return false

def parseLi : Procedure := do
  let p ← get
  if p.lineIs [.GP_REGISTER, .COMMA, .NUM] then
    let imm ← stoll (p.peekToken 3).value
    let rd ← p.register 1
    if -2048 ≤ imm ∧ imm ≤ 2047 then
      append { p.block with opcode := "addi", rd, rs1 := "x0", imm := (p.peekToken 3).value }
    else if -2147483648 ≤ imm ∧ imm ≤ 2147483647 then
      let upper := (imm + 2048) >>> (12 : Nat)
      let lower := imm - upper * 4096
      append { p.block with opcode := "lui", rd, imm := toString upper }
      if lower ≠ 0 then
        append { p.block with
          opcode := "addi", instructionIndex := p.instructionIndex + 1
          rd, rs1 := rd, imm := toString lower }
    else modify fun p => p.outOfRange p.currentToken "Expected: -2^31 <= imm <= 2^31 - 1"
    skipLine
    return true
  else return false

/-- A pseudo-instruction without operands. -/
def parseBare (u : Parser → ICUnit) : Procedure := do
  let p ← get
  if p.lineIs [] then
    append (u p)
    modify Parser.nextToken
    return true
  else return false

/-- A pseudo-instruction with two registers. -/
def parsePair (u : Parser → String → String → ICUnit) : Procedure := do
  let p ← get
  if p.lineIs [.GP_REGISTER, .COMMA, .GP_REGISTER] then
    let rd ← p.register 1
    let rs1 ← p.register 3
    append (u p rd rs1)
    skipLine
    return true
  else return false

def parsePseudo (cfg : ParserConfig) : Procedure := do
  match (← get).currentToken.value with
  | "la" => parseLa cfg
  | "nop" => parseBare fun p => { p.block with opcode := "addi", rd := "x0", rs1 := "x0", imm := "0" }
  | "li" => parseLi
  | "mv" => parsePair fun p rd rs1 => { p.block with opcode := "add", rd, rs1, rs2 := "x0" }
  | "not" => parsePair fun p rd rs1 => { p.block with opcode := "xori", rd, rs1, imm := "-1" }
  | "ret" => parseBare fun p => { p.block with opcode := "jalr", rd := "x0", rs1 := "x1", imm := "0" }
  | _ => return false

/-- What a case of the switch assigns to `valid_syntax`; it was false before. -/
def parseSyntax (cfg : ParserConfig) : SyntaxType → Procedure
  | .O_GPR_C_GPR_C_GPR => parseRegisters [.GP_REGISTER, .GP_REGISTER, .GP_REGISTER] .absent
  | .O_GPR_C_GPR_C_I => parseOGprCGprCI
  | .O_GPR_C_GPR_C_IL => parseOGprCGprCIl
  | .O_GPR_C_I_LP_GPR_RP => parseOGprCILpGprRp
  | .O_GPR_C_I => parseOGprCI
  | .O_GPR_C_IL => parseOGprCIl
  | .O_GPR_C_DL => parseOGprCDl cfg
  | .O_GPR_C_GPR_C_DL => return false
  | .O => parseO
  | .PSEUDO => parsePseudo cfg
  | .O_GPR_C_CSR_C_GPR => parseOGprCCsrCGpr
  | .O_GPR_C_CSR_C_I => parseOGprCCsrCI
  | .O_FPR_C_FPR_C_FPR_C_FPR =>
    parseRegisters [.FP_REGISTER, .FP_REGISTER, .FP_REGISTER, .FP_REGISTER] .dynamic
  | .O_FPR_C_FPR_C_FPR_C_FPR_C_RM =>
    parseRegisters [.FP_REGISTER, .FP_REGISTER, .FP_REGISTER, .FP_REGISTER] .given
  | .O_FPR_C_FPR_C_FPR => parseRegisters [.FP_REGISTER, .FP_REGISTER, .FP_REGISTER] .dynamic
  | .O_FPR_C_FPR_C_FPR_C_RM => parseRegisters [.FP_REGISTER, .FP_REGISTER, .FP_REGISTER] .given
  | .O_FPR_C_FPR => parseRegisters [.FP_REGISTER, .FP_REGISTER] .dynamic
  | .O_FPR_C_FPR_C_RM => parseRegisters [.FP_REGISTER, .FP_REGISTER] .given
  | .O_FPR_C_GPR => parseRegisters [.FP_REGISTER, .GP_REGISTER] .dynamic
  | .O_FPR_C_GPR_C_RM => parseRegisters [.FP_REGISTER, .GP_REGISTER] .given
  | .O_GPR_C_FPR => parseRegisters [.GP_REGISTER, .FP_REGISTER] .dynamic
  | .O_GPR_C_FPR_C_RM => parseRegisters [.GP_REGISTER, .FP_REGISTER] .given
  | .O_GPR_C_FPR_C_FPR => parseRegisters [.GP_REGISTER, .FP_REGISTER, .FP_REGISTER] .absent
  | .O_FPR_C_I_LP_GPR_RP => parseOFprCILpGprRp

/-- The loop over the syntaxes of a mnemonic, with its result `valid_syntax`. -/
def parseSyntaxes (cfg : ParserConfig) : List SyntaxType → Procedure
  | [] => return false
  | s :: rest => do
    if ← parseSyntax cfg s then return true
    else parseSyntaxes cfg rest

/-- From `p` the procedure does what a function without a state returns. -/
def Computes (p : Parser) (m : Procedure) (x : Except Thrown (Option Parser)) : Prop :=
  m.run p = x >>= fun o => .ok (o.isSome, o.getD p)

section

variable {cfg : ParserConfig} {p : Parser}

theorem Computes.none : Computes p (return false) (.ok none) := rfl

theorem Computes.finish (u : ICUnit) : Computes p (Procedure.finish u) (.ok (some (p.finish u))) :=
  rfl

theorem Computes.reject (record : Parser → Parser) :
    Computes p (Procedure.reject record) (.ok (some (record p).skipCurrentLine)) := rfl

theorem Computes.ite {c : Prop} [Decidable c] {m m' : Procedure}
    {x x' : Except Thrown (Option Parser)} (h : Computes p m x) (h' : Computes p m' x') :
    Computes p (if c then m else m') (if c then x else x') := by
  split
  · exact h
  · exact h'

theorem Computes.lift {α : Type} {x : Except Thrown α} {m : α → Procedure}
    {f : α → Except Thrown (Option Parser)} (h : ∀ a, Computes p (m a) (f a)) :
    Computes p (liftM x >>= m) (x >>= f) := by
  cases x with
  | error e => rfl
  | ok a => exact h a

theorem Computes.get {m : Parser → Procedure} {x : Except Thrown (Option Parser)}
    (h : Computes p (m p) x) : Computes p (MonadState.get >>= m) x := h

theorem finishImmediate_computes (t : Token) (low high : Int) (expected : String) (imm : Int)
    (u : ICUnit) : Computes p (finishImmediate t low high expected imm u)
      (.ok (some (p.finishImmediate t low high expected imm u))) := by
  unfold finishImmediate Parser.finishImmediate
  split
  · exact .finish _
  · exact .reject _

theorem finishAligned_computes (t : Token) (low high unit : Int) (expected : String) (imm : Int)
    (u : ICUnit) : Computes p (finishAligned t low high unit expected imm u)
      (.ok (some (p.finishAligned t low high unit expected imm u))) := by
  unfold finishAligned Parser.finishAligned
  split
  · split
    · exact .finish _
    · exact .reject _
  · exact .reject _

theorem finishLabel_computes (t : Token) (low high : Int) (expected : String) (u : ICUnit) :
    Computes p (finishLabel t low high expected u)
      (.ok (some (p.finishLabel t low high expected u))) := by
  apply Computes.get
  unfold Parser.finishLabel
  generalize p.symbolTable t.value = symbol
  rcases symbol with _ | ⟨address, line, isData⟩
  · rfl
  · cases isData with
    | true => rfl
    | false =>
      dsimp only
      split
      · exact .finish _
      · exact .reject _

theorem parseOffset_computes (set : ICUnit → String → ICUnit) :
    Computes p (parseOffset set) (p.parseOffset set) := by
  refine .get (.lift fun reg => .lift fun imm => ?_)
  exact .ite (.lift fun rs1 => .finish _) (.reject _)

theorem parseO_computes : Computes p parseO p.parseO := .get (.ite (.finish _) .none)

theorem parseRegisters_computes (types : List TokenType) (rm : RmField) :
    Computes p (parseRegisters types rm) (Parser.parseRegisters types rm p) :=
  .get (.ite (.lift fun _ => .lift fun _ => .finish _) .none)

theorem parseOGprCGprCI_computes : Computes p parseOGprCGprCI p.parseOGprCGprCI := by
  refine .get (.ite (.ite ?_ (.ite ?_ (.finish _))) .none)
  · refine .lift fun rd => .lift fun rs1 => .lift fun imm => ?_
    exact .ite (finishImmediate_computes _ _ _ _ _ _) (finishImmediate_computes _ _ _ _ _ _)
  · refine .lift fun rs1 => .lift fun rs2 => .lift fun imm => ?_
    exact finishAligned_computes _ _ _ _ _ _ _

theorem parseOGprCI_computes : Computes p parseOGprCI p.parseOGprCI := by
  refine .get (.ite (.ite ?_ (.ite ?_ (.finish _))) .none)
  · exact .lift fun rd => .lift fun imm => finishImmediate_computes _ _ _ _ _ _
  · exact .lift fun rd => .lift fun imm => finishAligned_computes _ _ _ _ _ _ _

theorem parseOGprCGprCIl_computes : Computes p parseOGprCGprCIl p.parseOGprCGprCIl := by
  refine .get (.ite (.ite ?_ (.finish _)) .none)
  exact .lift fun rs1 => .lift fun rs2 => finishLabel_computes _ _ _ _ _

theorem parseOGprCIl_computes : Computes p parseOGprCIl p.parseOGprCIl := by
  refine .get (.ite (.ite ?_ (.finish _)) .none)
  exact .lift fun rd => finishLabel_computes _ _ _ _ _

theorem parseOGprCDl_computes : Computes p (parseOGprCDl cfg) (Parser.parseOGprCDl cfg p) := by
  refine .get (.ite (.lift fun rd => ?_) .none)
  cases p.dataLabel 3 with
  | none => exact .reject _
  | some symbol => rfl

theorem parseOGprCILpGprRp_computes :
    Computes p parseOGprCILpGprRp p.parseOGprCILpGprRp := by
  refine .get (.ite (.ite ?_ (.ite ?_ (.ite ?_ (.finish _)))) .none)
  · exact parseOffset_computes _
  · exact parseOffset_computes _
  · exact parseOffset_computes _

theorem parseOGprCCsrCGpr_computes : Computes p parseOGprCCsrCGpr p.parseOGprCCsrCGpr :=
  .get (.ite (.lift fun _ => .lift fun _ => .lift fun _ => .finish _) .none)

theorem parseOGprCCsrCI_computes : Computes p parseOGprCCsrCI p.parseOGprCCsrCI := by
  refine .get (.ite (.lift fun rd => .lift fun csr => .lift fun imm => ?_) .none)
  exact finishImmediate_computes _ _ _ _ _ _

theorem parseOFprCILpGprRp_computes :
    Computes p parseOFprCILpGprRp p.parseOFprCILpGprRp := by
  refine .get (.ite (.ite ?_ (.ite ?_ (.finish _))) .none)
  · exact parseOffset_computes _
  · exact parseOffset_computes _

theorem parseLa_computes : Computes p (parseLa cfg) (Parser.parseLa cfg p) := by
  refine .get (.ite (.lift fun rd => ?_) .none)
  cases p.dataLabel 3 with
  | none => rfl
  | some symbol => rfl

theorem parseLi_computes : Computes p parseLi p.parseLi := by
  refine .get (.ite (.lift fun imm => .lift fun rd => ?_) .none)
  split
  · rfl
  · split
    · dsimp only
      split
      · rfl
      · rfl
    · rfl

theorem parseBare_computes (u : Parser → ICUnit) : Computes p (parseBare u)
    (if p.lineIs [] then return some (p.emit (u p) true).nextToken else return none) :=
  .get (.ite rfl .none)

theorem parsePair_computes (u : Parser → String → String → ICUnit) : Computes p (parsePair u)
    (if p.lineIs [.GP_REGISTER, .COMMA, .GP_REGISTER] then do
      let rd ← p.register 1
      let rs1 ← p.register 3
      return some (p.emit (u p rd rs1) true).skipCurrentLine
    else return none) :=
  .get (.ite (.lift fun _ => .lift fun _ => rfl) .none)

theorem parsePseudo_computes : Computes p (parsePseudo cfg) (Parser.parsePseudo cfg p) := by
  apply Computes.get
  split
  · rename_i hname
    rw [Parser.parsePseudo, hname]
    exact parseLa_computes
  · rename_i hname
    rw [Parser.parsePseudo, hname]
    exact parseBare_computes _
  · rename_i hname
    rw [Parser.parsePseudo, hname]
    exact parseLi_computes
  · rename_i hname
    rw [Parser.parsePseudo, hname]
    exact parsePair_computes _
  · rename_i hname
    rw [Parser.parsePseudo, hname]
    exact parsePair_computes _
  · rename_i hname
    rw [Parser.parsePseudo, hname]
    exact parseBare_computes _
  · rename_i hla hnop hli hmv hnot hret
    unfold Parser.parsePseudo
    split
    · exact absurd ‹_› hla
    · exact absurd ‹_› hnop
    · exact absurd ‹_› hli
    · exact absurd ‹_› hmv
    · exact absurd ‹_› hnot
    · exact absurd ‹_› hret
    · exact .none

/-- The procedures and the functions without a state do the same in every syntax. -/
theorem parseSyntax_computes (s : SyntaxType) :
    Computes p (parseSyntax cfg s) (Parser.parseSyntax cfg p s) := by
  cases s with
  | O_GPR_C_GPR_C_I => exact parseOGprCGprCI_computes
  | O_GPR_C_GPR_C_IL => exact parseOGprCGprCIl_computes
  | O_GPR_C_I_LP_GPR_RP => exact parseOGprCILpGprRp_computes
  | O_GPR_C_I => exact parseOGprCI_computes
  | O_GPR_C_IL => exact parseOGprCIl_computes
  | O_GPR_C_DL => exact parseOGprCDl_computes
  | O_GPR_C_GPR_C_DL => exact .none
  | O => exact parseO_computes
  | PSEUDO => exact parsePseudo_computes
  | O_GPR_C_CSR_C_GPR => exact parseOGprCCsrCGpr_computes
  | O_GPR_C_CSR_C_I => exact parseOGprCCsrCI_computes
  | O_FPR_C_I_LP_GPR_RP => exact parseOFprCILpGprRp_computes
  | _ => exact parseRegisters_computes _ _

/-- A syntax that does not fit leaves the parser to the next one as it was. -/
theorem Computes.orElse {m m' : Procedure} {x x' : Except Thrown (Option Parser)}
    (h : Computes p m x) (h' : Computes p m' x') :
    Computes p (m >>= fun valid => if valid then return true else m')
      (x >>= fun o => match o with
        | .some q => return some q
        | .none => x') := by
  unfold Computes at h ⊢
  rw [StateT.run_bind, h]
  cases x with
  | error e => rfl
  | ok o =>
    cases o with
    | some q => rfl
    | none => exact h'

theorem parseSyntaxes_computes (ss : List SyntaxType) :
    Computes p (parseSyntaxes cfg ss) (Parser.parseSyntaxes cfg p ss) := by
  induction ss with
  | nil => exact .none
  | cons s ss ih => exact (parseSyntax_computes s).orElse ih

end

end Procedure

end Parser

end RiscvSim
