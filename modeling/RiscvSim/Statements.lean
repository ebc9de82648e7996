import RiscvSim.ParsePasses

/-! What one statement does to the parser: it fails with an error, or it appends units whose
operands have the form that their mnemonic asks for. -/

namespace RiscvSim

/-- The two kinds of register operands. -/
inductive Bank where
  | gpr | fpr
  deriving DecidableEq, Repr

namespace Bank

def name : Bank → RegIndex → String
  | gpr => gprName
  | fpr => fprName

def ofToken : TokenType → Option Bank
  | .GP_REGISTER => some gpr
  | .FP_REGISTER => some fpr
  | _ => none

end Bank

/-- The operands that a unit has. -/
structure Layout where
  rd : Option Bank := none
  rs1 : Option Bank := none
  rs2 : Option Bank := none
  rs3 : Option Bank := none
  imm : Option (Int × Int) := none
  csr : Bool := false
  rm : Parser.RmField := .absent
  deriving DecidableEq, Repr

def IsRegister (bank : Option Bank) (name : String) : Prop :=
  match bank with
  | none => name = ""
  | some bank => ∃ r, name = bank.name r

namespace Layout

/-- The operands of `u` but its immediate are as laid out. -/
structure Registers (l : Layout) (u : ICUnit) : Prop where
  rd : IsRegister l.rd u.rd
  rs1 : IsRegister l.rs1 u.rs1
  rs2 : IsRegister l.rs2 u.rs2
  rs3 : IsRegister l.rs3 u.rs3
  csr : u.csr < 0x1000
  noCsr : l.csr = false → u.csr = 0
  rm : u.rm < 8
  noRm : l.rm = .absent → u.rm = 0

def Immediate (l : Layout) (u : ICUnit) : Prop :=
  match l.imm with
  | none => u.imm = ""
  | some (low, high) => ∃ n : Int, u.imm = toString n ∧ low ≤ n ∧ n ≤ high

end Layout

namespace InstructionSet

/-- A statement of registers only. -/
def registerLayout (types : List TokenType) (rm : Parser.RmField) : Layout where
  rd := types[0]?.bind Bank.ofToken
  rs1 := types[1]?.bind Bank.ofToken
  rs2 := types[2]?.bind Bank.ofToken
  rs3 := types[3]?.bind Bank.ofToken
  rm := rm

/-- The layout of the units of a mnemonic in one of its syntaxes. The immediate of LUI and
AUIPC is as wide as the pseudo-instructions make it. -/
def layout (opcode : String) : SyntaxType → Option Layout
  | .O_GPR_C_GPR_C_GPR =>
    some (registerLayout [.GP_REGISTER, .GP_REGISTER, .GP_REGISTER] .absent)
  | .O_GPR_C_GPR_C_I =>
    if isValidITypeInstruction opcode then
      if isValidI2TypeInstruction opcode then
        some { rd := some .gpr, rs1 := some .gpr, imm := some (0, 31) }
      else some { rd := some .gpr, rs1 := some .gpr, imm := some (-2048, 2047) }
    else if isValidBTypeInstruction opcode then
      some { rs1 := some .gpr, rs2 := some .gpr, imm := some (-4096, 4095) }
    else some {}
  | .O_GPR_C_GPR_C_IL =>
    if isValidBTypeInstruction opcode then
      some { rs1 := some .gpr, rs2 := some .gpr, imm := some (-4096, 4095) }
    else some {}
  | .O_GPR_C_I_LP_GPR_RP =>
    if isValidITypeInstruction opcode then
      some { rd := some .gpr, rs1 := some .gpr, imm := some (-2048, 2047) }
    else if isValidSTypeInstruction opcode ∨ isValidSRTypeInstruction opcode then
      some { rs1 := some .gpr, rs2 := some .gpr, imm := some (-2048, 2047) }
    else some {}
  | .O_GPR_C_I =>
    if isValidUTypeInstruction opcode then
      some { rd := some .gpr, imm := some (-2147483648, 2147483647) }
    else if isValidJTypeInstruction opcode then
      some { rd := some .gpr, imm := some (-1048576, 1048575) }
    else some {}
  | .O_GPR_C_IL =>
    if isValidJTypeInstruction opcode then
      some { rd := some .gpr, imm := some (-1048576, 1048575) }
    else some {}
  | .O => some {}
  | .O_GPR_C_CSR_C_GPR => some { rd := some .gpr, rs1 := some .gpr, csr := true }
  | .O_GPR_C_CSR_C_I => some { rd := some .gpr, imm := some (0, 31), csr := true }
  | .O_FPR_C_FPR_C_FPR_C_FPR =>
    some (registerLayout [.FP_REGISTER, .FP_REGISTER, .FP_REGISTER, .FP_REGISTER] .dynamic)
  | .O_FPR_C_FPR_C_FPR_C_FPR_C_RM =>
    some (registerLayout [.FP_REGISTER, .FP_REGISTER, .FP_REGISTER, .FP_REGISTER] .given)
  | .O_FPR_C_FPR_C_FPR =>
    some (registerLayout [.FP_REGISTER, .FP_REGISTER, .FP_REGISTER] .dynamic)
  | .O_FPR_C_FPR_C_FPR_C_RM =>
    some (registerLayout [.FP_REGISTER, .FP_REGISTER, .FP_REGISTER] .given)
  | .O_FPR_C_FPR => some (registerLayout [.FP_REGISTER, .FP_REGISTER] .dynamic)
  | .O_FPR_C_FPR_C_RM => some (registerLayout [.FP_REGISTER, .FP_REGISTER] .given)
  | .O_FPR_C_GPR => some (registerLayout [.FP_REGISTER, .GP_REGISTER] .dynamic)
  | .O_FPR_C_GPR_C_RM => some (registerLayout [.FP_REGISTER, .GP_REGISTER] .given)
  | .O_GPR_C_FPR => some (registerLayout [.GP_REGISTER, .FP_REGISTER] .dynamic)
  | .O_GPR_C_FPR_C_RM => some (registerLayout [.GP_REGISTER, .FP_REGISTER] .given)
  | .O_GPR_C_FPR_C_FPR =>
    some (registerLayout [.GP_REGISTER, .FP_REGISTER, .FP_REGISTER] .absent)
  | .O_FPR_C_I_LP_GPR_RP =>
    if isValidFDITypeInstruction opcode then
      some { rd := some .fpr, rs1 := some .gpr, imm := some (-2048, 2047) }
    else if isValidFDSTypeInstruction opcode then
      some { rs1 := some .gpr, rs2 := some .fpr, imm := some (-2048, 2047) }
    else some {}
  | .O_GPR_C_GPR_C_DL | .O_GPR_C_DL | .PSEUDO => none

end InstructionSet

namespace ICUnit

open InstructionSet

/-- The operands of `u` but its immediate are those of one of the syntaxes of its mnemonic. -/
def Waiting (u : ICUnit) : Prop :=
  ∃ s ∈ syntaxes u.opcode, ∃ l, layout u.opcode s = some l ∧ l.Registers u

/-- The operands of `u` are those of one of the syntaxes of its mnemonic. -/
def Good (u : ICUnit) : Prop :=
  ∃ s ∈ syntaxes u.opcode, ∃ l, layout u.opcode s = some l ∧ l.Registers u ∧ l.Immediate u

/-- A numeric offset of a branch is a multiple of 4, one of a jump a multiple of 2. -/
def Aligned (u : ICUnit) : Prop :=
  (isValidBTypeInstruction u.opcode = true → ∃ n : Int, u.imm = toString n ∧ 4 ∣ n) ∧
  (isValidJTypeInstruction u.opcode = true → ∃ n : Int, u.imm = toString n ∧ 2 ∣ n)

/-- A unit of a statement without a label of the text section. -/
structure Plain (u : ICUnit) : Prop where
  good : u.Good
  aligned : u.Aligned
  label : u.label = ""

/-- A branch or a jump with a label. -/
structure Links (u : ICUnit) : Prop where
  waiting : u.Waiting
  kind : isValidBTypeInstruction u.opcode = true ∨ isValidJTypeInstruction u.opcode = true
  label : u.label ≠ ""

end ICUnit

namespace Parser

open InstructionSet

/-- `r` is what is left after some tokens of `p`. -/
structure Consumed (p : Parser) (r : List Token) : Prop where
  suffix : r <:+ p.rest
  shorter : r.length < p.rest.length

/-- The lines of the instructions, after those from `index` on have been entered. -/
def enterLines (lines : Nat → Option Nat) : Nat → List (ICUnit × Bool) → Nat → Option Nat
  | _, [] => lines
  | index, (u, _) :: units =>
    enterLines (fun i => if i = index then some u.lineNumber else lines i) (index + 1) units

/-- The parser after a statement with these units. -/
def after (p : Parser) (r : List Token) (units : List (ICUnit × Bool)) (back : List Nat) :
    Parser :=
  { p with
    rest := r
    instructionIndex := p.instructionIndex + units.length
    instructionNumberLineNumberMapping :=
      enterLines p.instructionNumberLineNumberMapping p.instructionIndex units
    backPatch := p.backPatch ++ back
    intermediateCode := p.intermediateCode ++ units }

/-- The units of a statement, and the index that it leaves to be patched. -/
inductive Emission (p : Parser) : List (ICUnit × Bool) → List Nat → Prop
  | plain {units} (h : ∀ u b, (u, b) ∈ units → b = true ∧ u.Plain) : Emission p units []
  | linked {u symbol} (h : u.Links) (hgood : u.Good)
      (hsymbol : p.symbolTable u.label = some symbol) (htext : symbol.isData = false)
      (himm : u.imm = toString (symbol.address - textAddress p.instructionIndex).toInt) :
      Emission p [(u, true)] []
  | deferred {u} (h : u.Links) : Emission p [(u, false)] [p.instructionIndex]

inductive Statement (p : Parser) : Parser → Prop
  | failed {r errors} (hr : p.Consumed r) (herrors : p.errors.count < errors.count) :
      Statement p { p with rest := r, errors }
  | emitted {r units back} (hr : p.Consumed r) (h : Emission p units back) :
      Statement p (p.after r units back)

variable {cfg : ParserConfig} {p q : Parser}

theorem notEof_iff : p.notEof = true ↔ p.currentToken.type ≠ .EOF_ := by
  simp [notEof]

/-- A current token that is not the end is the head of the list. -/
theorem rest_of_notEof (h : p.notEof = true) : p.rest = p.currentToken :: p.rest.tail := by
  cases hrest : p.rest with
  | nil => simp [notEof, currentToken, hrest, eofToken] at h
  | cons t r => simp [currentToken, hrest]

theorem consumed_tail (h : p.notEof = true) : p.Consumed p.rest.tail := by
  have hrest := rest_of_notEof h
  refine ⟨List.tail_suffix _, ?_⟩
  rw [hrest]
  simp

theorem consumed_dropWhile {f : Token → Bool} (h : p.notEof = true)
    (hf : f p.currentToken = true) : p.Consumed (p.rest.dropWhile f) := by
  have hrest := rest_of_notEof h
  refine ⟨List.dropWhile_suffix _, ?_⟩
  rw [hrest, List.dropWhile_cons_of_pos hf]
  exact Nat.lt_succ_of_le (List.dropWhile_suffix _).length_le

theorem consumed_skipCurrentLine (h : p.notEof = true) : p.Consumed p.skipCurrentLine.rest := by
  apply consumed_dropWhile h
  simpa using notEof_iff.mp h

theorem lexed_peekToken (hp : LexedTokens p.rest) (n : Nat) : (p.peekToken n).Lexed := by
  rw [peekToken]
  cases hdrop : p.rest.drop n with
  | nil => exact Token.lexed_eofToken
  | cons t r => exact hp t (List.mem_of_mem_drop (hdrop ▸ List.mem_cons_self))

theorem lineIs_type {types : List TokenType} (h : p.lineIs types = true) {i : Nat}
    {type : TokenType} (hi : types[i]? = some type) : (p.peekToken (i + 1)).type = type := by
  simp only [lineIs, Bool.and_eq_true, List.all_eq_true] at h
  have hmem : (type, i) ∈ types.zipIdx := List.mk_mem_zipIdx_iff_getElem?.mpr hi
  exact eq_of_beq (h.1 _ hmem).2

end Parser

/-- Every name of a register that the lexer knows is translated to a name with an index, if it
is translated at all. -/
theorem regAliasToName_table :
    (∀ name ∈ validGeneralPurposeRegisters, ∃ i < 32,
      regAliasToName.lookup name = some ("x" ++ Nat.repr i)) ∧
    ∀ name ∈ validFloatingPointRegisters, regAliasToName.lookup name = none ∨
      ∃ i < 32, regAliasToName.lookup name = some ("f" ++ Nat.repr i) := by decide +kernel

theorem regAliasToName_gpr {name reg : String} (h : isValidGeneralPurposeRegister name = true)
    (hreg : mapAt regAliasToName name = .ok reg) : ∃ r, reg = gprName r := by
  obtain ⟨i, hi, hlookup⟩ := regAliasToName_table.1 name (List.contains_iff_mem.mp h)
  rw [mapAt, hlookup] at hreg
  refine ⟨BitVec.ofNat 5 i, (Except.ok.inj hreg).symm.trans ?_⟩
  simp [gprName, Nat.mod_eq_of_lt hi]

theorem regAliasToName_fpr {name reg : String} (h : isValidFloatingPointRegister name = true)
    (hreg : mapAt regAliasToName name = .ok reg) : ∃ r, reg = fprName r := by
  rw [mapAt] at hreg
  rcases regAliasToName_table.2 name (List.contains_iff_mem.mp h) with hlookup | ⟨i, hi, hlookup⟩
  · rw [hlookup] at hreg
    exact nomatch hreg
  · rw [hlookup] at hreg
    refine ⟨BitVec.ofNat 5 i, (Except.ok.inj hreg).symm.trans ?_⟩
    simp [fprName, Nat.mod_eq_of_lt hi]

namespace InstructionSet

theorem control_table :
    (∀ op ∈ bTypeInstructions, syntaxes op = [.O_GPR_C_GPR_C_I, .O_GPR_C_GPR_C_IL] ∧
      isValidITypeInstruction op = false) ∧
    ∀ op ∈ jTypeInstructions, syntaxes op = [.O_GPR_C_I, .O_GPR_C_IL] ∧
      isValidUTypeInstruction op = false := by decide +kernel

theorem syntaxes_branch {opcode : String} (h : isValidBTypeInstruction opcode = true) :
    syntaxes opcode = [.O_GPR_C_GPR_C_I, .O_GPR_C_GPR_C_IL] :=
  (control_table.1 opcode (List.contains_iff_mem.mp h)).1

theorem syntaxes_jump {opcode : String} (h : isValidJTypeInstruction opcode = true) :
    syntaxes opcode = [.O_GPR_C_I, .O_GPR_C_IL] :=
  (control_table.2 opcode (List.contains_iff_mem.mp h)).1

theorem branch_not_immediate {opcode : String} (h : isValidBTypeInstruction opcode = true) :
    isValidITypeInstruction opcode = false :=
  (control_table.1 opcode (List.contains_iff_mem.mp h)).2

theorem jump_not_upper {opcode : String} (h : isValidJTypeInstruction opcode = true) :
    isValidUTypeInstruction opcode = false :=
  (control_table.2 opcode (List.contains_iff_mem.mp h)).2

end InstructionSet

namespace ICUnit

open InstructionSet

/-- Only the syntaxes of branches and jumps ask for an aligned immediate. -/
theorem aligned_of_syntax {u : ICUnit} {s : SyntaxType} (hs : s ∈ syntaxes u.opcode)
    (hbranch : s = .O_GPR_C_GPR_C_I ∨ s = .O_GPR_C_GPR_C_IL →
      isValidBTypeInstruction u.opcode = false)
    (hjump : s = .O_GPR_C_I ∨ s = .O_GPR_C_IL → isValidJTypeInstruction u.opcode = false) :
    u.Aligned := by
  refine ⟨fun h => ?_, fun h => ?_⟩
  · rw [syntaxes_branch h] at hs
    exact absurd h (by rw [hbranch (by simpa using hs)]; decide)
  · rw [syntaxes_jump h] at hs
    exact absurd h (by rw [hjump (by simpa using hs)]; decide)

end ICUnit

namespace Parser

open InstructionSet

variable {cfg : ParserConfig} {p q : Parser}

theorem isRegister_register (hp : LexedTokens p.rest) {n : Nat} {bank : Bank} {name : String}
    (hbank : Bank.ofToken (p.peekToken n).type = some bank) (h : p.register n = .ok name) :
    IsRegister (some bank) name := by
  have hlexed := lexed_peekToken hp n
  cases htype : (p.peekToken n).type <;> rw [htype] at hbank <;>
    simp only [Bank.ofToken, Option.some.injEq, reduceCtorEq] at hbank
  · subst hbank
    simp only [Token.Lexed, htype] at hlexed
    exact regAliasToName_gpr hlexed h
  · subst hbank
    simp only [Token.Lexed, htype] at hlexed
    exact regAliasToName_fpr hlexed h

theorem gpr_register (hp : LexedTokens p.rest) {n : Nat} {name : String}
    (htype : (p.peekToken n).type = .GP_REGISTER) (h : p.register n = .ok name) :
    IsRegister (some .gpr) name :=
  isRegister_register hp (by rw [htype]; rfl) h

theorem fpr_register (hp : LexedTokens p.rest) {n : Nat} {name : String}
    (htype : (p.peekToken n).type = .FP_REGISTER) (h : p.register n = .ok name) :
    IsRegister (some .fpr) name :=
  isRegister_register hp (by rw [htype]; rfl) h

theorem label_ne_empty (hp : LexedTokens p.rest) {n : Nat}
    (htype : (p.peekToken n).type = .LABEL_REF) : (p.peekToken n).value ≠ "" := by
  have hlexed := lexed_peekToken hp n
  simpa only [Token.Lexed, htype] using hlexed

/-- The conversion of a number token gives the number that it shows. -/
theorem stoll_token (hp : LexedTokens p.rest) {n : Nat} {imm : Int}
    (htype : (p.peekToken n).type = .NUM) (h : stoll (p.peekToken n).value = .ok imm) :
    (p.peekToken n).value = toString imm := by
  have hlexed := lexed_peekToken hp n
  simp only [Token.Lexed, htype] at hlexed
  obtain ⟨m, hm, -⟩ := hlexed
  rw [hm, stoll, stoRange, Decimal.value_toString] at h
  dsimp only at h
  split at h
  · rw [hm, Except.ok.inj h]
  · exact nomatch h

theorem mem_of_lookup {α : Type} {entries : List (String × α)} {key : String} {x : α}
    (h : entries.lookup key = some x) : (key, x) ∈ entries := by
  obtain ⟨l₁, l₂, rfl, -⟩ := List.lookup_eq_some_iff.mp h
  simp

theorem csr_address {name : String} {csr : BitVec 32} (h : mapAt csrToAddress name = .ok csr) :
    csr < 0x1000 := by
  have htable : ∀ entry ∈ csrToAddress, entry.2 < 0x1000 := by decide
  unfold mapAt at h
  split at h
  · rename_i hlookup
    obtain rfl := Except.ok.inj h
    exact htable _ (mem_of_lookup hlookup)
  · exact nomatch h

theorem roundingMode_lt {mode : String} {rm : Byte} (h : getRoundingModeEncoding mode = .ok rm) :
    rm < 8 := by
  have htable : ∀ entry ∈ roundingModeEncoding, entry.2 < 8 := by decide
  unfold getRoundingModeEncoding at h
  split at h
  · rename_i hlookup
    obtain rfl := Except.ok.inj h
    exact htable _ (mem_of_lookup hlookup)
  · exact nomatch h

theorem fail_count (t : Token) (message : String) (kind : ErrorKind)
    (mainMessage subMessage : String) :
    p.errors.count < (p.fail t message kind mainMessage subMessage).errors.count := by
  simp only [Parser.fail, failWith, recordError]
  omega

theorem Statement.fail (h : p.notEof = true) (t : Token) (message : String) (kind : ErrorKind)
    (mainMessage subMessage : String) :
    Statement p (p.fail t message kind mainMessage subMessage).skipCurrentLine :=
  .failed (consumed_skipCurrentLine h) (fail_count t message kind mainMessage subMessage)

theorem Statement.emit {r : List Token} (hr : p.Consumed r) {u : ICUnit} (hu : u.Plain) :
    Statement p { p.emit u true with rest := r } := by
  have h : Statement p (p.after r [(u, true)] []) :=
    .emitted hr (.plain fun v b hmem => by
      obtain ⟨rfl, rfl⟩ := Prod.mk.inj (List.mem_singleton.mp hmem)
      exact ⟨rfl, hu⟩)
  rw [after, List.append_nil] at h
  exact h

theorem Statement.finish (h : p.notEof = true) {u : ICUnit} (hu : u.Plain) :
    Statement p (p.finish u) :=
  .emit (consumed_skipCurrentLine h) hu

theorem Statement.emit_two {r : List Token} (hr : p.Consumed r) {u v : ICUnit} (hu : u.Plain)
    (hv : v.Plain) : Statement p { (p.emit u true).emit v true with rest := r } := by
  have h : Statement p (p.after r [(u, true), (v, true)] []) :=
    .emitted hr (.plain fun w b hmem => by
      rcases List.mem_pair.mp hmem with hmem | hmem <;> obtain ⟨rfl, rfl⟩ := Prod.mk.inj hmem
      · exact ⟨rfl, hu⟩
      · exact ⟨rfl, hv⟩)
  have hcode : p.intermediateCode ++ [(u, true), (v, true)] =
      p.intermediateCode ++ [(u, true)] ++ [(v, true)] := by
    rw [List.append_assoc]
    rfl
  rw [after, hcode, List.append_nil] at h
  exact h

theorem Statement.finishImmediate (h : p.notEof = true) {t : Token} {low high imm : Int}
    {expected : String} {u : ICUnit}
    (hu : low ≤ imm → imm ≤ high → ({ u with imm := toString imm } : ICUnit).Plain) :
    Statement p (p.finishImmediate t low high expected imm u) := by
  unfold Parser.finishImmediate
  split
  · rename_i hrange
    exact .finish h (hu hrange.1 hrange.2)
  · exact .fail h _ _ _ _ _

theorem Statement.finishAligned (h : p.notEof = true) {t : Token} {low high unit imm : Int}
    {expected : String} {u : ICUnit} (hu : low ≤ imm → imm ≤ high → unit ∣ imm →
      ({ u with imm := toString imm } : ICUnit).Plain) :
    Statement p (p.finishAligned t low high unit expected imm u) := by
  unfold Parser.finishAligned
  split
  · rename_i hrange
    split
    · rename_i hmod
      exact .finish h (hu hrange.1 hrange.2 (Int.dvd_of_tmod_eq_zero hmod))
    · exact .fail h _ _ _ _ _
  · exact .fail h _ _ _ _ _

theorem Statement.finishLabel (h : p.notEof = true) {t : Token} {low high : Int}
    {expected : String} {u : ICUnit}
    (hlinks : ∀ imm, ({ u with imm, label := t.value } : ICUnit).Links)
    (hgood : ∀ imm : Int, low ≤ imm → imm ≤ high →
      ({ u with imm := toString imm, label := t.value } : ICUnit).Good) :
    Statement p (p.finishLabel t low high expected u) := by
  unfold Parser.finishLabel
  split
  · rename_i address line hsymbol
    dsimp only
    split
    · rename_i hrange
      have hstep : Statement p (p.after p.skipCurrentLine.rest [({ u with
          imm := toString (address - textAddress p.instructionIndex).toInt
          label := t.value }, true)] []) :=
        .emitted (consumed_skipCurrentLine h)
          (.linked (hlinks _) (hgood _ hrange.1 hrange.2) hsymbol rfl rfl)
      rw [after, List.append_nil] at hstep
      exact hstep
    · exact .fail h _ _ _ _ _
  · have hstep : Statement p (p.after p.skipCurrentLine.rest [({ u with label := t.value }, false)]
        [p.instructionIndex]) :=
      .emitted (consumed_skipCurrentLine h) (.deferred (hlinks u.imm))
    exact hstep

end Parser

end RiscvSim
