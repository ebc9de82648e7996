import RiscvSim.FirstPass
import RiscvSim.LoadImmediate
import RiscvSim.LoadsStores

/-! `la` and the loads from a label: the distance to the data section, split for AUIPC and
the instruction after it. -/

namespace RiscvSim

open CodeGenerator

theorem upperWord_toInt (hi : BitVec 32) :
    Vm.upperWord (BitVec.ofInt 20 hi.toInt) = (hi <<< 12).signExtend 64 := by
  have hlow : (BitVec.ofInt 20 hi.toInt).setWidth 32 <<< 12 = hi <<< 12 := by
    apply BitVec.eq_of_toNat_eq
    rw [BitVec.toNat_shiftLeft, BitVec.toNat_shiftLeft, BitVec.toNat_setWidth_of_le (by decide),
      BitVec.toNat_ofInt, BitVec.toInt_eq_toNat_bmod, Int.bmod_def, Nat.shiftLeft_eq,
      Nat.shiftLeft_eq]
    omega
  rw [Vm.upperWord, hlow]

theorem and_low_toNat (y : BitVec 32) : (y &&& 0xfff).toNat = y.toNat % 4096 := by
  show y.toNat &&& (2 ^ 12 - 1) = _
  rw [Nat.and_two_pow_sub_one_eq_mod]

namespace Parser

variable {cfg : ParserConfig} {p : Parser} {address : Word}

/-- The distance from an instruction to an address of the data section. -/
def distance (cfg : ParserConfig) (index : Nat) (address : Word) : Word :=
  cfg.dataSectionStart + address - textAddress index

theorem dataOffset_high (cfg : ParserConfig) (p : Parser) (address : Word) :
    (dataOffset cfg p address).1 <<< 12 =
      (distance cfg p.instructionIndex address + 0x800).setWidth 32 &&& 0xfffff000 :=
  upper_part _

theorem bmod_shift (n : Nat) : ((n : Int).bmod (2 ^ 64) + 2048).bmod (2 ^ 32) =
    (((n + 2048) % 2 ^ 32 : Nat) : Int).bmod (2 ^ 32) := by
  simp only [Int.bmod_def]
  omega

theorem bmod_parts {n : Nat} (hn : n < 2 ^ 32) :
    ((n : Int).bmod (2 ^ 32) - ((n % 4096 : Nat) : Int)).bmod (2 ^ 32) +
      (((n % 4096 : Nat) : Int) - 2048).bmod (2 ^ 32) = (n : Int).bmod (2 ^ 32) - 2048 := by
  simp only [Int.bmod_def]
  omega

/-- The parts of a distance make it up within 32 bits. -/
theorem parts_sum {d : Word} {y : BitVec 32} (hy : (d + 0x800).setWidth 32 = y) :
    (y &&& 0xfffff000).toInt + ((y &&& 0xfff) - 0x800).toInt =
      (d.toInt + 2048).bmod (2 ^ 32) - 2048 := by
  have hyNat : y.toNat = (d.toNat + 2048) % 2 ^ 32 := by
    rw [← hy, BitVec.toNat_setWidth, BitVec.toNat_add]
    simp
  have hupper : y &&& 0xfffff000 = y - (y &&& 0xfff) := by
    have h := sub_upper_part y
    grind
  have hz := and_low_toNat y
  have hzInt : (y &&& 0xfff).toInt = (y.toNat % 4096 : Nat) := by
    rw [← hz]
    exact BitVec.toInt_eq_toNat_of_lt (by omega)
  have h800 : (0x800 : BitVec 32).toInt = 2048 := by decide
  rw [hupper, BitVec.toInt_sub, BitVec.toInt_sub, hzInt, h800, BitVec.toInt_eq_toNat_bmod y,
    BitVec.toInt_eq_toNat_bmod d, bmod_shift, ← hyNat]
  exact bmod_parts y.isLt

theorem dataOffset_sum (cfg : ParserConfig) (p : Parser) (address : Word) :
    Vm.upperWord (BitVec.ofInt 20 (dataOffset cfg p address).1.toInt) +
      (BitVec.ofInt 12 (dataOffset cfg p address).2.toInt).signExtend 64 =
    BitVec.ofInt 64
      (((distance cfg p.instructionIndex address).toInt + 2048).bmod (2 ^ 32) - 2048) := by
  obtain ⟨hlow, hhigh⟩ := dataOffset_low_range cfg p address
  have hsum := parts_sum (d := distance cfg p.instructionIndex address) rfl
  rw [← dataOffset_high, distance, ← dataOffset_low] at hsum
  rw [upperWord_toInt, signExtend_ofInt, bmod_self (by omega) (by omega), BitVec.signExtend,
    ← BitVec.ofInt_add, hsum, distance]

/-- The parts of the distance are those that AUIPC and the instruction after it add up. -/
def InReach (cfg : ParserConfig) (index : Nat) (address : Word) : Prop :=
  -2147485696 ≤ (distance cfg index address).toInt ∧
    (distance cfg index address).toInt ≤ 2147481599

instance (cfg : ParserConfig) (index : Nat) (address : Word) :
    Decidable (InReach cfg index address) := inferInstanceAs (Decidable (_ ∧ _))

theorem inReach_iff (cfg : ParserConfig) (p : Parser) (address : Word) :
    textAddress p.instructionIndex + Vm.upperWord (BitVec.ofInt 20 (dataOffset cfg p address).1.toInt) +
      (BitVec.ofInt 12 (dataOffset cfg p address).2.toInt).signExtend 64 =
        cfg.dataSectionStart + address ↔ InReach cfg p.instructionIndex address := by
  have hsplit (a b c s : Word) : a + b + c = s ↔ b + c = s - a := by grind
  rw [hsplit, dataOffset_sum]
  change BitVec.ofInt 64 _ = distance cfg p.instructionIndex address ↔ _
  rw [InReach]
  generalize distance cfg p.instructionIndex address = d
  have hlow := BitVec.le_two_mul_toInt (x := d)
  have hhigh := BitVec.two_mul_toInt_lt (x := d)
  rw [← BitVec.toInt_inj, BitVec.toInt_ofInt]
  simp only [Int.bmod_def]
  omega

end Parser

/-- The statements that name a data label. -/
inductive DataOp where
  | la | lb | lh | lw | ld
  deriving DecidableEq, Repr

namespace DataOp

def mnemonic : DataOp → String
  | la => "la"
  | lb => "lb"
  | lh => "lh"
  | lw => "lw"
  | ld => "ld"

def loadOp : DataOp → Option LoadOp
  | la => none
  | lb => some .lb
  | lh => some .lh
  | lw => some .lw
  | ld => some .ld

/-- The word after the AUIPC. -/
def second (op : DataOp) (rd : RegIndex) (imm : BitVec 12) : Instr :=
  match op.loadOp with
  | none => Instr.iType imm rd 0b000#3 rd 0b0010011#7
  | some load => load.word rd rd imm

/-- The index that the source gives to the unit of the AUIPC. -/
def auipcIndex (op : DataOp) (p : Parser) : Nat :=
  if op = la then p.instructionIndex else p.instructionIndex + 1

/-- The unit of the AUIPC. -/
def auipcUnit (cfg : ParserConfig) (op : DataOp) (p : Parser) (rd : RegIndex) (address : Word) :
    ICUnit :=
  { opcode := "auipc", lineNumber := p.currentToken.lineNumber
    instructionIndex := op.auipcIndex p, rd := gprName rd
    imm := toString (Parser.dataOffset cfg p address).1.toInt }

/-- The unit of the second instruction. -/
def secondUnit (cfg : ParserConfig) (op : DataOp) (p : Parser) (rd : RegIndex) (address : Word) :
    ICUnit :=
  { opcode := if op = la then "addi" else op.mnemonic
    lineNumber := p.currentToken.lineNumber
    instructionIndex := if op = la then p.instructionIndex + 1 else 0
    rd := gprName rd, rs1 := gprName rd
    imm := toString (Parser.dataOffset cfg p address).2.toInt }

/-- The parser after the statement. -/
def emitted (cfg : ParserConfig) (op : DataOp) (p : Parser) (rd : RegIndex) (address : Word) :
    Parser :=
  ((p.emit (op.auipcUnit cfg p rd address) true).emit (op.secondUnit cfg p rd address)
    true).skipCurrentLine

end DataOp

/-- The parser is at `op rd, label`, in any of the names that the registers have. -/
structure DataStatement (p : Parser) (op : DataOp) (rd : RegIndex) (label : String) : Prop where
  type : p.currentToken.type = .OPCODE
  opcode : p.currentToken.value = op.mnemonic
  line : p.lineIs [.GP_REGISTER, .COMMA, .LABEL_REF] = true
  rd : p.register 1 = .ok (gprName rd)
  label : (p.peekToken 3).value = label

section

variable {cfg : ParserConfig} {p : Parser} {op : DataOp} {rd : RegIndex} {label : String}

theorem DataStatement.parseOGprCDl (h : DataStatement p op rd label) (hop : op ≠ .la) :
    (∃ t, Parser.parseOGprCDl cfg p = .ok (some (p.invalidLabel t).skipCurrentLine)) ∨
    ∃ symbol, p.symbolTable label = some symbol ∧ symbol.isData = true ∧
      Parser.parseOGprCDl cfg p = .ok (some (op.emitted cfg p rd symbol.address)) := by
  rw [Parser.parseOGprCDl, if_pos h.line, h.rd, Loop.bind_ok]
  cases hdata : p.dataLabel 3 with
  | none => exact .inl ⟨_, rfl⟩
  | some symbol =>
    rw [Parser.dataLabel, h.label, Option.filter_eq_some_iff] at hdata
    refine .inr ⟨symbol, hdata.1, hdata.2, ?_⟩
    simp only [DataOp.emitted, DataOp.auipcUnit, DataOp.secondUnit, DataOp.auipcIndex, if_neg hop,
      ← h.opcode]
    rfl

theorem DataStatement.parseLa (h : DataStatement p .la rd label) :
    (∃ t, Parser.parseLa cfg p = .ok (some (p.invalidLabel t).skipCurrentLine)) ∨
    ∃ symbol, p.symbolTable label = some symbol ∧ symbol.isData = true ∧
      Parser.parseLa cfg p = .ok (some (DataOp.emitted cfg .la p rd symbol.address)) := by
  rw [Parser.parseLa, if_pos h.line, h.rd, Loop.bind_ok]
  cases hdata : p.dataLabel 3 with
  | none => exact .inl ⟨_, rfl⟩
  | some symbol =>
    rw [Parser.dataLabel, h.label, Option.filter_eq_some_iff] at hdata
    exact .inr ⟨symbol, hdata.1, hdata.2, rfl⟩

/-- A load with a label has not the syntax of one with an offset. -/
theorem DataStatement.not_offset (h : DataStatement p op rd label) :
    p.lineIs [.GP_REGISTER, .COMMA, .NUM, .LPAREN, .GP_REGISTER, .RPAREN] = false := by
  cases hline : p.lineIs [.GP_REGISTER, .COMMA, .NUM, .LPAREN, .GP_REGISTER, .RPAREN] with
  | false => rfl
  | true =>
    have hnum := Parser.lineIs_type hline (i := 2) rfl
    rw [Parser.lineIs_type h.line (i := 2) rfl] at hnum
    cases hnum

theorem parseStatement_second {s t : InstructionSet.SyntaxType} {q : Parser}
    (hext : InstructionSet.isValidMExtensionInstruction p.currentToken.value = false)
    (hform : InstructionSet.syntaxes p.currentToken.value = [s, t])
    (hnone : Parser.parseSyntax cfg p s = .ok none)
    (h : Parser.parseSyntax cfg p t = .ok (some q)) : Parser.parseStatement cfg p = .ok q := by
  unfold Parser.parseStatement
  simp only [hext, hform, Parser.parseSyntaxes, hnone, h, Loop.bind_ok]
  rfl

theorem DataStatement.turn (h : DataStatement p op rd label) :
    (∃ t, Parser.textTurn cfg p = .ok (p.invalidLabel t).skipCurrentLine) ∨
    ∃ symbol, p.symbolTable label = some symbol ∧ symbol.isData = true ∧
      Parser.textTurn cfg p = .ok (op.emitted cfg p rd symbol.address) := by
  have hturn : Parser.textTurn cfg p = Parser.parseStatement cfg p := by
    rw [Parser.textTurn, h.type]
  have hstatement {q : Parser} (hla : op = .la → Parser.parseLa cfg p = .ok (some q))
      (hload : op ≠ .la → Parser.parseOGprCDl cfg p = .ok (some q)) :
      Parser.textTurn cfg p = .ok q := by
    rw [hturn]
    cases op with
    | la =>
      refine parseStatement_single (s := .PSEUDO) ?_ ?_ ?_
      · rw [h.opcode]
        decide
      · rw [h.opcode]
        decide
      · show Parser.parsePseudo cfg p = _
        rw [Parser.parsePseudo, h.opcode]
        exact hla rfl
    | lb | lh | lw | ld =>
      refine parseStatement_second (s := .O_GPR_C_I_LP_GPR_RP) (t := .O_GPR_C_DL) ?_ ?_ ?_
        (hload (by decide))
      · rw [h.opcode]
        decide
      · rw [h.opcode]
        decide
      · show Parser.parseOGprCILpGprRp p = _
        rw [Parser.parseOGprCILpGprRp, h.not_offset]
        rfl
  by_cases hop : op = .la
  · subst hop
    rcases h.parseLa with ⟨t, ht⟩ | ⟨symbol, hsymbol, hdata, hq⟩
    · exact .inl ⟨t, hstatement (fun _ => ht) (absurd rfl)⟩
    · exact .inr ⟨symbol, hsymbol, hdata, hstatement (fun _ => hq) (absurd rfl)⟩
  · rcases h.parseOGprCDl hop with ⟨t, ht⟩ | ⟨symbol, hsymbol, hdata, hq⟩
    · exact .inl ⟨t, hstatement (absurd · hop) fun _ => ht⟩
    · exact .inr ⟨symbol, hsymbol, hdata, hstatement (absurd · hop) fun _ => hq⟩

theorem DataOp.machineCode_auipc (cfg : ParserConfig) (op : DataOp) (p : Parser) (rd : RegIndex)
    (address : Word) : machineCode (op.auipcUnit cfg p rd address) =
      .ok (Instr.uType (BitVec.ofInt 20 (Parser.dataOffset cfg p address).1.toInt) rd 0b0010111#7) := by
  obtain ⟨hlow, hhigh⟩ := Parser.toInt_range (Parser.dataOffset cfg p address).1
  exact machineCode_u (e := { opcode := 0b0010111 }) (show formatOf "auipc" = _ by decide)
    (show mapAt _ "auipc" = _ by decide) (immediate_toString hlow hhigh) rfl

theorem DataOp.machineCode_second (cfg : ParserConfig) (op : DataOp) (p : Parser) (rd : RegIndex)
    (address : Word) : machineCode (op.secondUnit cfg p rd address) =
      .ok (op.second rd (BitVec.ofInt 12 (Parser.dataOffset cfg p address).2.toInt)) := by
  obtain ⟨hlow, hhigh⟩ := Parser.dataOffset_low_range cfg p address
  have himm := immediate_toString (n := (Parser.dataOffset cfg p address).2.toInt) (by omega) (by omega)
  have hload {e : InstructionSet.Encoding}
      (hformat : formatOf (op.secondUnit cfg p rd address).opcode = some .I1)
      (hencoding : mapAt InstructionSet.i1TypeInstructionEncodingMap
        (op.secondUnit cfg p rd address).opcode = .ok e) :=
    machineCode_i1 hformat hencoding himm (show _ = gprName rd from rfl) (show _ = gprName rd from rfl)
  cases op with
  | la => exact machineCode_addi rfl himm rfl rfl
  | lb =>
    exact hload (e := { opcode := 0b0000011, funct3 := 0b000 }) (show formatOf "lb" = _ by decide)
      (show mapAt _ "lb" = _ by decide)
  | lh =>
    exact hload (e := { opcode := 0b0000011, funct3 := 0b001 }) (show formatOf "lh" = _ by decide)
      (show mapAt _ "lh" = _ by decide)
  | lw =>
    exact hload (e := { opcode := 0b0000011, funct3 := 0b010 }) (show formatOf "lw" = _ by decide)
      (show mapAt _ "lw" = _ by decide)
  | ld =>
    exact hload (e := { opcode := 0b0000011, funct3 := 0b011 }) (show formatOf "ld" = _ by decide)
      (show mapAt _ "ld" = _ by decide)

end

namespace Parser

variable {cfg : ParserConfig} {tokens : List Token} {p q r w : Parser} {i : Nat} {u : ICUnit}

/-- Code that is complete stays as it is. -/
theorem textInvariant_unit (p₀ : Parser) (i : Nat) (u : ICUnit) :
    TextInvariant cfg p₀ fun p => p.intermediateCode[i]? = some (u, true) where
  skip _ _ _ hp _ := hp
  step p q _ hp h := by
    cases h with
    | label htype hnew => exact hp
    | failed hr herrors => exact hp
    | emitted hr h =>
      have hi : i < p.intermediateCode.length := by
        by_contra hge
        rw [List.getElem?_eq_none (Nat.not_lt.mp hge)] at hp
        cases hp
      exact (List.getElem?_append_left hi).trans hp

theorem patch_other {j : Nat} (h : i ≠ j) :
    (p.patch j).intermediateCode[i]? = p.intermediateCode[i]? := by
  have hset (p : Parser) (entry : ICUnit × Bool) :
      (p.setUnit j entry).intermediateCode[i]? = p.intermediateCode[i]? := by
    rw [setUnit_get, if_neg (Ne.symm h)]
  have hoffset (u : ICUnit) (address : Word) (low high : Int) (expected : String) :
      (p.patchOffset j u address low high expected).intermediateCode[i]? = p.intermediateCode[i]? := by
    rw [patchOffset]
    split
    · exact hset p _
    · rfl
  rw [patch]
  split
  · rfl
  · split
    · split
      · split
        · exact hoffset ..
        · exact hset _ _
      · split
        · exact hoffset ..
        · rfl
    · rfl

theorem patches_other {back : List Nat} (h : i ∉ back) :
    (back.foldl patch p).intermediateCode[i]? = p.intermediateCode[i]? := by
  induction back generalizing p with
  | nil => rfl
  | cons j back ih =>
    rw [List.mem_cons, not_or] at h
    rw [List.foldl_cons, ih h.2, patch_other h.1]

/-- A unit without a label that the second pass has appended is in the code of the program. -/
theorem Accepted.unit (hlexed : LexedTokens tokens) (h : Accepted cfg tokens p r q)
    (hw : TextVisit cfg p.restart w) (hi : w.intermediateCode[i]? = some (u, true))
    (hlabel : u.label = "") : q.intermediateCode[i]? = some (u, true) := by
  have hr := (textInvariant_unit p.restart i u).final (h.lexed hlexed) hw h.second hi
  obtain ⟨hindex, -, hcode⟩ := h.start
  have hinv := h.text hlexed (textInvariant_code p.restart)
    ⟨by rw [hindex, hcode]; rfl, h.start_code⟩
  have hback : i ∉ r.backPatch := by
    intro hmem
    obtain ⟨u', b, hu', hlinks⟩ := hinv.2.back i hmem
    rw [hr] at hu'
    have hsame : u = u' := congrArg Prod.fst (Option.some.inj hu')
    exact hlinks.label (hsame ▸ hlabel)
  rw [h.patched, patches_other hback, hr]

/-- The word of the unit at an index of the code. -/
def WordAt (q : Parser) (i : Nat) (w : Instr) : Prop :=
  ∃ u b, q.intermediateCode[i]? = some (u, b) ∧ machineCode u = .ok w

end Parser

/-- What the program has of a statement with a data label. -/
theorem DataStatement.words {cfg : ParserConfig} {tokens : List Token} {p q : Parser} {op : DataOp}
    {rd : RegIndex} {label : String} (hlexed : LexedTokens tokens)
    (haccepts : Parser.Accepts cfg tokens q) (hvisit : Parser.VisitsText cfg tokens p)
    (h : DataStatement p op rd label) : ∃ symbol, q.symbolTable label = some symbol ∧
      symbol.isData = true ∧
      q.WordAt p.instructionIndex (Instr.uType
        (BitVec.ofInt 20 (Parser.dataOffset cfg p symbol.address).1.toInt) rd 0b0010111#7) ∧
      q.WordAt (p.instructionIndex + 1)
        (op.second rd (BitVec.ofInt 12 (Parser.dataOffset cfg p symbol.address).2.toInt)) := by
  obtain ⟨u, r, haccepted⟩ := Parser.accepted_of_accepts hlexed haccepts
  obtain ⟨hv, hin⟩ := haccepted.visit hvisit
  obtain ⟨w, hturn, hw, -, herrors, herrors'⟩ := haccepted.turn hlexed hv hin
  have hstart := haccepted.lexed hlexed
  obtain ⟨hindex₀, -, hcode₀⟩ := haccepted.start
  have hindex : p.instructionIndex = p.intermediateCode.length :=
    ((Parser.textInvariant_code u.restart).visit hstart hv
      ⟨by rw [hindex₀, hcode₀]; rfl, haccepted.start_code⟩).1
  have hdone : (∃ t, Parser.textTurn cfg p = _) ∨ ∃ symbol, _ ∧ _ ∧ Parser.textTurn cfg p = _ := h.turn
  rcases hdone with ⟨t, ht⟩ | ⟨symbol, hsymbol, hdata, ht⟩
  · rw [ht] at hturn
    obtain rfl := Except.ok.inj hturn
    have hcount : p.errors.count + 1 + 1 = 0 := herrors'
    omega
  · rw [ht] at hturn
    obtain rfl := Except.ok.inj hturn
    have hsymbol' : q.symbolTable label = some symbol := by
      rw [(haccepted.code hlexed).2]
      exact (Parser.textInvariant_symbol u.restart label symbol).final hstart hv haccepted.second hsymbol
    refine ⟨symbol, hsymbol', hdata, ⟨_, _, haccepted.unit hlexed hw ?_ rfl, op.machineCode_auipc ..⟩,
      _, _, haccepted.unit hlexed hw ?_ rfl, op.machineCode_second ..⟩
    · show (p.intermediateCode ++ _ ++ _)[_]? = _
      rw [hindex]
      simp
    · show (p.intermediateCode ++ _ ++ _)[_]? = _
      rw [hindex]
      simp

namespace Vm

variable (fpu : Fpu) {m : Vm} {op : DataOp} {rd : RegIndex} {upper : BitVec 20} {imm : BitVec 12}

/-- The statement puts the address `x` into `rd`, or loads from `x`. -/
def ReachesData (fpu : Fpu) (m : Vm) (op : DataOp) (rd : RegIndex) (x : Word) : Prop :=
  match op.loadOp with
  | none => SetsRegister fpu m 2 rd x
  | some load => ∃ m' imm, m.step fpu = .ok m' ∧ m'.nextWord = .ok (load.word rd rd imm) ∧
    m'.address rd imm = x ∧ (m.core.memory.InRange x load.bytes →
      SetsRegister fpu m 2 rd (load.extend (m.core.memory.load x 64 load.bytes)))

theorem reachesData_iff (hrd : rd ≠ 0) {x : Word} (hplaced : m.Placed m.core.programCounter
      [Instr.uType upper rd 0b0010111#7, op.second rd imm]) :
    ReachesData fpu m op rd x ↔
      m.core.programCounter + upperWord upper + imm.signExtend 64 = x := by
  obtain ⟨m₁, h₁⟩ := stepsTo_auipc fpu hplaced.1 hplaced.2.1
  obtain ⟨hword, hin, -⟩ := hplaced.next h₁
  have hread : m₁.core.registers.readGpr rd = m.core.programCounter + upperWord upper := by
    rw [h₁.registers, RegisterFile.readGpr_writeGpr, if_pos ⟨rfl, hrd⟩]
  have hsets {m₂ : Vm} {y : Word}
      (h₂ : StepsTo fpu m₁ (m₁.core.registers.writeGpr rd y) m₁.core.memory m₂) :
      SetsRegister fpu m 2 rd y := by
    refine ⟨m₂, ?_, ?_, h₂.memory.trans h₁.memory⟩
    · rw [Loop.iter_succ, h₁.step, Loop.bind_ok, Loop.iter_succ, h₂.step]
      rfl
    · rw [h₂.registers, h₁.registers, RegisterFile.writeGpr_writeGpr]
  rw [ReachesData]
  rw [DataOp.second] at hword
  cases hop : op.loadOp with
  | none =>
    rw [hop] at hword
    obtain ⟨m₂, h₂⟩ := stepsTo_addi fpu hword hin
    rw [hread] at h₂
    constructor
    · intro hx
      exact (hsets h₂).unique hrd hx
    · rintro rfl
      exact hsets h₂
  | some load =>
    rw [hop] at hword
    have haddress : m₁.address rd imm = m.core.programCounter + upperWord upper + imm.signExtend 64 := by
      rw [address, hread]
    constructor
    · rintro ⟨m', imm', hstep, hword', hx, -⟩
      obtain rfl := Except.ok.inj (h₁.step.symm.trans hstep)
      have hsame : load.word rd rd imm = load.word rd rd imm' :=
        Except.ok.inj (hword.symm.trans hword')
      have himm := congrArg (Instr.field · 20 12) hsame
      simp only [LoadOp.word, Instr.iType_imm] at himm
      rw [← haddress, himm, hx]
    · rintro rfl
      refine ⟨m₁, imm, h₁.step, hword, haddress, fun hrange => ?_⟩
      have hrange' : m₁.core.memory.InRange (m₁.address rd imm) load.bytes := by
        rw [h₁.memory, haddress]
        exact hrange
      obtain ⟨m₂, h₂⟩ := stepsTo_load fpu hword hin hrange'
      have hset := hsets h₂
      rwa [haddress, h₁.memory] at hset

end Vm

/-- In a program that parses, the two words of a statement with a data label reach the label
exactly if it is near enough. -/
theorem data_address_iff {cfg : ParserConfig} {tokens : List Token} {p q : Parser} {op : DataOp}
    {rd : RegIndex} {label : String} (hlexed : LexedTokens tokens)
    (haccepts : Parser.Accepts cfg tokens q) (hvisit : Parser.VisitsText cfg tokens p)
    (h : DataStatement p op rd label) (hrd : rd ≠ 0) :
    ∃ symbol w w', q.symbolTable label = some symbol ∧ symbol.isData = true ∧
      q.WordAt p.instructionIndex w ∧ q.WordAt (p.instructionIndex + 1) w' ∧
      ∀ (fpu : Fpu) (m : Vm), m.core.programCounter = Parser.textAddress p.instructionIndex →
        m.Placed m.core.programCounter [w, w'] →
        (Vm.ReachesData fpu m op rd (cfg.dataSectionStart + symbol.address) ↔
          Parser.InReach cfg p.instructionIndex symbol.address) := by
  obtain ⟨symbol, hsymbol, hdata, hw, hw'⟩ := h.words hlexed haccepts hvisit
  refine ⟨symbol, _, _, hsymbol, hdata, hw, hw', fun fpu m hpc hplaced => ?_⟩
  rw [Vm.reachesData_iff fpu hrd hplaced, hpc]
  exact Parser.inReach_iff cfg p symbol.address

/-- `la x1, x`, `.data` and `x: .word 1` -/
def laProgram : List Token :=
  [⟨.OPCODE, "la", 1, 1⟩, ⟨.GP_REGISTER, "x1", 1, 4⟩, ⟨.COMMA, ",", 1, 6⟩, ⟨.LABEL_REF, "x", 1, 8⟩,
   ⟨.DIRECTIVE, "data", 2, 1⟩, ⟨.LABEL, "x", 3, 1⟩, ⟨.DIRECTIVE, "word", 3, 4⟩, ⟨.NUM, "1", 3, 10⟩,
   ⟨.EOF_, "", 3, 11⟩]

theorem laProgram_lexed : LexedTokens laProgram := by
  intro t ht
  simp only [laProgram, List.mem_cons, List.not_mem_nil, or_false] at ht
  rcases ht with rfl | rfl | rfl | rfl | rfl | rfl | rfl | rfl | rfl
  case inr.inr.inr.inr.inr.inr.inr.inl => exact ⟨1, rfl, by decide, by decide⟩
  all_goals simp [Token.Lexed]
  all_goals decide

def ParserConfig.dataAt (start : Word) : ParserConfig := { default with dataSectionStart := start }

/-- The program is accepted, with the label at the start of the data section. -/
def laAccepted (start : Word) : Bool :=
  match Parser.parse (.dataAt start) 9 laProgram with
  | .ok (.done q) => q.errors.count == 0 && (q.symbolTable "x").map SymbolData.address == some 0
  | _ => false

theorem laProgram_accepted : laAccepted 0x10000000 = true ∧ laAccepted 0x80000000 = true := by
  decide +kernel

theorem laProgram_accepts {start : Word} (h : laAccepted start = true) :
    ∃ q, Parser.Accepts (.dataAt start) laProgram q ∧
      ∀ symbol, q.symbolTable "x" = some symbol → symbol.address = 0 := by
  rw [laAccepted] at h
  split at h
  · rename_i q hparse
    rw [Bool.and_eq_true, beq_iff_eq, beq_iff_eq] at h
    refine ⟨q, ⟨⟨9, hparse⟩, h.1⟩, fun symbol hsymbol => ?_⟩
    rw [hsymbol] at h
    exact Option.some.inj h.2
  · cases h

/-- The statement is the first that the second pass visits. -/
theorem laProgram_visit {cfg : ParserConfig} {q : Parser}
    (haccepts : Parser.Accepts cfg laProgram q) : ∃ p, Parser.VisitsText cfg laProgram p ∧
      p.instructionIndex = 0 ∧ DataStatement p .la 1 "x" := by
  obtain ⟨u, r, h⟩ := Parser.accepted_of_accepts laProgram_lexed haccepts
  obtain ⟨s, hscan⟩ := h.scan
  have hrest : u.restart.rest = laProgram := hscan.untouched.tokens
  have hcurrent : u.restart.currentToken = ⟨.OPCODE, "la", 1, 1⟩ := by
    rw [Parser.currentToken, hrest]
    rfl
  have hend : u.restart.notEof = true := by
    rw [Parser.notEof, hcurrent]
    rfl
  have henter : u.restart.entersText = some u.restart := by
    rw [Parser.entersText, Parser.atDirective, hcurrent]
    rfl
  have hin : u.restart.inText = true := by
    rw [Parser.inText, hend, hcurrent]
    rfl
  refine ⟨u.restart, ⟨u.restart, ?_, ⟨u.restart, u.restart, .refl _, hend, henter, .refl _⟩, hin⟩,
    rfl, ?_⟩
  · obtain ⟨⟨turns, hparse⟩, -⟩ := haccepts
    obtain ⟨result, hfirst, hparse⟩ := Loop.bind_eq_ok hparse
    cases result with
    | yield v => cases hparse
    | done v => exact ⟨turns, v, hfirst, (h.begins _ ⟨turns, v, hfirst, rfl⟩).symm⟩
  · have hpeek (n : Nat) : u.restart.peekToken n = (laProgram.drop n).headD eofToken := by
      rw [Parser.peekToken, hrest]
    refine ⟨by rw [hcurrent], by rw [hcurrent]; rfl, ?_, ?_, ?_⟩
    · simp only [Parser.lineIs, hpeek, hcurrent]
      decide
    · rw [Parser.register, hpeek]
      decide
    · rw [hpeek]
      rfl

theorem data_address_iff_near :
    ∃ (q p : Parser) (symbol : SymbolData) (w w' : Instr), Parser.Accepts (.dataAt 0x10000000) laProgram q ∧
      q.symbolTable "x" = some symbol ∧ q.WordAt p.instructionIndex w ∧
      q.WordAt (p.instructionIndex + 1) w' ∧
      ∀ (fpu : Fpu) (m : Vm), m.core.programCounter = Parser.textAddress p.instructionIndex →
        m.Placed m.core.programCounter [w, w'] →
        (Vm.ReachesData fpu m .la 1 (0x10000000 + symbol.address) ↔
          Parser.InReach (.dataAt 0x10000000) p.instructionIndex symbol.address) := by
  obtain ⟨q, haccepts, -⟩ := laProgram_accepts laProgram_accepted.1
  obtain ⟨p, hvisit, -, h⟩ := laProgram_visit haccepts
  obtain ⟨symbol, w, w', hsymbol, -, hw, hw', hall⟩ :=
    data_address_iff laProgram_lexed haccepts hvisit h (by decide)
  exact ⟨q, p, symbol, w, w', haccepts, hsymbol, hw, hw', hall⟩

theorem Parser.WordAt.unique {q : Parser} {i : Nat} {w w' : Instr} (h : q.WordAt i w)
    (h' : q.WordAt i w') : w = w' := by
  obtain ⟨u, b, hu, hw⟩ := h
  obtain ⟨u', b', hu', hw'⟩ := h'
  obtain rfl : u = u' := congrArg Prod.fst (Option.some.inj (hu.symm.trans hu'))
  exact Except.ok.inj (hw.symm.trans hw')

/-- With the data section at `0x80000000` the address of its first byte comes out negative. -/
theorem data_address_far :
    ¬ ∀ (cfg : ParserConfig) (tokens : List Token) (p q : Parser) (op : DataOp) (rd : RegIndex)
      (label : String), LexedTokens tokens → Parser.Accepts cfg tokens q →
      Parser.VisitsText cfg tokens p → DataStatement p op rd label → rd ≠ 0 →
      ∃ symbol w w', q.symbolTable label = some symbol ∧ symbol.isData = true ∧
        q.WordAt p.instructionIndex w ∧ q.WordAt (p.instructionIndex + 1) w' ∧
        ∀ (fpu : Fpu) (m : Vm), m.core.programCounter = Parser.textAddress p.instructionIndex →
          m.Placed m.core.programCounter [w, w'] →
          Vm.ReachesData fpu m op rd (cfg.dataSectionStart + symbol.address) := by
  intro hclaim
  obtain ⟨q, haccepts, haddress⟩ := laProgram_accepts laProgram_accepted.2
  obtain ⟨p, hvisit, hindex, h⟩ := laProgram_visit haccepts
  obtain ⟨symbol, w, w', hsymbol, -, hw, hw', hall⟩ :=
    hclaim _ _ p q .la 1 "x" laProgram_lexed haccepts hvisit h (by decide)
  obtain ⟨symbol', hsymbol', -, hw₁, hw₂⟩ := h.words laProgram_lexed haccepts hvisit
  obtain rfl : symbol = symbol' := Option.some.inj (hsymbol.symm.trans hsymbol')
  have hpc : (0 : Word) = Parser.textAddress p.instructionIndex := by
    rw [hindex]
    rfl
  have hplaced := Vm.holding_placed [w, w'] .reset (by simp)
  have hreach := hall .zero _ hpc hplaced
  rw [hw.unique hw₁, hw'.unique hw₂] at hplaced hreach
  rw [Vm.reachesData_iff .zero (by decide) hplaced, show (Vm.holding _ _).core.programCounter = _ from hpc]
    at hreach
  have hnear := (Parser.inReach_iff (.dataAt 0x80000000) p symbol.address).mp hreach
  rw [hindex, haddress symbol hsymbol] at hnear
  exact absurd hnear (by decide)

end RiscvSim
