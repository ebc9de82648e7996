import RiscvSim.Shifts
import RiscvSim.UnitWords

/-! The computational instructions from the statement to the step, against the values that the
instruction set gives them. -/

namespace RiscvSim

open InstructionSet CodeGenerator

/-- The instructions on two registers. -/
inductive RegisterOp where
  | add | sub | and | or | xor | sll | srl | sra | slt | sltu | mul | mulh | mulhsu | mulhu
  deriving DecidableEq, Repr

namespace RegisterOp

def mnemonic : RegisterOp → String
  | add => "add"
  | sub => "sub"
  | and => "and"
  | or => "or"
  | xor => "xor"
  | sll => "sll"
  | srl => "srl"
  | sra => "sra"
  | slt => "slt"
  | sltu => "sltu"
  | mul => "mul"
  | mulh => "mulh"
  | mulhsu => "mulhsu"
  | mulhu => "mulhu"

/-- The value for `rd`: sums, differences and products of integers modulo `2 ^ 64`, the high half
of an exact product, and the order of integers. -/
def value (op : RegisterOp) (x y : Word) : Word :=
  match op with
  | add => BitVec.ofInt 64 (x.toInt + y.toInt)
  | sub => BitVec.ofInt 64 (x.toInt - y.toInt)
  | and => x &&& y
  | or => x ||| y
  | xor => x ^^^ y
  | sll => x <<< (y.toNat % 64)
  | srl => x >>> (y.toNat % 64)
  | sra => BitVec.ofInt 64 (x.toInt / 2 ^ (y.toNat % 64))
  | slt => if x.toInt < y.toInt then 1 else 0
  | sltu => if x.toNat < y.toNat then 1 else 0
  | mul => BitVec.ofInt 64 (x.toInt * y.toInt)
  | mulh => BitVec.ofInt 64 (x.toInt * y.toInt / 2 ^ 64)
  | mulhsu => BitVec.ofInt 64 (x.toInt * y.toNat / 2 ^ 64)
  | mulhu => BitVec.ofInt 64 (x.toNat * y.toNat / 2 ^ 64)

def aluOp : RegisterOp → AluOp
  | add => .kAdd
  | sub => .kSub
  | and => .kAnd
  | or => .kOr
  | xor => .kXor
  | sll => .kSll
  | srl => .kSrl
  | sra => .kSra
  | slt => .kSlt
  | sltu => .kSltu
  | mul => .kMul
  | mulh => .kMulh
  | mulhsu => .kMulhsu
  | mulhu => .kMulhu

theorem highHalf_ofInt (z : Int) :
    Alu.highHalf (BitVec.ofInt 128 z) = BitVec.ofInt 64 (z / 2 ^ 64) := by
  apply BitVec.eq_of_toNat_eq
  rw [Alu.highHalf, BitVec.toNat_setWidth, BitVec.toNat_ushiftRight, BitVec.toNat_ofInt,
    BitVec.toNat_ofInt, Nat.shiftRight_eq_div_pow]
  omega

theorem setWidth_ofInt (x : Word) : (x.setWidth 128 : BitVec 128) = BitVec.ofInt 128 x.toNat := by
  apply BitVec.eq_of_toNat_eq
  rw [BitVec.toNat_setWidth, BitVec.toNat_ofInt]
  omega

theorem amount_toNat (y : Word) : (y &&& 63).toNat = y.toNat % 64 := by
  rw [BitVec.toNat_and]
  change y.toNat &&& (2 ^ 6 - 1) = _
  rw [Nat.and_two_pow_sub_one_eq_mod]

/-- The arithmetic unit computes the value. -/
theorem execute_eq (op : RegisterOp) (x y : Word) :
    ∃ overflow, Alu.execute op.aluOp x y = .ok (op.value x y, overflow) := by
  cases op with
  | add =>
    refine ⟨_, congrArg Except.ok (Prod.ext ?_ rfl)⟩
    rw [value, BitVec.ofInt_add, BitVec.ofInt_toInt, BitVec.ofInt_toInt]
  | sub =>
    refine ⟨_, congrArg Except.ok (Prod.ext ?_ rfl)⟩
    apply BitVec.eq_of_toInt_eq
    rw [value, BitVec.toInt_sub, BitVec.toInt_ofInt]
  | and => exact ⟨_, rfl⟩
  | or => exact ⟨_, rfl⟩
  | xor => exact ⟨_, rfl⟩
  | sll =>
    refine ⟨_, congrArg Except.ok (Prod.ext ?_ rfl)⟩
    rw [value, BitVec.shiftLeft_eq', amount_toNat]
  | srl =>
    refine ⟨_, congrArg Except.ok (Prod.ext ?_ rfl)⟩
    rw [value, BitVec.ushiftRight_eq', amount_toNat]
  | sra =>
    refine ⟨_, congrArg Except.ok (Prod.ext ?_ rfl)⟩
    rw [value, BitVec.sshiftRight_eq', amount_toNat,
      ← BitVec.ofInt_toInt (x := x.sshiftRight (y.toNat % 64)), BitVec.toInt_sshiftRight,
      Int.shiftRight_eq_div_pow]
    rfl
  | slt =>
    refine ⟨_, congrArg Except.ok (Prod.ext ?_ rfl)⟩
    simp [value, Alu.ofBool, BitVec.slt]
  | sltu =>
    refine ⟨_, congrArg Except.ok (Prod.ext ?_ rfl)⟩
    simp [value, Alu.ofBool, BitVec.ult]
  | mul =>
    refine ⟨_, congrArg Except.ok (Prod.ext ?_ rfl)⟩
    rw [value, BitVec.ofInt_mul, BitVec.ofInt_toInt, BitVec.ofInt_toInt]
  | mulh =>
    refine ⟨_, congrArg Except.ok (Prod.ext ?_ rfl)⟩
    rw [value, BitVec.signExtend, BitVec.signExtend, ← BitVec.ofInt_mul, highHalf_ofInt]
  | mulhsu =>
    refine ⟨_, congrArg Except.ok (Prod.ext ?_ rfl)⟩
    rw [value, BitVec.signExtend, setWidth_ofInt, ← BitVec.ofInt_mul, highHalf_ofInt]
  | mulhu =>
    refine ⟨_, congrArg Except.ok (Prod.ext ?_ rfl)⟩
    rw [value, setWidth_ofInt, setWidth_ofInt, ← BitVec.ofInt_mul, highHalf_ofInt]

end RegisterOp

/-- The instructions on a register and an immediate, but for the shifts. -/
inductive ImmediateOp where
  | addi | xori | ori | andi | slti | sltiu
  deriving DecidableEq, Repr

namespace ImmediateOp

def mnemonic : ImmediateOp → String
  | addi => "addi"
  | xori => "xori"
  | ori => "ori"
  | andi => "andi"
  | slti => "slti"
  | sltiu => "sltiu"

/-- They do what the instructions on registers do to the extended immediate. -/
def registerOp : ImmediateOp → RegisterOp
  | addi => .add
  | xori => .xor
  | ori => .or
  | andi => .and
  | slti => .slt
  | sltiu => .sltu

end ImmediateOp

inductive UpperOp where
  | lui | auipc
  deriving DecidableEq, Repr

namespace UpperOp

def mnemonic : UpperOp → String
  | lui => "lui"
  | auipc => "auipc"

/-- The immediate above twelve zero bits, extended from 32 bits, and what it is added to. -/
def value (op : UpperOp) (pc : Word) (n : Int) : Word :=
  match op with
  | lui => (BitVec.ofInt 32 (n * 2 ^ 12)).signExtend 64
  | auipc => pc + (BitVec.ofInt 32 (n * 2 ^ 12)).signExtend 64

end UpperOp

inductive IntegerOp where
  | register (op : RegisterOp)
  | immediate (op : ImmediateOp)
  | shift (op : ShiftOp)
  | upper (op : UpperOp)
  deriving DecidableEq, Repr

namespace IntegerOp

def mnemonic : IntegerOp → String
  | register op => op.mnemonic
  | immediate op => op.mnemonic
  | shift op => op.mnemonic
  | upper op => op.mnemonic

/-- The value for `rd` at the address `pc`, where the sources hold `x` and `y` and `n` is the
immediate. -/
def value (op : IntegerOp) (pc x y : Word) (n : Int) : Word :=
  match op with
  | register op => op.value x y
  | immediate op => op.registerOp.value x (BitVec.ofInt 64 n)
  | shift op => op.value x (BitVec.ofInt 6 n)
  | upper op => op.value pc n

/-- The operands of the statement at the current token. -/
def Operands (op : IntegerOp) (p : Parser) (rd rs1 rs2 : RegIndex) (n : Int) : Prop :=
  match op with
  | register _ => p.lineIs [.GP_REGISTER, .COMMA, .GP_REGISTER, .COMMA, .GP_REGISTER] = true ∧
    p.register 1 = .ok (gprName rd) ∧ p.register 3 = .ok (gprName rs1) ∧
    p.register 5 = .ok (gprName rs2)
  | immediate _ | shift _ =>
    p.lineIs [.GP_REGISTER, .COMMA, .GP_REGISTER, .COMMA, .NUM] = true ∧
    p.register 1 = .ok (gprName rd) ∧ p.register 3 = .ok (gprName rs1) ∧
    stoll (p.peekToken 5).value = .ok n
  | upper _ => p.lineIs [.GP_REGISTER, .COMMA, .NUM] = true ∧ p.register 1 = .ok (gprName rd) ∧
    stoll (p.peekToken 3).value = .ok n

end IntegerOp

namespace Parser

variable {cfg : ParserConfig} {p q : Parser}

/-- A mnemonic with one syntax whose statement leaves no error. -/
theorem parseSyntax_of_accepted {s : SyntaxType} (hform : syntaxes p.currentToken.value = [s])
    (h : parseStatement cfg p = .ok q) (hcount : q.errors.count = p.errors.count) :
    parseSyntax cfg p s = .ok (some q) := by
  have hfail (t : Token) (message : String) (kind : ErrorKind) (main sub : String)
      (hq : (p.fail t message kind main sub).skipCurrentLine = q) : False := by
    have h := fail_count (p := p) t message kind main sub
    rw [← hq] at hcount
    exact absurd hcount.symm (Nat.ne_of_lt h)
  unfold parseStatement at h
  dsimp only at h
  split at h
  · exact (hfail _ _ _ _ _ (Except.ok.inj h)).elim
  · obtain ⟨o, hsyntaxes, h⟩ := Loop.bind_eq_ok h
    rw [hform, parseSyntaxes] at hsyntaxes
    obtain ⟨r, hsyntax, hsyntaxes⟩ := Loop.bind_eq_ok hsyntaxes
    cases r with
    | none =>
      obtain rfl := Except.ok.inj hsyntaxes
      exact (hfail _ _ _ _ _ (Except.ok.inj h)).elim
    | some r =>
      obtain rfl := Except.ok.inj hsyntaxes
      obtain rfl := Except.ok.inj h
      exact hsyntax

theorem finishImmediate_of_accepted {t : Token} {low high imm : Int} {expected : String}
    {u : ICUnit} (hcount : (p.finishImmediate t low high expected imm u).errors.count =
      p.errors.count) :
    low ≤ imm ∧ imm ≤ high ∧
      p.finishImmediate t low high expected imm u = p.finish { u with imm := toString imm } := by
  unfold finishImmediate at hcount ⊢
  split
  · rename_i hrange
    exact ⟨hrange.1, hrange.2, rfl⟩
  · rename_i hrange
    rw [if_neg hrange] at hcount
    have h := fail_count (p := p) t "Immediate value out of range" .ImmediateOutOfRangeError
      "Immediate value out of range" expected
    exact absurd hcount.symm (Nat.ne_of_lt h)

/-- Three registers. -/
theorem parseOGprCGprCGpr_inv (hp : LexedTokens p.rest)
    (h : p.parseOGprCGprCGpr = .ok (some q)) :
    ∃ rd rs1 rs2 : RegIndex,
      p.lineIs [.GP_REGISTER, .COMMA, .GP_REGISTER, .COMMA, .GP_REGISTER] = true ∧
      p.register 1 = .ok (gprName rd) ∧ p.register 3 = .ok (gprName rs1) ∧
      p.register 5 = .ok (gprName rs2) ∧
      q = p.finish { p.block with rd := gprName rd, rs1 := gprName rs1, rs2 := gprName rs2 } := by
  unfold parseOGprCGprCGpr parseRegisters at h
  by_cases hline : p.lineIs ([TokenType.GP_REGISTER, .GP_REGISTER, .GP_REGISTER].intersperse .COMMA ++
      if RmField.absent = .given then [.COMMA, .RM] else []) = true
  case neg =>
    rw [if_neg hline] at h
    cases h
  rw [if_pos hline] at h
  change p.lineIs [.GP_REGISTER, .COMMA, .GP_REGISTER, .COMMA, .GP_REGISTER] = true at hline
  obtain ⟨names, hnames, h⟩ := Loop.bind_eq_ok h
  obtain rfl := Option.some.inj (Except.ok.inj h)
  change ([0, 1, 2].mapM fun i => p.register (2 * i + 1)) = .ok names at hnames
  simp only [List.mapM_cons, List.mapM_nil] at hnames
  obtain ⟨n₁, h₁, hnames⟩ := Loop.bind_eq_ok hnames
  obtain ⟨rest, hnames, hlist⟩ := Loop.bind_eq_ok hnames
  obtain ⟨n₂, h₂, hnames⟩ := Loop.bind_eq_ok hnames
  obtain ⟨rest', hnames, hlist'⟩ := Loop.bind_eq_ok hnames
  obtain ⟨n₃, h₃, hnames⟩ := Loop.bind_eq_ok hnames
  obtain rfl := Except.ok.inj hnames
  obtain rfl := Except.ok.inj hlist'
  obtain rfl := Except.ok.inj hlist
  obtain ⟨rd, rfl⟩ := gpr_register hp (lineIs_type hline (i := 0) rfl) h₁
  obtain ⟨rs1, rfl⟩ := gpr_register hp (lineIs_type hline (i := 2) rfl) h₂
  obtain ⟨rs2, rfl⟩ := gpr_register hp (lineIs_type hline (i := 4) rfl) h₃
  exact ⟨rd, rs1, rs2, hline, h₁, h₂, h₃, rfl⟩

/-- Two registers and an immediate. -/
theorem parseOGprCGprCI_inv (hp : LexedTokens p.rest) {low high : Int}
    (hi : isValidITypeInstruction p.block.opcode = true)
    (hrange : (low, high) =
      if isValidI2TypeInstruction p.block.opcode = true then (0, 31) else (-2048, 2047))
    (h : p.parseOGprCGprCI = .ok (some q)) (hcount : q.errors.count = p.errors.count) :
    ∃ (rd rs1 : RegIndex) (n : Int),
      p.lineIs [.GP_REGISTER, .COMMA, .GP_REGISTER, .COMMA, .NUM] = true ∧
      p.register 1 = .ok (gprName rd) ∧ p.register 3 = .ok (gprName rs1) ∧
      stoll (p.peekToken 5).value = .ok n ∧ low ≤ n ∧ n ≤ high ∧
      q = p.finish { p.block with rd := gprName rd, rs1 := gprName rs1, imm := toString n } := by
  unfold parseOGprCGprCI at h
  split at h
  case isFalse => cases h
  rename_i hline
  obtain ⟨rd, hrd, h⟩ := Loop.bind_eq_ok h
  obtain ⟨rs1, hrs1, h⟩ := Loop.bind_eq_ok h
  obtain ⟨n, hn, h⟩ := Loop.bind_eq_ok h
  obtain ⟨rd, rfl⟩ := gpr_register hp (lineIs_type hline (i := 0) rfl) hrd
  obtain ⟨rs1, rfl⟩ := gpr_register hp (lineIs_type hline (i := 2) rfl) hrs1
  have hfinish : ∃ expected, q = p.finishImmediate (p.peekToken 5) low high expected n
      { p.block with rd := gprName rd, rs1 := gprName rs1 } := by
    split at h
    · rename_i hi2
      obtain ⟨rfl, rfl⟩ := Prod.mk.inj (hrange.trans (if_pos hi2))
      exact ⟨_, (Option.some.inj (Except.ok.inj h)).symm⟩
    · rename_i hi2
      obtain ⟨rfl, rfl⟩ := Prod.mk.inj (hrange.trans (if_neg hi2))
      exact ⟨_, (Option.some.inj (Except.ok.inj h)).symm⟩
  obtain ⟨expected, rfl⟩ := hfinish
  obtain ⟨hlow, hhigh, hq⟩ := finishImmediate_of_accepted hcount
  exact ⟨rd, rs1, n, hline, hrd, hrs1, hn, hlow, hhigh, hq⟩

/-- A register and the upper part of an immediate. -/
theorem parseOGprCI_inv (hp : LexedTokens p.rest)
    (hu : isValidUTypeInstruction p.block.opcode = true)
    (h : p.parseOGprCI = .ok (some q)) (hcount : q.errors.count = p.errors.count) :
    ∃ (rd : RegIndex) (n : Int), p.lineIs [.GP_REGISTER, .COMMA, .NUM] = true ∧
      p.register 1 = .ok (gprName rd) ∧ stoll (p.peekToken 3).value = .ok n ∧ 0 ≤ n ∧
      n ≤ 1048575 ∧ q = p.finish { p.block with rd := gprName rd, imm := toString n } := by
  unfold parseOGprCI at h
  split at h
  case isFalse => cases h
  rename_i hline
  obtain ⟨rd, hrd, h⟩ := Loop.bind_eq_ok h
  obtain ⟨n, hn, h⟩ := Loop.bind_eq_ok h
  obtain ⟨rd, rfl⟩ := gpr_register hp (lineIs_type hline (i := 0) rfl) hrd
  obtain rfl := Option.some.inj (Except.ok.inj h)
  obtain ⟨hlow, hhigh, hq⟩ := finishImmediate_of_accepted hcount
  exact ⟨rd, n, hline, hrd, hn, hlow, hhigh, hq⟩

end Parser

namespace IntegerOp

/-- The unit of a statement. -/
def unit (op : IntegerOp) (p : Parser) (rd rs1 rs2 : RegIndex) (n : Int) : ICUnit :=
  match op with
  | register _ =>
    { p.block with rd := gprName rd, rs1 := gprName rs1, rs2 := gprName rs2 }
  | immediate _ | shift _ => { p.block with rd := gprName rd, rs1 := gprName rs1, imm := toString n }
  | upper _ => { p.block with rd := gprName rd, imm := toString n }

/-- The immediates that the assembler accepts. -/
def InRange (op : IntegerOp) (n : Int) : Prop :=
  match op with
  | register _ => True
  | immediate _ => -2048 ≤ n ∧ n ≤ 2047
  | shift _ => 0 ≤ n ∧ n ≤ 31
  | upper _ => 0 ≤ n ∧ n ≤ 1048575

theorem register_syntaxes (op : RegisterOp) : syntaxes op.mnemonic = [.O_GPR_C_GPR_C_GPR] := by
  cases op <;> decide

theorem immediate_syntaxes (op : ImmediateOp) : syntaxes op.mnemonic = [.O_GPR_C_GPR_C_I] ∧
    isValidITypeInstruction op.mnemonic = true ∧ isValidI2TypeInstruction op.mnemonic = false := by
  cases op <;> decide

theorem shift_syntaxes (op : ShiftOp) : syntaxes op.mnemonic = [.O_GPR_C_GPR_C_I] ∧
    isValidITypeInstruction op.mnemonic = true ∧ isValidI2TypeInstruction op.mnemonic = true := by
  cases op <;> decide

theorem upper_syntaxes (op : UpperOp) : syntaxes op.mnemonic = [.O_GPR_C_I] ∧
    isValidUTypeInstruction op.mnemonic = true := by
  cases op <;> decide

variable {cfg : ParserConfig} {p q : Parser} {op : IntegerOp}

/-- A statement that is accepted has the operands of its mnemonic and leaves its unit. -/
theorem parse_inv (hp : LexedTokens p.rest) (hop : p.currentToken.value = op.mnemonic)
    (h : Parser.parseStatement cfg p = .ok q) (hcount : q.errors.count = p.errors.count) :
    ∃ rd rs1 rs2 n, op.Operands p rd rs1 rs2 n ∧ op.InRange n ∧
      q = p.finish (op.unit p rd rs1 rs2 n) := by
  have hblock : p.block.opcode = op.mnemonic := hop
  cases op with
  | register op =>
    have hsyntax := Parser.parseSyntax_of_accepted
      ((congrArg syntaxes hop).trans (register_syntaxes op)) h hcount
    obtain ⟨rd, rs1, rs2, hline, h₁, h₃, h₅, hq⟩ := Parser.parseOGprCGprCGpr_inv hp hsyntax
    exact ⟨rd, rs1, rs2, 0, ⟨hline, h₁, h₃, h₅⟩, trivial, hq⟩
  | immediate op =>
    obtain ⟨hform, hi, hi2⟩ := immediate_syntaxes op
    have hsyntax := Parser.parseSyntax_of_accepted ((congrArg syntaxes hop).trans hform) h hcount
    have hrange : ((-2048, 2047) : Int × Int) =
        if isValidI2TypeInstruction p.block.opcode = true then (0, 31) else (-2048, 2047) := by
      rw [hblock]
      exact (if_neg (by rw [mnemonic, hi2]; decide)).symm
    obtain ⟨rd, rs1, n, hline, h₁, h₃, h₅, hlow, hhigh, hq⟩ := Parser.parseOGprCGprCI_inv hp
      (by rw [hblock]; exact hi) hrange hsyntax hcount
    exact ⟨rd, rs1, 0, n, ⟨hline, h₁, h₃, h₅⟩, ⟨hlow, hhigh⟩, hq⟩
  | shift op =>
    obtain ⟨hform, hi, hi2⟩ := shift_syntaxes op
    have hsyntax := Parser.parseSyntax_of_accepted ((congrArg syntaxes hop).trans hform) h hcount
    have hrange : ((0, 31) : Int × Int) =
        if isValidI2TypeInstruction p.block.opcode = true then (0, 31) else (-2048, 2047) := by
      rw [hblock]
      exact (if_pos hi2).symm
    obtain ⟨rd, rs1, n, hline, h₁, h₃, h₅, hlow, hhigh, hq⟩ := Parser.parseOGprCGprCI_inv hp
      (by rw [hblock]; exact hi) hrange hsyntax hcount
    exact ⟨rd, rs1, 0, n, ⟨hline, h₁, h₃, h₅⟩, ⟨hlow, hhigh⟩, hq⟩
  | upper op =>
    obtain ⟨hform, hu⟩ := upper_syntaxes op
    have hsyntax := Parser.parseSyntax_of_accepted ((congrArg syntaxes hop).trans hform) h hcount
    obtain ⟨rd, n, hline, h₁, h₃, hlow, hhigh, hq⟩ := Parser.parseOGprCI_inv hp
      (by rw [hblock]; exact hu) hsyntax hcount
    exact ⟨rd, 0, 0, n, ⟨hline, h₁, h₃⟩, ⟨hlow, hhigh⟩, hq⟩

end IntegerOp

theorem RegisterOp.encoding_table (op : RegisterOp) : formatOf op.mnemonic = some .R ∧
    ∀ e ∈ rTypeInstructionEncodingMap.lookup op.mnemonic,
      e.opcode = 0b0110011#7 ∧ ControlUnit.aluSignalR e.funct3 e.funct7 = op.aluOp := by
  cases op <;> decide +kernel

theorem ImmediateOp.encoding_table (op : ImmediateOp) : formatOf op.mnemonic = some .I1 ∧
    ∀ e ∈ i1TypeInstructionEncodingMap.lookup op.mnemonic, e.opcode = 0b0010011#7 ∧
      e.funct3 ≠ 0b101#3 ∧ ControlUnit.aluSignalI e.funct3 0 = op.registerOp.aluOp := by
  cases op <;> decide +kernel

theorem UpperOp.encoding_table (op : UpperOp) : formatOf op.mnemonic = some .U ∧
    ∀ e ∈ uTypeInstructionEncodingMap.lookup op.mnemonic,
      e.opcode = match op with
        | lui => 0b0110111#7
        | auipc => 0b0010111#7 := by
  cases op <;> decide +kernel

/-- `funct7` chooses between the right shifts only. -/
theorem aluSignalI_funct7 {funct3 : BitVec 3} (h : funct3 ≠ 0b101#3) (funct7 : BitVec 7) :
    ControlUnit.aluSignalI funct3 funct7 = ControlUnit.aluSignalI funct3 0 := by
  unfold ControlUnit.aluSignalI
  split <;> first | rfl | exact absurd rfl h

/-- An operation on two registers. -/
theorem Vm.stepsTo_register (fpu : Fpu) {v : Vm} {rd rs1 rs2 : RegIndex} {funct3 : BitVec 3}
    {funct7 : BitVec 7} {op : AluOp} {result : Word × Bool}
    (hword : v.nextWord = .ok (Instr.rType funct7 rs2 rs1 funct3 rd 0b0110011#7))
    (hin : v.core.programCounter < v.programSize)
    (hsignal : ControlUnit.aluSignalR funct3 funct7 = op)
    (halu : Alu.execute op (v.core.registers.readGpr rs1) (v.core.registers.readGpr rs2) =
      .ok result) :
    ∃ v', StepsTo fpu v (v.core.registers.writeGpr rd result.1) v.core.memory v' := by
  have hop : IntegerCycle.Computes (Instr.rType funct7 rs2 rs1 funct3 rd 0b0110011#7) := by
    simp [IntegerCycle.Computes]
  have hget : ControlUnit.getAluSignal (Instr.rType funct7 rs2 rs1 funct3 rd 0b0110011#7) = op := by
    simp only [ControlUnit.getAluSignal, Instr.rType_opcode, Instr.rType_funct3,
      Instr.rType_funct7, hsignal]
  have hoperand : IntegerCycle.operand v.core.registers
      (Instr.rType funct7 rs2 rs1 funct3 rd 0b0110011#7) = v.core.registers.readGpr rs2 := by
    simp [IntegerCycle.operand, ControlUnit.setControlSignals, ControlUnit.reset]
  have hvalue : IntegerCycle.value v.core.programCounter
      (Instr.rType funct7 rs2 rs1 funct3 rd 0b0110011#7) result.1 0 = some result.1 := by
    simp only [IntegerCycle.value, Instr.rType_opcode]
  have h := stepsTo_computes fpu hword hop hin (by
    rw [hget, Instr.rType_rs1, hoperand]
    exact halu)
  rw [hvalue] at h
  simpa only [IntegerCycle.writeRd, Instr.rType_rd] using h

theorem upperWord_scaled (n : Int) :
    Vm.upperWord (BitVec.ofInt 20 n) = (BitVec.ofInt 32 (n * 2 ^ 12)).signExtend 64 := by
  have hn := (BitVec.ofInt 20 n).isLt
  rw [Vm.upperWord]
  refine congrArg (BitVec.signExtend 64) (BitVec.eq_of_toNat_eq ?_)
  rw [shiftLeft_toNat 12 (setWidth_toNat _ (by decide)) (by omega), BitVec.toNat_ofInt,
    BitVec.toNat_ofInt]
  omega

namespace IntegerOp

variable {cfg : ParserConfig} {p q : Parser} {op : IntegerOp} {rd rs1 rs2 : RegIndex} {n : Int}

/-- The word of the unit does what the instruction set says. -/
def Executes (op : IntegerOp) (w : Instr) (rd rs1 rs2 : RegIndex) (n : Int) : Prop :=
  ∀ (fpu : Fpu) (v : Vm), v.nextWord = .ok w → v.core.programCounter < v.programSize →
    ∃ v', Vm.StepsTo fpu v (v.core.registers.writeGpr rd (op.value v.core.programCounter
      (v.core.registers.readGpr rs1) (v.core.registers.readGpr rs2) n)) v.core.memory v'

theorem lookup_of_mapAt {map : List (String × Encoding)} {m : String} {e : Encoding}
    (h : mapAt map m = .ok e) : e ∈ map.lookup m := by
  unfold mapAt at h
  split at h
  · rename_i hlookup
    rw [hlookup, Except.ok.inj h]
    rfl
  · cases h

theorem encoding_of_format {f : Format} {m : String} (h : formatOf m = some f) :
    ∃ e, mapAt f.encodings m = .ok e := by
  obtain ⟨e, he⟩ := Option.isSome_iff_exists.mp (format_table f m (formatOf_mem h)).1
  exact ⟨e, by rw [mapAt, he]⟩

theorem register_executes (op : RegisterOp) (hop : p.currentToken.value = op.mnemonic) :
    ∃ w, machineCode ((register op).unit p rd rs1 rs2 n) = .ok w ∧
      (register op).Executes w rd rs1 rs2 n := by
  obtain ⟨hformat, hall⟩ := op.encoding_table
  obtain ⟨e, he⟩ := encoding_of_format hformat
  obtain ⟨hopcode, hsignal⟩ := hall e (lookup_of_mapAt he)
  have hunit : ((register op).unit p rd rs1 rs2 n).opcode = op.mnemonic := hop
  have hword := machineCode_word (l := registerLayout [.GP_REGISTER, .GP_REGISTER, .GP_REGISTER] .absent)
    (o := ⟨rd, rs1, rs2, 0, 0, 0, 0⟩) ((congrArg formatOf hunit).trans hformat)
    ((congrArg (mapAt Format.R.encodings) hunit).trans he) rfl
    ⟨by rintro _ ⟨⟩; rfl, by rintro _ ⟨⟩; rfl, by rintro _ ⟨⟩; rfl, by rintro _ ⟨⟩,
      by rintro _ ⟨⟩, rfl, rfl⟩
  refine ⟨_, hword, fun fpu v hnext hin => ?_⟩
  obtain ⟨overflow, halu⟩ := op.execute_eq (v.core.registers.readGpr rs1)
    (v.core.registers.readGpr rs2)
  rw [Format.word, hopcode] at hnext
  exact Vm.stepsTo_register fpu hnext hin hsignal halu

theorem immediate_executes (op : ImmediateOp) (hop : p.currentToken.value = op.mnemonic)
    (hn : (immediate op).InRange n) :
    ∃ w, machineCode ((immediate op).unit p rd rs1 rs2 n) = .ok w ∧
      (immediate op).Executes w rd rs1 rs2 n := by
  obtain ⟨hformat, hall⟩ := op.encoding_table
  obtain ⟨e, he⟩ := encoding_of_format hformat
  obtain ⟨hopcode, hfunct3, hsignal⟩ := hall e (lookup_of_mapAt he)
  have hunit : ((immediate op).unit p rd rs1 rs2 n).opcode = op.mnemonic := hop
  have hword := machineCode_word
    (l := { rd := some .gpr, rs1 := some .gpr, imm := some (-2048, 2047) })
    (o := ⟨rd, rs1, 0, 0, n, 0, 0⟩) ((congrArg formatOf hunit).trans hformat)
    ((congrArg (mapAt Format.I1.encodings) hunit).trans he) rfl
    ⟨by rintro _ ⟨⟩; rfl, by rintro _ ⟨⟩; rfl, by rintro _ ⟨⟩, by rintro _ ⟨⟩,
      by rintro _ ⟨⟩; exact ⟨rfl, hn⟩, rfl, rfl⟩
  refine ⟨_, hword, fun fpu v hnext hin => ?_⟩
  have hextend : (BitVec.ofInt 12 n).signExtend 64 = BitVec.ofInt 64 n := by
    obtain ⟨hlow, hhigh⟩ := hn
    rw [BitVec.signExtend, BitVec.toInt_ofInt, Int.bmod_eq_of_le (by omega) (by omega)]
  obtain ⟨overflow, halu⟩ := op.registerOp.execute_eq (v.core.registers.readGpr rs1)
    (BitVec.ofInt 64 n)
  rw [← hextend] at halu
  rw [Format.word, hopcode] at hnext
  have h := Vm.stepsTo_immediate fpu hnext hin ((aluSignalI_funct7 hfunct3 _).trans hsignal) halu
  rw [hextend] at h
  exact h

theorem shift_executes (op : ShiftOp) (hop : p.currentToken.value = op.mnemonic)
    (hn : (shift op).InRange n) :
    ∃ w, machineCode ((shift op).unit p rd rs1 rs2 n) = .ok w ∧
      (shift op).Executes w rd rs1 rs2 n := by
  have hunit : ((shift op).unit p rd rs1 rs2 n).opcode = op.mnemonic := hop
  have hword := machineCode_word
    (l := { rd := some .gpr, rs1 := some .gpr, imm := some (0, 31) })
    (o := ⟨rd, rs1, 0, 0, n, 0, 0⟩) ((congrArg formatOf hunit).trans op.mnemonic_format)
    ((congrArg (mapAt Format.I2.encodings) hunit).trans op.mnemonic_encoding) rfl
    ⟨by rintro _ ⟨⟩; rfl, by rintro _ ⟨⟩; rfl, by rintro _ ⟨⟩, by rintro _ ⟨⟩,
      by rintro _ ⟨⟩; exact ⟨rfl, hn⟩, rfl, rfl⟩
  refine ⟨_, hword, fun fpu v hnext hin => ?_⟩
  refine Vm.stepsTo_shift fpu hnext hin ?_
  obtain ⟨hlow, hhigh⟩ := hn
  rw [BitVec.toNat_ofInt]
  omega

theorem upper_executes (op : UpperOp) (hop : p.currentToken.value = op.mnemonic)
    (hn : (upper op).InRange n) :
    ∃ w, machineCode ((upper op).unit p rd rs1 rs2 n) = .ok w ∧
      (upper op).Executes w rd rs1 rs2 n := by
  obtain ⟨hformat, hall⟩ := op.encoding_table
  obtain ⟨e, he⟩ := encoding_of_format hformat
  have hopcode := hall e (lookup_of_mapAt he)
  have hunit : ((upper op).unit p rd rs1 rs2 n).opcode = op.mnemonic := hop
  have hrange : -2147483648 ≤ n ∧ n ≤ 2147483647 := by
    obtain ⟨hlow, hhigh⟩ := hn
    omega
  have hword := machineCode_word
    (l := { rd := some .gpr, imm := some (-2147483648, 2147483647) })
    (o := ⟨rd, 0, 0, 0, n, 0, 0⟩) ((congrArg formatOf hunit).trans hformat)
    ((congrArg (mapAt Format.U.encodings) hunit).trans he) rfl
    ⟨by rintro _ ⟨⟩; rfl, by rintro _ ⟨⟩, by rintro _ ⟨⟩, by rintro _ ⟨⟩,
      by rintro _ ⟨⟩; exact ⟨rfl, hrange⟩, rfl, rfl⟩
  refine ⟨_, hword, fun fpu v hnext hin => ?_⟩
  rw [Format.word, hopcode] at hnext
  cases op with
  | lui =>
    have h := Vm.stepsTo_lui fpu hnext hin
    rw [upperWord_scaled] at h
    exact h
  | auipc =>
    have h := Vm.stepsTo_auipc fpu hnext hin
    rw [upperWord_scaled] at h
    exact h

theorem executes (op : IntegerOp) (hop : p.currentToken.value = op.mnemonic)
    (hn : op.InRange n) :
    ∃ w, machineCode (op.unit p rd rs1 rs2 n) = .ok w ∧ op.Executes w rd rs1 rs2 n := by
  cases op with
  | register op => exact register_executes op hop
  | immediate op => exact immediate_executes op hop hn
  | shift op => exact shift_executes op hop hn
  | upper op => exact upper_executes op hop hn

end IntegerOp

/-- Every statement of a computational instruction that the assembler accepts becomes one word,
and a step on that word, in any state, does what the instruction set says. -/
theorem integer_statement_executes {cfg : ParserConfig} {p q : Parser} {op : IntegerOp}
    (hp : LexedTokens p.rest) (hop : p.currentToken.value = op.mnemonic)
    (h : Parser.parseStatement cfg p = .ok q) (hcount : q.errors.count = p.errors.count) :
    ∃ rd rs1 rs2 n u w, op.Operands p rd rs1 rs2 n ∧
      q.intermediateCode = p.intermediateCode ++ [(u, true)] ∧ machineCode u = .ok w ∧
      ∀ (fpu : Fpu) (v : Vm), v.nextWord = .ok w → v.core.programCounter < v.programSize →
        ∃ v', Vm.StepsTo fpu v (v.core.registers.writeGpr rd (op.value v.core.programCounter
          (v.core.registers.readGpr rs1) (v.core.registers.readGpr rs2) n)) v.core.memory v' := by
  obtain ⟨rd, rs1, rs2, n, hoperands, hn, rfl⟩ := op.parse_inv hp hop h hcount
  obtain ⟨w, hw, hexecutes⟩ : ∃ w, machineCode (op.unit p rd rs1 rs2 n) = .ok w ∧
      op.Executes w rd rs1 rs2 n := op.executes hop hn
  exact ⟨rd, rs1, rs2, n, _, w, hoperands, rfl, hw, hexecutes⟩

/-- The line `op x1, x2, x3`. -/
def registerLine (op : String) : Parser :=
  .initial [⟨.OPCODE, op, 1, 1⟩, ⟨.GP_REGISTER, "x1", 1, 6⟩, ⟨.COMMA, ",", 1, 8⟩,
    ⟨.GP_REGISTER, "x2", 1, 10⟩, ⟨.COMMA, ",", 1, 12⟩, ⟨.GP_REGISTER, "x3", 1, 14⟩]

theorem registerLine_lexed {op : String} (hop : isValidInstruction op = true) :
    LexedTokens (registerLine op).rest := by
  intro t ht
  simp only [registerLine, Parser.initial, List.mem_cons, List.not_mem_nil, or_false] at ht
  rcases ht with rfl | rfl | rfl | rfl | rfl | rfl
  · exact hop
  · exact (by decide : isValidGeneralPurposeRegister "x1" = true)
  · trivial
  · exact (by decide : isValidGeneralPurposeRegister "x2" = true)
  · trivial
  · exact (by decide : isValidGeneralPurposeRegister "x3" = true)

theorem parse_of_check {cfg : ParserConfig} {p : Parser}
    (h : (match Parser.parseStatement cfg p with
      | .ok q => q.errors.count == p.errors.count
      | .error _ => false) = true) :
    ∃ q, Parser.parseStatement cfg p = .ok q ∧ q.errors.count = p.errors.count := by
  split at h
  · rename_i q hparse
    exact ⟨q, hparse, by simpa using h⟩
  · cases h

theorem integer_statement_executes_mulhsu :
    ∃ (q : Parser) (rd rs1 rs2 : RegIndex) (n : Int) (u : ICUnit) (w : Instr),
      (IntegerOp.register .mulhsu).Operands (registerLine "mulhsu") rd rs1 rs2 n ∧
      q.intermediateCode = (registerLine "mulhsu").intermediateCode ++ [(u, true)] ∧
      machineCode u = .ok w ∧
      ∀ (fpu : Fpu) (v : Vm), v.nextWord = .ok w → v.core.programCounter < v.programSize →
        ∃ v', Vm.StepsTo fpu v (v.core.registers.writeGpr rd
          ((IntegerOp.register .mulhsu).value v.core.programCounter
            (v.core.registers.readGpr rs1) (v.core.registers.readGpr rs2) n)) v.core.memory v' := by
  obtain ⟨q, hq, hcount⟩ : ∃ q, Parser.parseStatement .default (registerLine "mulhsu") = .ok q ∧
      q.errors.count = (registerLine "mulhsu").errors.count := parse_of_check (by decide)
  have hlexed : LexedTokens (registerLine "mulhsu").rest := registerLine_lexed (by decide)
  exact ⟨q, integer_statement_executes hlexed rfl hq hcount⟩

end RiscvSim
