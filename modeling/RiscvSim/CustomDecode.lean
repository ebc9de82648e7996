import RiscvSim.CacheBounds
import RiscvSim.Encoding
import RiscvSim.ParsePasses

/-! LDBM and BIGMUL from the statement to the started unit. The encoder packs five-bit
register numbers side by side, `Decode` takes seven bits for each. -/

namespace RiscvSim

open CodeGenerator

/-- The parser is at `ldbm rd, rs1, rs2`, in any of the names that the registers have. -/
structure LdbmStatement (p : Parser) (rd rs1 rs2 : RegIndex) : Prop where
  opcode : p.currentToken.value = "ldbm"
  line : p.lineIs [.GP_REGISTER, .COMMA, .GP_REGISTER, .COMMA, .GP_REGISTER] = true
  rd : p.register 1 = .ok (gprName rd)
  rs1 : p.register 3 = .ok (gprName rs1)
  rs2 : p.register 5 = .ok (gprName rs2)

/-- The parser is at `bigmul rs2, imm(rs1)`. -/
structure BigmulStatement (p : Parser) (rs1 rs2 : RegIndex) (imm : Int) : Prop where
  opcode : p.currentToken.value = "bigmul"
  line : p.lineIs [.GP_REGISTER, .COMMA, .NUM, .LPAREN, .GP_REGISTER, .RPAREN] = true
  rs2 : p.register 1 = .ok (gprName rs2)
  immediate : stoll (p.peekToken 3).value = .ok imm
  low : -2048 ≤ imm
  high : imm ≤ 2047
  rs1 : p.register 5 = .ok (gprName rs1)

variable {cfg : ParserConfig} {p : Parser} {rd rs1 rs2 : RegIndex} {imm : Int}

/-- The unit of an LDBM. -/
def ldbmUnit (p : Parser) (rd rs1 rs2 : RegIndex) : ICUnit :=
  { p.block with rd := gprName rd, rs1 := gprName rs1, rs2 := gprName rs2 }

/-- The unit of a BIGMUL. -/
def bigmulUnit (p : Parser) (rs1 rs2 : RegIndex) (imm : Int) : ICUnit :=
  { p.block with rs1 := gprName rs1, rs2 := gprName rs2, imm := toString imm }

/-- A statement whose mnemonic has one syntax. -/
theorem parseStatement_single {s : InstructionSet.SyntaxType} {q : Parser}
    (hext : InstructionSet.isValidMExtensionInstruction p.currentToken.value = false)
    (hform : InstructionSet.syntaxes p.currentToken.value = [s])
    (h : Parser.parseSyntax cfg p s = .ok (some q)) : Parser.parseStatement cfg p = .ok q := by
  unfold Parser.parseStatement
  simp only [hext, hform, Parser.parseSyntaxes, h, Loop.bind_ok]
  rfl

theorem LdbmStatement.parse (h : LdbmStatement p rd rs1 rs2) :
    Parser.parseStatement cfg p = .ok (p.finish (ldbmUnit p rd rs1 rs2)) := by
  refine parseStatement_single (s := .O_GPR_C_GPR_C_GPR) ?_ ?_ ?_
  · rw [h.opcode]
    decide
  · rw [h.opcode]
    decide
  · have hline : p.lineIs ([TokenType.GP_REGISTER, .GP_REGISTER, .GP_REGISTER].intersperse .COMMA ++
        if Parser.RmField.absent = .given then [.COMMA, .RM] else []) = true := h.line
    have hnames : (List.range 3).mapM (fun i => p.register (2 * i + 1)) =
        .ok [gprName rd, gprName rs1, gprName rs2] := by
      simp [List.range, List.range.loop, h.rd, h.rs1, h.rs2, pure, Except.pure]
    change Parser.parseRegisters _ _ p = _
    unfold Parser.parseRegisters
    rw [if_pos hline]
    change ((List.range 3).mapM (fun i => p.register (2 * i + 1)) >>= _) = _
    rw [hnames, Loop.bind_ok]
    rfl

theorem BigmulStatement.parse (h : BigmulStatement p rs1 rs2 imm) :
    Parser.parseStatement cfg p = .ok (p.finish (bigmulUnit p rs1 rs2 imm)) := by
  refine parseStatement_single (s := .O_GPR_C_I_LP_GPR_RP) ?_ ?_ ?_
  · rw [h.opcode]
    decide
  · rw [h.opcode]
    decide
  · have hopcode : p.block.opcode = "bigmul" := h.opcode
    change Parser.parseOGprCILpGprRp p = _
    unfold Parser.parseOGprCILpGprRp
    rw [if_pos h.line, hopcode, if_neg (by decide), if_neg (by decide), if_pos (by decide)]
    unfold Parser.parseOffset
    rw [h.rs2, Loop.bind_ok, h.immediate, Loop.bind_ok, if_pos ⟨h.low, h.high⟩, h.rs1, Loop.bind_ok]
    rfl

theorem LdbmStatement.machineCode (h : LdbmStatement p rd rs1 rs2) :
    ∃ w, machineCode (ldbmUnit p rd rs1 rs2) = .ok w ∧
      w.toNat = rs2.toNat * 2 ^ 20 + rs1.toNat * 2 ^ 15 + rd.toNat * 2 ^ 7 + 0b0101010 := by
  have hopcode : (ldbmUnit p rd rs1 rs2).opcode = "ldbm" := h.opcode
  have hformat : formatOf (ldbmUnit p rd rs1 rs2).opcode = some .RL := by
    rw [hopcode]
    decide
  have hencoding : mapAt InstructionSet.rlTypeInstructionEncodingMap
      (ldbmUnit p rd rs1 rs2).opcode = .ok { opcode := 0b0101010 } := by
    rw [hopcode]
    decide
  obtain ⟨w, hw, hvalue⟩ := encodeRegisters_toNat hencoding (extractRegisterIndex_gprName rd) (extractRegisterIndex_gprName rs1)
    (extractRegisterIndex_gprName rs2)
  refine ⟨w, ?_, by simpa using hvalue⟩
  rw [CodeGenerator.machineCode, hformat]
  exact hw

theorem BigmulStatement.machineCode (h : BigmulStatement p rs1 rs2 imm) :
    ∃ w, machineCode (bigmulUnit p rs1 rs2 imm) = .ok w ∧
      w.toNat = (imm / 32 % 128).toNat * 2 ^ 25 + rs2.toNat * 2 ^ 20 + rs1.toNat * 2 ^ 15 +
        (imm % 32).toNat * 2 ^ 7 + 0b0111111 := by
  have hopcode : (bigmulUnit p rs1 rs2 imm).opcode = "bigmul" := h.opcode
  have hformat : formatOf (bigmulUnit p rs1 rs2 imm).opcode = some .SR := by
    rw [hopcode]
    decide
  have hlow := h.low
  have hhigh := h.high
  have hencoding : mapAt InstructionSet.srTypeInstructionEncodingMap
      (bigmulUnit p rs1 rs2 imm).opcode = .ok { opcode := 0b0111111 } := by
    rw [hopcode]
    decide
  obtain ⟨w, hw, hvalue⟩ := encodeStore_toNat (n := imm) (by omega) (by omega) hencoding rfl (extractRegisterIndex_gprName rs1)
    (extractRegisterIndex_gprName rs2)
  refine ⟨w, ?_, by simpa using hvalue⟩
  rw [CodeGenerator.machineCode, hformat]
  exact hw

theorem readGprChecked_ok (r : RegisterFile) {n : Nat} (reg : RegIndex) (hn : n = reg.toNat) :
    r.readGprChecked n = .ok (r.readGpr reg) := by
  subst hn
  rw [RegisterFile.readGprChecked, if_neg (by omega), BitVec.ofNat_toNat, BitVec.setWidth_eq]

theorem readGprChecked_error (r : RegisterFile) {n : Nat} (hn : 32 ≤ n) :
    r.readGprChecked n = .error .invalidRegister := by
  rw [RegisterFile.readGprChecked, if_pos hn]

theorem opcode_of_toNat {w : Instr} {op : BitVec 7} (h : w.toNat % 128 = op.toNat) :
    w.opcode = op := by
  apply BitVec.eq_of_toNat_eq
  rw [Instr.opcode, Instr.field_toNat, Nat.pow_zero, Nat.div_one]
  exact h

/-- `Decode` of an LDBM on an idle unit. -/
theorem decode_ldbm {c : Core} (hop : c.currentInstruction.opcode = 0b0101010#7)
    (hidle : c.bigmul.ldbmDone = true) :
    c.decode = c.registers.readGprChecked (Instr.field c.currentInstruction 15 7).toNat >>=
      fun baseAddrA => c.registers.readGprChecked (Instr.field c.currentInstruction 20 7).toNat >>=
        fun baseAddrB => .ok { c with
          controlUnit := { ControlUnit.reset with memRead := true, ldbmStart := true }
          bigmul := { c.bigmul with baseAddrA, baseAddrB, ldbmOffset := 0, ldbmDone := false } } := by
  have hctl := setControlSignals_ldbm hop
  simp only [Core.decode, hctl, hop, ControlUnit.reset, hidle]
  rw [if_pos (by simp)]
  rfl

/-- `Decode` starts a load of the operands at the addresses in `rs1` and `rs2`. -/
def StartsLdbm (c : Core) (rs1 rs2 : RegIndex) : Prop :=
  ∃ d, c.decode = .ok d ∧ d.bigmul.ldbmDone = false ∧
    d.bigmul.baseAddrA = c.registers.readGpr rs1 ∧ d.bigmul.baseAddrB = c.registers.readGpr rs2

/-- `Decode` starts a product that goes to `imm(rs1)`, of the size in `rs2`. -/
def StartsBigmul (c : Core) (rs1 rs2 : RegIndex) (imm : Int) : Prop :=
  ∃ d, c.decode = .ok d ∧ d.bigmul.bigmulDone = false ∧
    d.bigmul.baseAddrRes = c.registers.readGpr rs1 + BitVec.ofInt 64 imm ∧
    d.bigmul.sizeOfOperand = Core.chooseSize c.bigmul.sizeOfOperand (c.registers.readGpr rs2)

theorem startsLdbm_iff {c : Core} (hidle : c.bigmul.ldbmDone = true)
    (hw : c.currentInstruction.toNat =
      rs2.toNat * 2 ^ 20 + rs1.toNat * 2 ^ 15 + rd.toNat * 2 ^ 7 + 0b0101010) :
    StartsLdbm c rs1 rs2 ↔ rs2.toNat % 4 = 0 := by
  have hop : c.currentInstruction.opcode = 0b0101010#7 := by
    apply opcode_of_toNat
    change _ = 42
    omega
  have hfield₁ : (Instr.field c.currentInstruction 15 7).toNat =
      rs1.toNat + 32 * (rs2.toNat % 4) := by
    rw [Instr.field_toNat]
    omega
  have hfield₂ : (Instr.field c.currentInstruction 20 7).toNat = rs2.toNat := by
    rw [Instr.field_toNat]
    omega
  unfold StartsLdbm
  rw [decode_ldbm hop hidle, hfield₁, hfield₂, readGprChecked_ok c.registers rs2 rfl]
  constructor
  · rintro ⟨d, hd, -⟩
    by_contra hmod
    rw [readGprChecked_error c.registers (by omega)] at hd
    exact nomatch hd
  · intro hmod
    rw [readGprChecked_ok c.registers rs1 (by omega)]
    exact ⟨_, rfl, rfl, rfl, rfl⟩

theorem startsBigmul_iff {c : Core} (hidle : c.bigmul.bigmulDone = true) (hlow : -2048 ≤ imm)
    (hhigh : imm ≤ 2047) (hw : c.currentInstruction.toNat =
      (imm / 32 % 128).toNat * 2 ^ 25 + rs2.toNat * 2 ^ 20 + rs1.toNat * 2 ^ 15 +
        (imm % 32).toNat * 2 ^ 7 + 0b0111111) :
    StartsBigmul c rs1 rs2 imm ↔ rs2.toNat % 4 = 0 ∧ imm = 0 := by
  have hop : c.currentInstruction.opcode = 0b0111111#7 := by
    apply opcode_of_toNat
    change _ = 63
    omega
  have hfield₁ : (Instr.field c.currentInstruction 15 7).toNat =
      rs1.toNat + 32 * (rs2.toNat % 4) := by
    rw [Instr.field_toNat]
    omega
  have hfield₂ : (Instr.field c.currentInstruction 20 7).toNat =
      rs2.toNat + 32 * (imm / 32 % 4).toNat := by
    have hhi : (imm / 32 % 4).toNat = (imm / 32 % 128).toNat % 4 := by omega
    rw [Instr.field_toNat, hw, hhi]
    generalize (imm / 32 % 128).toNat = hi
    have hlo : (imm % 32).toNat < 32 := by omega
    omega
  unfold StartsBigmul
  rw [decode_bigmul hop hidle, hfield₁, hfield₂]
  constructor
  · rintro ⟨d, hd, -, hbase, -⟩
    obtain ⟨size, -, hd⟩ := Loop.bind_eq_ok hd
    have hmod : rs2.toNat % 4 = 0 := by
      by_contra hmod
      rw [readGprChecked_error c.registers (by omega)] at hd
      exact nomatch hd
    rw [readGprChecked_ok c.registers rs1 (by omega)] at hd
    obtain rfl := Except.ok.inj hd
    have hzero : BitVec.ofInt 64 imm = 0 := by
      exact left_eq_add.mp hbase
    have himm := congrArg BitVec.toNat hzero
    rw [BitVec.toNat_ofInt] at himm
    change _ = 0 at himm
    omega
  · rintro ⟨hmod, rfl⟩
    rw [readGprChecked_ok c.registers rs2 (by omega),
      readGprChecked_ok c.registers rs1 (by omega)]
    exact ⟨_, rfl, rfl, by simp, rfl⟩

/-- The statement of an LDBM starts the operation that it names exactly if the number of its last
register is a multiple of 4, and the statement of a BIGMUL exactly if that of its first is one and
its offset is 0. -/
theorem custom_decode_iff (cfg : ParserConfig) (p q : Parser) (rd rs1 rs2 r₁ r₂ : RegIndex)
    (imm : Int) (hp : LdbmStatement p rd rs1 rs2) (hq : BigmulStatement q r₁ r₂ imm) :
    (∃ u w, Parser.parseStatement cfg p = .ok (p.finish u) ∧ CodeGenerator.machineCode u = .ok w ∧
      ∀ c : Core, c.currentInstruction = w → c.bigmul.ldbmDone = true →
        (StartsLdbm c rs1 rs2 ↔ rs2.toNat % 4 = 0)) ∧
    ∃ u w, Parser.parseStatement cfg q = .ok (q.finish u) ∧ CodeGenerator.machineCode u = .ok w ∧
      ∀ c : Core, c.currentInstruction = w → c.bigmul.bigmulDone = true →
        (StartsBigmul c r₁ r₂ imm ↔ r₂.toNat % 4 = 0 ∧ imm = 0) := by
  obtain ⟨w, hw, hvalue⟩ := hp.machineCode
  obtain ⟨w', hw', hvalue'⟩ := hq.machineCode
  refine ⟨⟨_, w, hp.parse, hw, fun c hc hidle => ?_⟩, _, w', hq.parse, hw', fun c hc hidle => ?_⟩
  · exact startsLdbm_iff hidle (hc ▸ hvalue)
  · exact startsBigmul_iff hidle hq.low hq.high (hc ▸ hvalue')

/-- The line `ldbm x0, a, b`. -/
def ldbmLine (a b : String) : Parser :=
  .initial [⟨.OPCODE, "ldbm", 1, 1⟩, ⟨.GP_REGISTER, "x0", 1, 6⟩, ⟨.COMMA, ",", 1, 8⟩,
    ⟨.GP_REGISTER, a, 1, 10⟩, ⟨.COMMA, ",", 1, 12⟩, ⟨.GP_REGISTER, b, 1, 14⟩]

/-- The line `bigmul x4, 0(x5)`. -/
def bigmulLine : Parser :=
  .initial [⟨.OPCODE, "bigmul", 1, 1⟩, ⟨.GP_REGISTER, "x4", 1, 8⟩, ⟨.COMMA, ",", 1, 10⟩,
    ⟨.NUM, "0", 1, 12⟩, ⟨.LPAREN, "(", 1, 13⟩, ⟨.GP_REGISTER, "x5", 1, 14⟩, ⟨.RPAREN, ")", 1, 16⟩]

theorem custom_decode_iff_multiples :
    (∃ u w, Parser.parseStatement .default (ldbmLine "t0" "tp") =
        .ok ((ldbmLine "t0" "tp").finish u) ∧ CodeGenerator.machineCode u = .ok w ∧
      ∀ c : Core, c.currentInstruction = w → c.bigmul.ldbmDone = true → StartsLdbm c 5 4) ∧
    ∃ u w, Parser.parseStatement .default bigmulLine = .ok (bigmulLine.finish u) ∧
      CodeGenerator.machineCode u = .ok w ∧
      ∀ c : Core, c.currentInstruction = w → c.bigmul.bigmulDone = true → StartsBigmul c 5 4 0 := by
  obtain ⟨⟨u, w, hu, hw, h⟩, u', w', hu', hw', h'⟩ :=
    custom_decode_iff .default (ldbmLine "t0" "tp") bigmulLine 0 5 4 5 4 0
      ⟨by decide, by decide, by decide, by decide, by decide⟩
      ⟨by decide, by decide, by decide, by decide, by decide, by decide, by decide⟩
  exact ⟨⟨u, w, hu, hw, fun c hc hidle => (h c hc hidle).mpr (by decide)⟩,
    u', w', hu', hw', fun c hc hidle => (h' c hc hidle).mpr (by decide)⟩

/-- `ldbm x0, x2, x1` reads register 34. -/
theorem ldbm_decode_fails :
    ¬ ∀ (p q : Parser) (u : ICUnit) (w : Instr) (rd rs1 rs2 : RegIndex) (c : Core),
      LdbmStatement p rd rs1 rs2 → Parser.parseStatement .default p = .ok q →
      q.intermediateCode = [(u, true)] → CodeGenerator.machineCode u = .ok w →
      c.currentInstruction = w → c.bigmul.ldbmDone = true → StartsLdbm c rs1 rs2 := by
  intro hclaim
  have hline : LdbmStatement (ldbmLine "x2" "x1") 0 2 1 :=
    ⟨by decide, by decide, by decide, by decide, by decide⟩
  obtain ⟨w, hw, hvalue⟩ := hline.machineCode
  have hstart := hclaim _ _ _ w 0 2 1 { Core.initial 0 with currentInstruction := w } hline
    hline.parse rfl hw rfl rfl
  have hmod := (startsLdbm_iff (c := { Core.initial 0 with currentInstruction := w }) rfl
    hvalue).mp hstart
  exact absurd hmod (by decide)

end RiscvSim
