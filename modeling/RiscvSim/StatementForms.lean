import Mathlib.Tactic.IntervalCases
import RiscvSim.Statements

/-! Every statement parser does what `Statement` says. -/

namespace RiscvSim

namespace Parser

open InstructionSet

variable {cfg : ParserConfig} {p q : Parser}

theorem zero_csr : (0 : BitVec 32) < 0x1000 := by decide

theorem zero_rm : (0 : Byte) < 8 := by decide

theorem isRegister_getD (hp : LexedTokens p.rest) {types tail : List TokenType}
    {names : List String}
    (hline : p.lineIs (types.intersperse .COMMA ++ tail) = true)
    (hbanks : ∀ t ∈ types, t = .GP_REGISTER ∨ t = .FP_REGISTER)
    (hnames : (List.range types.length).mapM (fun i => p.register (2 * i + 1)) = .ok names)
    (i : Nat) : IsRegister (types[i]?.bind Bank.ofToken) (names.getD i "") := by
  obtain ⟨hlength, hget⟩ := Loop.mapM_eq_ok hnames
  rw [List.length_range] at hlength
  cases htype : types[i]? with
  | none =>
    have hi : types.length ≤ i := List.getElem?_eq_none_iff.mp htype
    rw [List.getD_eq_getElem?_getD, List.getElem?_eq_none (by omega)]
    rfl
  | some t =>
    obtain ⟨hi, -⟩ := List.getElem?_eq_some_iff.mp htype
    obtain ⟨name, hname, hreg⟩ := hget i i (by simp [hi])
    have htoken : (p.peekToken (2 * i + 1)).type = t := by
      apply lineIs_type hline
      rw [List.getElem?_append_left (by simp; omega), List.getElem?_intersperse_two_mul, htype]
    rw [List.getD_eq_getElem?_getD, hname]
    rcases hbanks t (List.mem_of_getElem? htype) with rfl | rfl
    · exact isRegister_register hp (by rw [htoken]; rfl) hreg
    · exact isRegister_register hp (by rw [htoken]; rfl) hreg

theorem parseRegisters_statement (hp : LexedTokens p.rest) (hend : p.notEof = true)
    {types : List TokenType} {rm : RmField} {s : SyntaxType}
    (hs : s ∈ syntaxes p.block.opcode)
    (hlayout : layout p.block.opcode s = some (registerLayout types rm))
    (hbanks : ∀ t ∈ types, t = .GP_REGISTER ∨ t = .FP_REGISTER)
    (hbranch : ¬ (s = .O_GPR_C_GPR_C_I ∨ s = .O_GPR_C_GPR_C_IL))
    (hjump : ¬ (s = .O_GPR_C_I ∨ s = .O_GPR_C_IL))
    (h : parseRegisters types rm p = .ok (some q)) : Statement p q := by
  unfold parseRegisters at h
  by_cases hline : p.lineIs
      (types.intersperse .COMMA ++ if rm = .given then [.COMMA, .RM] else []) = true
  · rw [if_pos hline] at h
    obtain ⟨names, hnames, h⟩ := Loop.bind_eq_ok h
    obtain ⟨mode, hmode, h⟩ := Loop.bind_eq_ok h
    obtain rfl := Option.some.inj (Except.ok.inj h)
    have hregister := isRegister_getD hp hline hbanks hnames
    have hrm : mode < 8 ∧ (rm = .absent → mode = 0) := by
      cases rm with
      | absent => obtain rfl := Except.ok.inj hmode; exact ⟨zero_rm, fun _ => rfl⟩
      | dynamic => obtain rfl := Except.ok.inj hmode; exact ⟨by decide, nofun⟩
      | given => exact ⟨roundingMode_lt hmode, nofun⟩
    refine .finish hend ⟨⟨s, hs, _, hlayout, ?_, rfl⟩, ?_, rfl⟩
    · exact ⟨hregister 0, hregister 1, hregister 2, hregister 3, zero_csr, fun _ => rfl, hrm.1,
        hrm.2⟩
    · exact ICUnit.aligned_of_syntax hs (fun h => absurd h hbranch) fun h => absurd h hjump
  · rw [if_neg hline] at h
    exact nomatch h

/-- A unit without operands. -/
theorem plain_block {s : SyntaxType} (hs : s ∈ syntaxes p.block.opcode)
    (hlayout : layout p.block.opcode s = some {})
    (hbranch : s = .O_GPR_C_GPR_C_I ∨ s = .O_GPR_C_GPR_C_IL →
      isValidBTypeInstruction p.block.opcode = false)
    (hjump : s = .O_GPR_C_I ∨ s = .O_GPR_C_IL →
      isValidJTypeInstruction p.block.opcode = false) : p.block.Plain :=
  ⟨⟨s, hs, _, hlayout, ⟨rfl, rfl, rfl, rfl, zero_csr, fun _ => rfl, zero_rm, fun _ => rfl⟩, rfl⟩,
    ICUnit.aligned_of_syntax hs hbranch hjump, rfl⟩

theorem parseO_statement (hend : p.notEof = true) (hs : .O ∈ syntaxes p.block.opcode)
    (h : p.parseO = .ok (some q)) : Statement p q := by
  unfold parseO at h
  split at h
  · obtain rfl := Option.some.inj (Except.ok.inj h)
    exact .finish hend (plain_block hs rfl (by simp) (by simp))
  · exact nomatch h

theorem parseOffset_statement (hend : p.notEof = true) {s : SyntaxType} {l : Layout} {set : ICUnit → String → ICUnit}
    (hs : s ∈ syntaxes p.block.opcode) (hlayout : layout p.block.opcode s = some l)
    (himm : l.imm = some (-2048, 2047)) (hkind : s = .O_GPR_C_I_LP_GPR_RP ∨ s = .O_FPR_C_I_LP_GPR_RP)
    (hset : ∀ reg imm rs1, (set p.block reg).opcode = p.block.opcode ∧
      (set p.block reg).label = "" ∧ (p.register 1 = .ok reg → p.register 5 = .ok rs1 →
        l.Registers { set p.block reg with imm, rs1 }))
    (h : p.parseOffset set = .ok (some q)) : Statement p q := by
  obtain ⟨reg, hreg, h⟩ := Loop.bind_eq_ok h
  obtain ⟨imm, -, h⟩ := Loop.bind_eq_ok h
  split at h
  · rename_i hrange
    obtain ⟨rs1, hrs1, h⟩ := Loop.bind_eq_ok h
    obtain rfl := Option.some.inj (Except.ok.inj h)
    obtain ⟨hopcode, hlabel, hregisters⟩ := hset reg (toString imm) rs1
    refine .finish hend ⟨⟨s, hopcode ▸ hs, l, ?_, hregisters hreg hrs1, ?_⟩, ?_, hlabel⟩
    · exact (congrArg (layout · s) hopcode).trans hlayout
    · rw [Layout.Immediate, himm]
      exact ⟨imm, rfl, hrange⟩
    · apply ICUnit.aligned_of_syntax (hopcode ▸ hs)
      · rintro (rfl | rfl) <;> simp at hkind
      · rintro (rfl | rfl) <;> simp at hkind
  · obtain rfl := Option.some.inj (Except.ok.inj h)
    exact .fail hend _ _ _ _ _

section

variable (hp : LexedTokens p.rest) (hend : p.notEof = true)
include hp hend

theorem parseOGprCGprCI_statement (hs : .O_GPR_C_GPR_C_I ∈ syntaxes p.block.opcode)
    (h : p.parseOGprCGprCI = .ok (some q)) : Statement p q := by
  unfold parseOGprCGprCI at h
  split at h
  case isFalse => exact nomatch h
  rename_i hline
  have hreg₁ : (p.peekToken 1).type = .GP_REGISTER := lineIs_type hline (i := 0) rfl
  have hreg₃ : (p.peekToken 3).type = .GP_REGISTER := lineIs_type hline (i := 2) rfl
  by_cases hi : isValidITypeInstruction p.block.opcode = true
  · rw [if_pos hi] at h
    obtain ⟨rd, hrd, h⟩ := Loop.bind_eq_ok h
    obtain ⟨rs1, hrs1, h⟩ := Loop.bind_eq_ok h
    obtain ⟨imm, himm, h⟩ := Loop.bind_eq_ok h
    have hbranch : isValidBTypeInstruction p.block.opcode = false := by
      rw [Bool.eq_false_iff]
      intro hb
      rw [branch_not_immediate hb] at hi
      exact nomatch hi
    have haligned : ({ p.block with rd, rs1, imm := toString imm } : ICUnit).Aligned :=
      ICUnit.aligned_of_syntax hs (fun _ => hbranch) (by simp)
    by_cases hi2 : isValidI2TypeInstruction p.block.opcode = true
    · rw [if_pos hi2] at h
      obtain rfl := Option.some.inj (Except.ok.inj h)
      refine .finishImmediate hend fun hlow hhigh =>
        ⟨⟨_, hs, { rd := some .gpr, rs1 := some .gpr, imm := some (0, 31) }, ?_,
          ⟨gpr_register hp hreg₁ hrd, gpr_register hp hreg₃ hrs1, rfl, rfl, zero_csr, fun _ => rfl,
            zero_rm, fun _ => rfl⟩, imm, rfl, hlow, hhigh⟩, haligned, rfl⟩
      exact (if_pos hi).trans (if_pos hi2)
    · rw [if_neg hi2] at h
      obtain rfl := Option.some.inj (Except.ok.inj h)
      refine .finishImmediate hend fun hlow hhigh =>
        ⟨⟨_, hs, { rd := some .gpr, rs1 := some .gpr, imm := some (-2048, 2047) }, ?_,
          ⟨gpr_register hp hreg₁ hrd, gpr_register hp hreg₃ hrs1, rfl, rfl, zero_csr, fun _ => rfl,
            zero_rm, fun _ => rfl⟩, imm, rfl, hlow, hhigh⟩, haligned, rfl⟩
      exact (if_pos hi).trans (if_neg hi2)
  · rw [if_neg hi] at h
    by_cases hb : isValidBTypeInstruction p.block.opcode = true
    · rw [if_pos hb] at h
      obtain ⟨rs1, hrs1, h⟩ := Loop.bind_eq_ok h
      obtain ⟨rs2, hrs2, h⟩ := Loop.bind_eq_ok h
      obtain ⟨imm, himm, h⟩ := Loop.bind_eq_ok h
      obtain rfl := Option.some.inj (Except.ok.inj h)
      refine .finishAligned hend fun hlow hhigh hdvd =>
        ⟨⟨_, hs, { rs1 := some .gpr, rs2 := some .gpr, imm := some (-4096, 4095) }, ?_,
          ⟨rfl, gpr_register hp hreg₁ hrs1, gpr_register hp hreg₃ hrs2, rfl, zero_csr, fun _ => rfl,
            zero_rm, fun _ => rfl⟩, imm, rfl, hlow, hhigh⟩, ⟨fun _ => ⟨imm, rfl, hdvd⟩, ?_⟩, rfl⟩
      · exact (if_neg hi).trans (if_pos hb)
      · intro hj
        have hs' := syntaxes_jump hj ▸ hs
        simp at hs'
    · rw [if_neg hb] at h
      obtain rfl := Option.some.inj (Except.ok.inj h)
      exact .finish hend (plain_block hs ((if_neg hi).trans (if_neg hb))
        (fun _ => Bool.eq_false_iff.mpr hb) (by simp))

theorem parseOGprCI_statement (hs : .O_GPR_C_I ∈ syntaxes p.block.opcode)
    (h : p.parseOGprCI = .ok (some q)) : Statement p q := by
  unfold parseOGprCI at h
  split at h
  case isFalse => exact nomatch h
  rename_i hline
  have hreg₁ : (p.peekToken 1).type = .GP_REGISTER := lineIs_type hline (i := 0) rfl
  by_cases hu : isValidUTypeInstruction p.block.opcode = true
  · rw [if_pos hu] at h
    obtain ⟨rd, hrd, h⟩ := Loop.bind_eq_ok h
    obtain ⟨imm, himm, h⟩ := Loop.bind_eq_ok h
    obtain rfl := Option.some.inj (Except.ok.inj h)
    have hjump : isValidJTypeInstruction p.block.opcode = false := by
      rw [Bool.eq_false_iff]
      intro hj
      rw [jump_not_upper hj] at hu
      exact nomatch hu
    refine .finishImmediate hend fun hlow hhigh =>
      ⟨⟨_, hs, { rd := some .gpr, imm := some (-2147483648, 2147483647) }, if_pos hu,
        ⟨gpr_register hp hreg₁ hrd, rfl, rfl, rfl, zero_csr, fun _ => rfl, zero_rm, fun _ => rfl⟩,
        imm, rfl, by omega, by omega⟩, ?_, rfl⟩
    exact ICUnit.aligned_of_syntax hs (by simp) fun _ => hjump
  · rw [if_neg hu] at h
    by_cases hj : isValidJTypeInstruction p.block.opcode = true
    · rw [if_pos hj] at h
      obtain ⟨rd, hrd, h⟩ := Loop.bind_eq_ok h
      obtain ⟨imm, himm, h⟩ := Loop.bind_eq_ok h
      obtain rfl := Option.some.inj (Except.ok.inj h)
      refine .finishAligned hend fun hlow hhigh hdvd =>
        ⟨⟨_, hs, { rd := some .gpr, imm := some (-1048576, 1048575) },
          (if_neg hu).trans (if_pos hj), ⟨gpr_register hp hreg₁ hrd, rfl, rfl, rfl, zero_csr,
            fun _ => rfl, zero_rm, fun _ => rfl⟩, imm, rfl, hlow, hhigh⟩,
          ⟨?_, fun _ => ⟨imm, rfl, hdvd⟩⟩, rfl⟩
      intro hb
      have hs' := syntaxes_branch hb ▸ hs
      simp at hs'
    · rw [if_neg hj] at h
      obtain rfl := Option.some.inj (Except.ok.inj h)
      exact .finish hend (plain_block hs ((if_neg hu).trans (if_neg hj)) (by simp)
        fun _ => Bool.eq_false_iff.mpr hj)

theorem parseOGprCGprCIl_statement (hs : .O_GPR_C_GPR_C_IL ∈ syntaxes p.block.opcode)
    (h : p.parseOGprCGprCIl = .ok (some q)) : Statement p q := by
  unfold parseOGprCGprCIl at h
  split at h
  case isFalse => exact nomatch h
  rename_i hline
  have hreg₁ : (p.peekToken 1).type = .GP_REGISTER := lineIs_type hline (i := 0) rfl
  have hreg₃ : (p.peekToken 3).type = .GP_REGISTER := lineIs_type hline (i := 2) rfl
  have hlabel : (p.peekToken 5).value ≠ "" :=
    label_ne_empty hp (lineIs_type hline (i := 4) rfl)
  by_cases hb : isValidBTypeInstruction p.block.opcode = true
  · rw [if_pos hb] at h
    obtain ⟨rs1, hrs1, h⟩ := Loop.bind_eq_ok h
    obtain ⟨rs2, hrs2, h⟩ := Loop.bind_eq_ok h
    obtain rfl := Option.some.inj (Except.ok.inj h)
    have hregisters (imm label : String) : Layout.Registers
        { rs1 := some .gpr, rs2 := some .gpr, imm := some (-4096, 4095) }
        { p.block with rs1, rs2, imm, label } :=
      ⟨rfl, gpr_register hp hreg₁ hrs1, gpr_register hp hreg₃ hrs2, rfl, zero_csr, fun _ => rfl,
        zero_rm, fun _ => rfl⟩
    exact .finishLabel hend
      (fun imm => ⟨⟨_, hs, _, if_pos hb, hregisters imm _⟩, .inl hb, hlabel⟩)
      fun imm hlow hhigh => ⟨_, hs, _, if_pos hb, hregisters _ _, imm, rfl, hlow, hhigh⟩
  · rw [if_neg hb] at h
    obtain rfl := Option.some.inj (Except.ok.inj h)
    exact .finish hend (plain_block hs (if_neg hb) (fun _ => Bool.eq_false_iff.mpr hb) (by simp))

theorem parseOGprCIl_statement (hs : .O_GPR_C_IL ∈ syntaxes p.block.opcode)
    (h : p.parseOGprCIl = .ok (some q)) : Statement p q := by
  unfold parseOGprCIl at h
  split at h
  case isFalse => exact nomatch h
  rename_i hline
  have hreg₁ : (p.peekToken 1).type = .GP_REGISTER := lineIs_type hline (i := 0) rfl
  have hlabel : (p.peekToken 3).value ≠ "" :=
    label_ne_empty hp (lineIs_type hline (i := 2) rfl)
  by_cases hj : isValidJTypeInstruction p.block.opcode = true
  · rw [if_pos hj] at h
    obtain ⟨rd, hrd, h⟩ := Loop.bind_eq_ok h
    obtain rfl := Option.some.inj (Except.ok.inj h)
    have hregisters (imm label : String) : Layout.Registers
        { rd := some .gpr, imm := some (-1048576, 1048575) } { p.block with rd, imm, label } :=
      ⟨gpr_register hp hreg₁ hrd, rfl, rfl, rfl, zero_csr, fun _ => rfl, zero_rm, fun _ => rfl⟩
    exact .finishLabel hend
      (fun imm => ⟨⟨_, hs, _, if_pos hj, hregisters imm _⟩, .inr hj, hlabel⟩)
      fun imm hlow hhigh => ⟨_, hs, _, if_pos hj, hregisters _ _, imm, rfl, hlow, hhigh⟩
  · rw [if_neg hj] at h
    obtain rfl := Option.some.inj (Except.ok.inj h)
    exact .finish hend (plain_block hs (if_neg hj) (by simp) fun _ => Bool.eq_false_iff.mpr hj)


theorem parseOGprCILpGprRp_statement (hs : .O_GPR_C_I_LP_GPR_RP ∈ syntaxes p.block.opcode)
    (h : p.parseOGprCILpGprRp = .ok (some q)) : Statement p q := by
  unfold parseOGprCILpGprRp at h
  split at h
  case isFalse => exact nomatch h
  rename_i hline
  have hreg₁ : (p.peekToken 1).type = .GP_REGISTER := lineIs_type hline (i := 0) rfl
  have hreg₅ : (p.peekToken 5).type = .GP_REGISTER := lineIs_type hline (i := 4) rfl
  have hstore {l : Layout} (hl : l = { rs1 := some .gpr, rs2 := some .gpr, imm := l.imm })
      (reg imm rs1 : String) (hreg : p.register 1 = .ok reg) (hrs1 : p.register 5 = .ok rs1) :
      l.Registers { setRs2 p.block reg with imm, rs1 } := by
    rw [hl]
    exact ⟨rfl, gpr_register hp hreg₅ hrs1, gpr_register hp hreg₁ hreg, rfl, zero_csr, fun _ => rfl,
      zero_rm, fun _ => rfl⟩
  by_cases hi : isValidITypeInstruction p.block.opcode = true
  · rw [if_pos hi] at h
    refine parseOffset_statement hend hs (if_pos hi) rfl (.inl rfl) (fun reg imm rs1 => ?_) h
    exact ⟨rfl, rfl, fun hreg hrs1 => ⟨gpr_register hp hreg₁ hreg, gpr_register hp hreg₅ hrs1, rfl,
      rfl, zero_csr, fun _ => rfl, zero_rm, fun _ => rfl⟩⟩
  · rw [if_neg hi] at h
    by_cases hst : isValidSTypeInstruction p.block.opcode = true
    · rw [if_pos hst] at h
      exact parseOffset_statement hend hs ((if_neg hi).trans (if_pos (.inl hst))) rfl (.inl rfl)
        (fun reg imm rs1 => ⟨rfl, rfl, hstore rfl reg imm rs1⟩) h
    · rw [if_neg hst] at h
      by_cases hsr : isValidSRTypeInstruction p.block.opcode = true
      · rw [if_pos hsr] at h
        exact parseOffset_statement hend hs ((if_neg hi).trans (if_pos (.inr hsr))) rfl
          (.inl rfl) (fun reg imm rs1 => ⟨rfl, rfl, hstore rfl reg imm rs1⟩) h
      · rw [if_neg hsr] at h
        obtain rfl := Option.some.inj (Except.ok.inj h)
        exact .finish hend (plain_block hs ((if_neg hi).trans (if_neg (not_or.mpr ⟨hst, hsr⟩)))
          (by simp) (by simp))

theorem parseOFprCILpGprRp_statement (hs : .O_FPR_C_I_LP_GPR_RP ∈ syntaxes p.block.opcode)
    (h : p.parseOFprCILpGprRp = .ok (some q)) : Statement p q := by
  unfold parseOFprCILpGprRp at h
  split at h
  case isFalse => exact nomatch h
  rename_i hline
  have hreg₁ : (p.peekToken 1).type = .FP_REGISTER := lineIs_type hline (i := 0) rfl
  have hreg₅ : (p.peekToken 5).type = .GP_REGISTER := lineIs_type hline (i := 4) rfl
  by_cases hi : isValidFDITypeInstruction p.block.opcode = true
  · rw [if_pos hi] at h
    refine parseOffset_statement hend hs (if_pos hi) rfl (.inr rfl) (fun reg imm rs1 => ?_) h
    exact ⟨rfl, rfl, fun hreg hrs1 => ⟨fpr_register hp hreg₁ hreg, gpr_register hp hreg₅ hrs1, rfl,
      rfl, zero_csr, fun _ => rfl, zero_rm, fun _ => rfl⟩⟩
  · rw [if_neg hi] at h
    by_cases hst : isValidFDSTypeInstruction p.block.opcode = true
    · rw [if_pos hst] at h
      refine parseOffset_statement hend hs ((if_neg hi).trans (if_pos hst)) rfl (.inr rfl)
        (fun reg imm rs1 => ?_) h
      exact ⟨rfl, rfl, fun hreg hrs1 => ⟨rfl, gpr_register hp hreg₅ hrs1,
        fpr_register hp hreg₁ hreg, rfl, zero_csr, fun _ => rfl, zero_rm, fun _ => rfl⟩⟩
    · rw [if_neg hst] at h
      obtain rfl := Option.some.inj (Except.ok.inj h)
      exact .finish hend (plain_block hs ((if_neg hi).trans (if_neg hst)) (by simp) (by simp))

theorem parseOGprCCsrCGpr_statement (hs : .O_GPR_C_CSR_C_GPR ∈ syntaxes p.block.opcode)
    (h : p.parseOGprCCsrCGpr = .ok (some q)) : Statement p q := by
  unfold parseOGprCCsrCGpr at h
  split at h
  case isFalse => exact nomatch h
  rename_i hline
  obtain ⟨rd, hrd, h⟩ := Loop.bind_eq_ok h
  obtain ⟨csr, hcsr, h⟩ := Loop.bind_eq_ok h
  obtain ⟨rs1, hrs1, h⟩ := Loop.bind_eq_ok h
  obtain rfl := Option.some.inj (Except.ok.inj h)
  refine .finish hend ⟨⟨_, hs, _, rfl, ?_, rfl⟩, ICUnit.aligned_of_syntax hs (by simp) (by simp), rfl⟩
  exact ⟨gpr_register hp (lineIs_type hline (i := 0) rfl) hrd,
    gpr_register hp (lineIs_type hline (i := 4) rfl) hrs1, rfl, rfl, csr_address hcsr, nofun,
    zero_rm, fun _ => rfl⟩

theorem parseOGprCCsrCI_statement (hs : .O_GPR_C_CSR_C_I ∈ syntaxes p.block.opcode)
    (h : p.parseOGprCCsrCI = .ok (some q)) : Statement p q := by
  unfold parseOGprCCsrCI at h
  split at h
  case isFalse => exact nomatch h
  rename_i hline
  obtain ⟨rd, hrd, h⟩ := Loop.bind_eq_ok h
  obtain ⟨csr, hcsr, h⟩ := Loop.bind_eq_ok h
  obtain ⟨imm, -, h⟩ := Loop.bind_eq_ok h
  obtain rfl := Option.some.inj (Except.ok.inj h)
  refine .finishImmediate hend fun hlow hhigh => ⟨⟨_, hs, _, rfl, ?_, imm, rfl, hlow, hhigh⟩,
    ICUnit.aligned_of_syntax hs (by simp) (by simp), rfl⟩
  exact ⟨gpr_register hp (lineIs_type hline (i := 0) rfl) hrd, rfl, rfl, rfl, csr_address hcsr,
    nofun, zero_rm, fun _ => rfl⟩

end

/-- Rounding to the nearest multiple of 4096, at the width of a register operand. -/
theorem upper_part (x : Word) :
    ((x.sshiftRight 12).setWidth 32 <<< 12 : BitVec 32) = x.setWidth 32 &&& 0xfffff000 := by
  apply BitVec.eq_of_getLsbD_eq
  intro i hi
  simp only [BitVec.getLsbD_shiftLeft, BitVec.getLsbD_setWidth, BitVec.getLsbD_sshiftRight,
    BitVec.getLsbD_and]
  interval_cases i <;> simp

theorem sub_upper_part (y : BitVec 32) : y - (y &&& 0xfffff000) = y &&& 0xfff := by
  have hor : (y &&& 0xfffff000) ||| (y &&& 0xfff) = y := by
    rw [← BitVec.and_or_distrib_left]
    exact BitVec.and_allOnes
  have hadd : (y &&& 0xfffff000) + (y &&& 0xfff) = y := by
    rw [BitVec.add_eq_or_of_and_eq_zero, hor]
    apply BitVec.eq_of_getLsbD_eq
    intro i hi
    simp only [BitVec.getLsbD_and]
    interval_cases i <;> simp
  grind

theorem lower_part_range (y : BitVec 32) :
    -2048 ≤ ((y &&& 0xfff) - 0x800).toInt ∧ ((y &&& 0xfff) - 0x800).toInt ≤ 2047 := by
  have h : (y &&& 0xfff).toNat ≤ 0xfff := by
    rw [BitVec.toNat_and]
    exact Nat.and_le_right
  generalize y &&& 0xfff = z at h
  have hz : z.toInt = z.toNat := BitVec.toInt_eq_toNat_of_lt (by omega)
  rw [BitVec.toInt_sub, Int.bmod_def, hz]
  simp
  omega

theorem setWidth_signExtend (x : BitVec 32) : (x.signExtend 64).setWidth 32 = x := by
  apply BitVec.eq_of_getLsbD_eq
  intro i hi
  simp only [BitVec.getLsbD_setWidth, BitVec.getLsbD_signExtend, hi]
  simp
  omega

theorem dataOffset_low (cfg : ParserConfig) (p : Parser) (address : Word) : (dataOffset cfg p address).2 =
    ((cfg.dataSectionStart + address - textAddress p.instructionIndex + 0x800).setWidth 32 &&&
      0xfff) - 0x800 := by
  unfold dataOffset
  dsimp only
  generalize cfg.dataSectionStart + address - textAddress p.instructionIndex = offset
  rw [BitVec.sub_eq_add_neg, BitVec.setWidth_add _ _ (by omega),
    BitVec.setWidth_neg_of_le (by omega), setWidth_signExtend, ← BitVec.sub_eq_add_neg, upper_part,
    ← sub_upper_part, BitVec.setWidth_add _ _ (by omega)]
  grind

theorem dataOffset_low_range (cfg : ParserConfig) (p : Parser) (address : Word) :
    -2048 ≤ (dataOffset cfg p address).2.toInt ∧ (dataOffset cfg p address).2.toInt ≤ 2047 := by
  rw [dataOffset_low]
  exact lower_part_range _

theorem toInt_range (x : BitVec 32) : -2147483648 ≤ x.toInt ∧ x.toInt ≤ 2147483647 := by
  have h := BitVec.le_two_mul_toInt (x := x)
  have h' := BitVec.two_mul_toInt_lt (x := x)
  omega

/-- A unit of one of several mnemonics that have a syntax in common and are neither branches
nor jumps. -/
theorem plain_of_table {u : ICUnit} {s : SyntaxType} {l : Layout} {ops : List String}
    (htable : ∀ op ∈ ops, s ∈ syntaxes op ∧ layout op s = some l ∧
      isValidBTypeInstruction op = false ∧ isValidJTypeInstruction op = false)
    (hop : u.opcode ∈ ops) (hregisters : l.Registers u) (himm : l.Immediate u)
    (hlabel : u.label = "") : u.Plain := by
  obtain ⟨hs, hl, hbranch, hjump⟩ := htable u.opcode hop
  exact ⟨⟨s, hs, l, hl, hregisters, himm⟩,
    ICUnit.aligned_of_syntax hs (fun _ => hbranch) (fun _ => hjump), hlabel⟩

/-- The mnemonics that the parser writes by itself, with their operands. -/
theorem written_table :
    (∀ op ∈ ["lui", "auipc"], .O_GPR_C_I ∈ syntaxes op ∧
      layout op .O_GPR_C_I = some { rd := some .gpr, imm := some (-2147483648, 2147483647) } ∧
      isValidBTypeInstruction op = false ∧ isValidJTypeInstruction op = false) ∧
    (∀ op ∈ ["addi", "xori"], .O_GPR_C_GPR_C_I ∈ syntaxes op ∧
      layout op .O_GPR_C_GPR_C_I =
        some { rd := some .gpr, rs1 := some .gpr, imm := some (-2048, 2047) } ∧
      isValidBTypeInstruction op = false ∧ isValidJTypeInstruction op = false) ∧
    (∀ op ∈ ["jalr", "lb", "lh", "lw", "ld"],
      .O_GPR_C_I_LP_GPR_RP ∈ syntaxes op ∧ layout op .O_GPR_C_I_LP_GPR_RP =
        some { rd := some .gpr, rs1 := some .gpr, imm := some (-2048, 2047) } ∧
      isValidBTypeInstruction op = false ∧ isValidJTypeInstruction op = false) ∧
    (∀ op ∈ ["add"], .O_GPR_C_GPR_C_GPR ∈ syntaxes op ∧
      layout op .O_GPR_C_GPR_C_GPR =
        some { rd := some .gpr, rs1 := some .gpr, rs2 := some .gpr } ∧
      isValidBTypeInstruction op = false ∧ isValidJTypeInstruction op = false) ∧
    ∀ entry ∈ instructionSyntaxMap, .O_GPR_C_DL ∈ entry.2 →
      entry.1 ∈ ["jalr", "lb", "lh", "lw", "ld"] := by decide +kernel

/-- The mnemonics that load from a data label. -/
theorem load_of_form {opcode : String} (h : .O_GPR_C_DL ∈ syntaxes opcode) :
    opcode ∈ ["jalr", "lb", "lh", "lw", "ld"] := by
  obtain ⟨-, -, -, -, htable⟩ := written_table
  unfold syntaxes at h
  cases hlookup : instructionSyntaxMap.lookup opcode with
  | none => rw [hlookup] at h; exact nomatch h
  | some ss => rw [hlookup] at h; exact htable _ (mem_of_lookup hlookup) h

theorem text_zero : "0" = toString (0 : Int) := by decide

theorem text_neg_one : "-1" = toString (-1 : Int) := by decide

theorem isRegister_x0 : IsRegister (some .gpr) "x0" := ⟨0, by decide⟩

theorem isRegister_x1 : IsRegister (some .gpr) "x1" := ⟨1, by decide⟩

section

variable (hp : LexedTokens p.rest) (hend : p.notEof = true)
include hp hend

theorem parseOGprCDl_statement (hs : .O_GPR_C_DL ∈ syntaxes p.block.opcode)
    (h : parseOGprCDl cfg p = .ok (some q)) : Statement p q := by
  unfold parseOGprCDl at h
  split at h
  case isFalse => exact nomatch h
  rename_i hline
  obtain ⟨rd, hrd, h⟩ := Loop.bind_eq_ok h
  have hrd := gpr_register hp (lineIs_type hline (i := 0) rfl) hrd
  split at h
  · obtain rfl := Option.some.inj (Except.ok.inj h)
    exact .fail hend _ _ _ _ _
  · rename_i symbol _
    obtain rfl := Option.some.inj (Except.ok.inj h)
    obtain ⟨hlow, hhigh⟩ := dataOffset_low_range cfg p symbol.address
    obtain ⟨hlow', hhigh'⟩ := toInt_range (dataOffset cfg p symbol.address).1
    refine .emit_two (consumed_skipCurrentLine hend) ?_ ?_
    · exact plain_of_table written_table.1 (by simp) ⟨hrd, rfl, rfl, rfl, zero_csr, fun _ => rfl, zero_rm,
        fun _ => rfl⟩ ⟨_, rfl, hlow', hhigh'⟩ rfl
    · exact plain_of_table written_table.2.2.1 (load_of_form hs) ⟨hrd, hrd, rfl, rfl, zero_csr,
        fun _ => rfl, zero_rm, fun _ => rfl⟩ ⟨_, rfl, hlow, hhigh⟩ rfl

theorem parseLa_statement (h : parseLa cfg p = .ok (some q)) : Statement p q := by
  unfold parseLa at h
  split at h
  case isFalse => exact nomatch h
  rename_i hline
  obtain ⟨rd, hrd, h⟩ := Loop.bind_eq_ok h
  have hrd := gpr_register hp (lineIs_type hline (i := 0) rfl) hrd
  split at h
  · rename_i symbol _
    obtain rfl := Option.some.inj (Except.ok.inj h)
    obtain ⟨hlow, hhigh⟩ := dataOffset_low_range cfg p symbol.address
    obtain ⟨hlow', hhigh'⟩ := toInt_range (dataOffset cfg p symbol.address).1
    refine .emit_two (consumed_skipCurrentLine hend) ?_ ?_
    · exact plain_of_table written_table.1 (by simp) ⟨hrd, rfl, rfl, rfl, zero_csr, fun _ => rfl, zero_rm,
        fun _ => rfl⟩ ⟨_, rfl, hlow', hhigh'⟩ rfl
    · exact plain_of_table written_table.2.1 (by simp) ⟨hrd, hrd, rfl, rfl, zero_csr, fun _ => rfl,
        zero_rm, fun _ => rfl⟩ ⟨_, rfl, hlow, hhigh⟩ rfl
  · obtain rfl := Option.some.inj (Except.ok.inj h)
    exact .fail hend _ _ _ _ _

theorem parseLi_statement (h : parseLi p = .ok (some q)) : Statement p q := by
  unfold parseLi at h
  split at h
  case isFalse => exact nomatch h
  rename_i hline
  obtain ⟨imm, himm, h⟩ := Loop.bind_eq_ok h
  obtain ⟨rd, hrd, h⟩ := Loop.bind_eq_ok h
  have hrd := gpr_register hp (lineIs_type hline (i := 0) rfl) hrd
  have htext := stoll_token hp (lineIs_type hline (i := 2) rfl) himm
  have hconsumed := consumed_skipCurrentLine hend
  split at h
  · rename_i hsmall
    obtain rfl := Option.some.inj (Except.ok.inj h)
    exact .emit hconsumed (plain_of_table written_table.2.1 (by simp) ⟨hrd, isRegister_x0, rfl, rfl,
      zero_csr, fun _ => rfl, zero_rm, fun _ => rfl⟩ ⟨imm, htext, hsmall⟩ rfl)
  split at h
  · rename_i hwide
    have hshift : (imm + 2048) >>> (12 : Nat) = (imm + 2048) / 4096 :=
      Int.shiftRight_eq_div_pow _ _
    have hupper {n : Int} (hn : n = (imm + 2048) >>> (12 : Nat)) :
        ({ p.block with opcode := "lui", rd, imm := toString n } : ICUnit).Plain :=
      plain_of_table written_table.1 (by simp) ⟨hrd, rfl, rfl, rfl, zero_csr, fun _ => rfl, zero_rm,
        fun _ => rfl⟩ ⟨n, rfl, by omega, by omega⟩ rfl
    dsimp only at h
    split at h
    · obtain rfl := Option.some.inj (Except.ok.inj h)
      refine .emit_two hconsumed (hupper rfl) ?_
      exact plain_of_table written_table.2.1 (by simp) ⟨hrd, hrd, rfl, rfl, zero_csr, fun _ => rfl,
        zero_rm, fun _ => rfl⟩ ⟨_, rfl, by omega, by omega⟩ rfl
    · obtain rfl := Option.some.inj (Except.ok.inj h)
      exact .emit hconsumed (hupper rfl)
  · obtain rfl := Option.some.inj (Except.ok.inj h)
    exact .fail hend _ _ _ _ _

theorem parsePseudo_statement (h : parsePseudo cfg p = .ok (some q)) : Statement p q := by
  unfold parsePseudo at h
  split at h
  · exact parseLa_statement hp hend h
  · split at h
    case isFalse => exact nomatch h
    obtain rfl := Option.some.inj (Except.ok.inj h)
    exact .emit (consumed_tail hend) (plain_of_table written_table.2.1 (by simp) ⟨isRegister_x0,
      isRegister_x0, rfl, rfl, zero_csr, fun _ => rfl, zero_rm, fun _ => rfl⟩
      ⟨0, text_zero, by omega, by omega⟩ rfl)
  · exact parseLi_statement hp hend h
  · split at h
    case isFalse => exact nomatch h
    rename_i hline
    obtain ⟨rd, hrd, h⟩ := Loop.bind_eq_ok h
    obtain ⟨rs1, hrs1, h⟩ := Loop.bind_eq_ok h
    obtain rfl := Option.some.inj (Except.ok.inj h)
    exact .emit (consumed_skipCurrentLine hend) (plain_of_table written_table.2.2.2.1 (by simp)
      ⟨gpr_register hp (lineIs_type hline (i := 0) rfl) hrd,
        gpr_register hp (lineIs_type hline (i := 2) rfl) hrs1, isRegister_x0, rfl, zero_csr,
        fun _ => rfl, zero_rm, fun _ => rfl⟩ rfl rfl)
  · split at h
    case isFalse => exact nomatch h
    rename_i hline
    obtain ⟨rd, hrd, h⟩ := Loop.bind_eq_ok h
    obtain ⟨rs1, hrs1, h⟩ := Loop.bind_eq_ok h
    obtain rfl := Option.some.inj (Except.ok.inj h)
    exact .emit (consumed_skipCurrentLine hend) (plain_of_table written_table.2.1 (by simp)
      ⟨gpr_register hp (lineIs_type hline (i := 0) rfl) hrd,
        gpr_register hp (lineIs_type hline (i := 2) rfl) hrs1, rfl, rfl, zero_csr,
        fun _ => rfl, zero_rm, fun _ => rfl⟩ ⟨-1, text_neg_one, by omega, by omega⟩ rfl)
  · split at h
    case isFalse => exact nomatch h
    obtain rfl := Option.some.inj (Except.ok.inj h)
    exact .emit (consumed_tail hend) (plain_of_table written_table.2.2.1 (by simp) ⟨isRegister_x0,
      isRegister_x1, rfl, rfl, zero_csr, fun _ => rfl, zero_rm, fun _ => rfl⟩
      ⟨0, text_zero, by omega, by omega⟩ rfl)
  · exact nomatch h

theorem parseSyntax_statement {s : SyntaxType} (hs : s ∈ syntaxes p.block.opcode)
    (h : parseSyntax cfg p s = .ok (some q)) : Statement p q := by
  have hgf : ∀ types : List TokenType, (∀ t ∈ types, t = .GP_REGISTER ∨ t = .FP_REGISTER) →
      ∀ rm, layout p.block.opcode s = some (registerLayout types rm) →
      ¬ (s = .O_GPR_C_GPR_C_I ∨ s = .O_GPR_C_GPR_C_IL) → ¬ (s = .O_GPR_C_I ∨ s = .O_GPR_C_IL) →
      parseRegisters types rm p = .ok (some q) → Statement p q :=
    fun types hbanks rm hlayout hbranch hjump h =>
      parseRegisters_statement hp hend hs hlayout hbanks hbranch hjump h
  cases s with
  | O_GPR_C_GPR_C_I => exact parseOGprCGprCI_statement hp hend hs h
  | O_GPR_C_I => exact parseOGprCI_statement hp hend hs h
  | O_GPR_C_GPR_C_IL => exact parseOGprCGprCIl_statement hp hend hs h
  | O_GPR_C_IL => exact parseOGprCIl_statement hp hend hs h
  | O_GPR_C_GPR_C_DL => exact nomatch h
  | O_GPR_C_DL => exact parseOGprCDl_statement hp hend hs h
  | O_GPR_C_I_LP_GPR_RP => exact parseOGprCILpGprRp_statement hp hend hs h
  | O => exact parseO_statement hend hs h
  | PSEUDO => exact parsePseudo_statement hp hend h
  | O_GPR_C_CSR_C_GPR => exact parseOGprCCsrCGpr_statement hp hend hs h
  | O_GPR_C_CSR_C_I => exact parseOGprCCsrCI_statement hp hend hs h
  | O_FPR_C_I_LP_GPR_RP => exact parseOFprCILpGprRp_statement hp hend hs h
  | _ => exact hgf _ (by simp) _ rfl (by simp) (by simp) h

theorem parseSyntaxes_statement {ss : List SyntaxType} (hss : ∀ s ∈ ss, s ∈ syntaxes p.block.opcode)
    (h : parseSyntaxes cfg p ss = .ok (some q)) : Statement p q := by
  induction ss with
  | nil => exact nomatch h
  | cons s ss ih =>
    obtain ⟨result, hresult, h⟩ := Loop.bind_eq_ok h
    cases result with
    | some q' =>
      obtain rfl := Option.some.inj (Except.ok.inj h)
      exact parseSyntax_statement hp hend (hss s List.mem_cons_self) hresult
    | none => exact ih (fun s hs => hss s (List.mem_cons_of_mem _ hs)) h

/-- A statement of the text section fails, or appends units as its mnemonic asks for. -/
theorem parseStatement_statement (h : parseStatement cfg p = .ok q) : Statement p q := by
  unfold parseStatement at h
  dsimp only at h
  split at h
  · obtain rfl := Except.ok.inj h
    exact .fail hend _ _ _ _ _
  · obtain ⟨result, hresult, h⟩ := Loop.bind_eq_ok h
    cases result with
    | some q' =>
      obtain rfl := Except.ok.inj h
      exact parseSyntaxes_statement hp hend (fun s hs => hs) hresult
    | none =>
      obtain rfl := Except.ok.inj h
      exact .fail hend _ _ _ _ _

end

end Parser

end RiscvSim
