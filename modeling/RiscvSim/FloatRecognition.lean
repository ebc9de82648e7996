import RiscvSim.Core
import RiscvSim.UnitWords

/-! The floating-point mnemonics, from the encoding tables to the switches of the arithmetic
units. -/

namespace RiscvSim

open InstructionSet CodeGenerator

/-- The two arithmetic units. -/
inductive FloatPath where
  | single | double
  deriving DecidableEq, Repr

/-- The operations that `fpexecute` and `dfpexecute` have a case for. The double unit lists
`FCVT_S_LU` in the place of `FCVT_D_LU`. -/
def FloatPath.cases : FloatPath → List AluOp
  | .single =>
    [.kAdd, .kFmadd_s, .kFmsub_s, .kFnmadd_s, .kFnmsub_s, .FADD_S, .FSUB_S, .FMUL_S, .FDIV_S,
     .FSQRT_S, .FCVT_W_S, .FCVT_WU_S, .FCVT_L_S, .FCVT_LU_S, .FCVT_S_W, .FCVT_S_WU, .FCVT_S_L,
     .FCVT_S_LU, .FSGNJ_S, .FSGNJN_S, .FSGNJX_S, .FMIN_S, .FMAX_S, .FEQ_S, .FLT_S, .FLE_S,
     .FCLASS_S, .FMV_X_W, .FMV_W_X]
  | .double =>
    [.kAdd, .FMADD_D, .FMSUB_D, .FNMADD_D, .FNMSUB_D, .FADD_D, .FSUB_D, .FMUL_D, .FDIV_D, .FSQRT_D,
     .FCVT_W_D, .FCVT_WU_D, .FCVT_L_D, .FCVT_LU_D, .FCVT_D_W, .FCVT_D_WU, .FCVT_D_L, .FCVT_S_LU,
     .FSGNJ_D, .FSGNJN_D, .FSGNJX_D, .FMIN_D, .FMAX_D, .FEQ_D, .FLT_D, .FLE_D, .FCLASS_D,
     .FCVT_D_S, .FCVT_S_D, .FMV_D_X, .FMV_X_D]

/-- What a mnemonic stands for: its unit, its operation, and whether it has a destination. -/
structure FloatOp where
  path : FloatPath
  op : AluOp
  writes : Bool := true
  deriving DecidableEq, Repr

/-- The operations by their names. -/
def floatOps : Format → List (String × FloatOp)
  | .FDR =>
    [("fsgnj.s", ⟨.single, .FSGNJ_S, true⟩), ("fsgnjn.s", ⟨.single, .FSGNJN_S, true⟩),
     ("fsgnjx.s", ⟨.single, .FSGNJX_S, true⟩), ("fmin.s", ⟨.single, .FMIN_S, true⟩),
     ("fmax.s", ⟨.single, .FMAX_S, true⟩), ("feq.s", ⟨.single, .FEQ_S, true⟩),
     ("flt.s", ⟨.single, .FLT_S, true⟩), ("fle.s", ⟨.single, .FLE_S, true⟩),
     ("feq.d", ⟨.double, .FEQ_D, true⟩), ("flt.d", ⟨.double, .FLT_D, true⟩),
     ("fle.d", ⟨.double, .FLE_D, true⟩), ("fsgnj.d", ⟨.double, .FSGNJ_D, true⟩),
     ("fsgnjn.d", ⟨.double, .FSGNJN_D, true⟩), ("fsgnjx.d", ⟨.double, .FSGNJX_D, true⟩),
     ("fmin.d", ⟨.double, .FMIN_D, true⟩), ("fmax.d", ⟨.double, .FMAX_D, true⟩)]
  | .FDR1 =>
    [("fadd.s", ⟨.single, .FADD_S, true⟩), ("fsub.s", ⟨.single, .FSUB_S, true⟩),
     ("fmul.s", ⟨.single, .FMUL_S, true⟩), ("fdiv.s", ⟨.single, .FDIV_S, true⟩),
     ("fadd.d", ⟨.double, .FADD_D, true⟩), ("fsub.d", ⟨.double, .FSUB_D, true⟩),
     ("fmul.d", ⟨.double, .FMUL_D, true⟩), ("fdiv.d", ⟨.double, .FDIV_D, true⟩)]
  | .FDR2 =>
    [("fsqrt.s", ⟨.single, .FSQRT_S, true⟩), ("fcvt.w.s", ⟨.single, .FCVT_W_S, true⟩),
     ("fcvt.wu.s", ⟨.single, .FCVT_WU_S, true⟩), ("fcvt.l.s", ⟨.single, .FCVT_L_S, true⟩),
     ("fcvt.lu.s", ⟨.single, .FCVT_LU_S, true⟩), ("fcvt.s.w", ⟨.single, .FCVT_S_W, true⟩),
     ("fcvt.s.wu", ⟨.single, .FCVT_S_WU, true⟩), ("fcvt.s.l", ⟨.single, .FCVT_S_L, true⟩),
     ("fcvt.s.lu", ⟨.single, .FCVT_S_LU, true⟩), ("fsqrt.d", ⟨.double, .FSQRT_D, true⟩),
     ("fcvt.w.d", ⟨.double, .FCVT_W_D, true⟩), ("fcvt.wu.d", ⟨.double, .FCVT_WU_D, true⟩),
     ("fcvt.l.d", ⟨.double, .FCVT_L_D, true⟩), ("fcvt.lu.d", ⟨.double, .FCVT_LU_D, true⟩),
     ("fcvt.d.w", ⟨.double, .FCVT_D_W, true⟩), ("fcvt.d.wu", ⟨.double, .FCVT_D_WU, true⟩),
     ("fcvt.d.l", ⟨.double, .FCVT_D_L, true⟩), ("fcvt.d.lu", ⟨.double, .FCVT_D_LU, true⟩),
     ("fcvt.s.d", ⟨.double, .FCVT_S_D, true⟩), ("fcvt.d.s", ⟨.double, .FCVT_D_S, true⟩)]
  | .FDR3 =>
    [("fmv.w.x", ⟨.single, .FMV_W_X, true⟩), ("fmv.x.w", ⟨.single, .FMV_X_W, true⟩),
     ("fclass.s", ⟨.single, .FCLASS_S, true⟩), ("fmv.d.x", ⟨.double, .FMV_D_X, true⟩),
     ("fmv.x.d", ⟨.double, .FMV_X_D, true⟩), ("fclass.d", ⟨.double, .FCLASS_D, true⟩)]
  | .FDR4 =>
    [("fmadd.s", ⟨.single, .kFmadd_s, true⟩), ("fmsub.s", ⟨.single, .kFmsub_s, true⟩),
     ("fnmsub.s", ⟨.single, .kFnmsub_s, true⟩), ("fnmadd.s", ⟨.single, .kFnmadd_s, true⟩),
     ("fmadd.d", ⟨.double, .FMADD_D, true⟩), ("fmsub.d", ⟨.double, .FMSUB_D, true⟩),
     ("fnmsub.d", ⟨.double, .FNMSUB_D, true⟩), ("fnmadd.d", ⟨.double, .FNMADD_D, true⟩)]
  | .FDI =>
    [("flw", ⟨.single, .kAdd, true⟩), ("fld", ⟨.double, .kAdd, true⟩)]
  | .FDS =>
    [("fsw", ⟨.single, .kAdd, false⟩), ("fsd", ⟨.double, .kAdd, false⟩)]
  | _ => []

/-- The two classifiers send the word to one of the units. -/
def Routes (path : FloatPath) (w : Instr) : Prop :=
  match path with
  | .single => isFInstruction w = true ∧ isDInstruction w = false
  | .double => isFInstruction w = false ∧ isDInstruction w = true

instance (path : FloatPath) (w : Instr) : Decidable (Routes path w) := by
  cases path <;> exact inferInstanceAs (Decidable (_ = _ ∧ _ = _))

/-- The machine takes the word for the operation. -/
structure Recognised (f : FloatOp) (w : Instr) : Prop where
  routed : Routes f.path w
  written : f.writes = true → (ControlUnit.setControlSignals w).regWrite = true
  signal : ControlUnit.getAluSignal w = f.op
  handled : f.op ∈ f.path.cases

/-- The mnemonics that the machine does not know. -/
def unrecognised : List String :=
  ["fmadd.s", "fmsub.s", "fnmsub.s", "fnmadd.s", "fmadd.d", "fmsub.d", "fnmsub.d", "fnmadd.d",
   "fcvt.s.d", "fcvt.d.s", "fcvt.d.lu"]

/-- The formats of the floating-point extensions. -/
def floatFormats : List Format := [.FDR, .FDR1, .FDR2, .FDR3, .FDR4, .FDI, .FDS]

theorem float_table : ∀ f ∈ floatFormats, ∀ p ∈ f.encodings, formatOf p.1 = some f := by
  decide +kernel

section

variable {f : FloatOp} {w : Instr}

/-- What is recognised of an instruction of opcode `1010011`. -/
theorem recognised_arithmetic (hop : w.opcode = 0b1010011#7) : Recognised f w ↔
    (f.path = .single ↔ w.funct7 &&& 1 = 0 ∧ w.funct7 ≠ 0b0100000#7) ∧
      ControlUnit.aluSignalFD w.funct3 w.funct5 w.funct7 = f.op ∧ f.op ∈ f.path.cases := by
  have hsignal : ControlUnit.getAluSignal w =
      ControlUnit.aluSignalFD w.funct3 w.funct5 w.funct7 := by
    simp only [ControlUnit.getAluSignal, hop]
  have hwrite : (ControlUnit.setControlSignals w).regWrite = true := by
    simp only [ControlUnit.setControlSignals, hop]
  have hroutes : Routes f.path w ↔
      (f.path = .single ↔ w.funct7 &&& 1 = 0 ∧ w.funct7 ≠ 0b0100000#7) := by
    cases hpath : f.path with
    | single => simp [Routes, isFInstruction, isDInstruction, hop]
    | double => simp [Routes, isFInstruction, isDInstruction, hop, or_iff_not_imp_left]
  constructor
  · rintro ⟨hrouted, -, hget, hcase⟩
    exact ⟨hroutes.mp hrouted, hsignal.symm.trans hget, hcase⟩
  · rintro ⟨hrouted, hget, hcase⟩
    exact ⟨hroutes.mpr hrouted, fun _ => hwrite, hsignal.trans hget, hcase⟩

/-- The fused operations have opcodes that no classifier knows. -/
theorem not_recognised_fused (hop : w.opcode ∈ [0b1000011#7, 0b1000111#7, 0b1001011#7, 0b1001111#7]) :
    ¬ Recognised f w := by
  intro h
  have hrouted := h.routed
  simp only [List.mem_cons, List.not_mem_nil, or_false] at hop
  cases hpath : f.path <;>
    rcases hop with hop | hop | hop | hop <;>
    simp [hpath, Routes, isFInstruction, isDInstruction, hop] at hrouted

end

/-- The operation of a format is chosen by `funct7` and the fixed fields. -/
theorem signal_table :
    (∀ p ∈ fdRTypeInstructionEncodingMap, ∀ rs2 : BitVec 5,
      ControlUnit.aluSignalFD p.2.funct3 rs2 p.2.funct7 =
        ControlUnit.aluSignalFD p.2.funct3 p.2.funct5 p.2.funct7) ∧
    (∀ p ∈ fdR1TypeInstructionEncodingMap, ∀ (rm : BitVec 3) (rs2 : BitVec 5),
      ControlUnit.aluSignalFD rm rs2 p.2.funct7 =
        ControlUnit.aluSignalFD p.2.funct3 p.2.funct5 p.2.funct7) ∧
    (∀ p ∈ fdR2TypeInstructionEncodingMap, ∀ rm : BitVec 3,
      ControlUnit.aluSignalFD rm p.2.funct5 p.2.funct7 =
        ControlUnit.aluSignalFD p.2.funct3 p.2.funct5 p.2.funct7) := by
  refine ⟨fun p hp => ?_, fun p hp => ?_, fun p hp => ?_⟩
  · simp only [fdRTypeInstructionEncodingMap, List.mem_cons, List.not_mem_nil, or_false] at hp
    rcases hp with rfl | rfl | rfl | rfl | rfl | rfl | rfl | rfl | rfl | rfl | rfl | rfl | rfl | rfl |
      rfl | rfl <;> exact fun _ => rfl
  · simp only [fdR1TypeInstructionEncodingMap, List.mem_cons, List.not_mem_nil, or_false] at hp
    rcases hp with rfl | rfl | rfl | rfl | rfl | rfl | rfl | rfl <;> exact fun _ _ => rfl
  · simp only [fdR2TypeInstructionEncodingMap, List.mem_cons, List.not_mem_nil, or_false] at hp
    rcases hp with rfl | rfl | rfl | rfl | rfl | rfl | rfl | rfl | rfl | rfl | rfl | rfl | rfl | rfl |
      rfl | rfl | rfl | rfl | rfl | rfl <;> exact fun _ => rfl

theorem arithmetic_table : ∀ f ∈ [Format.FDR, .FDR1, .FDR2, .FDR3], ∀ p ∈ f.encodings,
    p.2.opcode = 0b1010011#7 ∧ ((floatOps f).lookup p.1).isSome ∧
      ∀ op ∈ (floatOps f).lookup p.1,
        ((op.path = .single ↔ p.2.funct7 &&& 1 = 0 ∧ p.2.funct7 ≠ 0b0100000#7) ∧
          ControlUnit.aluSignalFD p.2.funct3 p.2.funct5 p.2.funct7 = op.op ∧
          op.op ∈ op.path.cases) ↔ p.1 ∉ unrecognised := by
  decide +kernel

theorem fused_table : ∀ p ∈ fdR4TypeInstructionEncodingMap,
    p.2.opcode ∈ [0b1000011#7, 0b1000111#7, 0b1001011#7, 0b1001111#7] ∧
      ((floatOps .FDR4).lookup p.1).isSome ∧ p.1 ∈ unrecognised := by
  decide +kernel

theorem access_table : ∀ f ∈ [Format.FDI, .FDS], ∀ p ∈ f.encodings,
    ((floatOps f).lookup p.1).isSome ∧ p.1 ∉ unrecognised ∧
      ∀ op ∈ (floatOps f).lookup p.1, op.op = .kAdd ∧
        p.2.opcode = (if op.writes = true then 0b0000111#7 else 0b0100111#7) ∧
        p.2.funct3 = (if op.path = .single then 0b010#3 else 0b011#3) := by
  decide +kernel

/-- The words of an arithmetic instruction, for all its operands. -/
theorem recognised_rType {f : Format} {p : String × Encoding} {op : FloatOp}
    (hf : f ∈ [Format.FDR, .FDR1, .FDR2, .FDR3]) (hp : p ∈ f.encodings)
    (hop : op ∈ (floatOps f).lookup p.1) {funct3 : BitVec 3} {rs2 rs1 rd : RegIndex}
    (hsignal : ControlUnit.aluSignalFD funct3 rs2 p.2.funct7 =
      ControlUnit.aluSignalFD p.2.funct3 p.2.funct5 p.2.funct7) :
    Recognised op (Instr.rType p.2.funct7 rs2 rs1 funct3 rd p.2.opcode) ↔ p.1 ∉ unrecognised := by
  obtain ⟨hopcode, -, hall⟩ := arithmetic_table f hf p hp
  rw [recognised_arithmetic ((Instr.rType_opcode _ _ _ _ _ _).trans hopcode), Instr.rType_funct7,
    Instr.rType_funct3, Instr.rType_funct5, hsignal]
  exact hall op hop

/-- A load or a store is recognised by its opcode and `funct3`. -/
theorem recognised_access {op : FloatOp} {w : Instr}
    (hopcode : w.opcode = if op.writes = true then 0b0000111#7 else 0b0100111#7)
    (hfunct3 : w.funct3 = if op.path = .single then 0b010#3 else 0b011#3) (hop : op.op = .kAdd) :
    Recognised op w := by
  obtain ⟨path, aluOp, writes⟩ := op
  obtain rfl : aluOp = .kAdd := hop
  cases path <;> cases writes <;>
    simp only [if_true, if_false, reduceCtorEq, Bool.false_eq_true] at hopcode hfunct3 <;>
    exact ⟨by simp [Routes, isFInstruction, isDInstruction, hopcode, hfunct3],
      by simp [ControlUnit.setControlSignals, hopcode],
      by simp [ControlUnit.getAluSignal, hopcode, hfunct3], by simp [FloatPath.cases]⟩

theorem recognised_word {f : Format} (hf : f ∈ floatFormats) {p : String × Encoding}
    (hp : p ∈ f.encodings) (o : Operands) :
    ∃ op, (floatOps f).lookup p.1 = some op ∧
      (Recognised op (f.word p.2 o) ↔ p.1 ∉ unrecognised) := by
  have harithmetic (hf : f ∈ [Format.FDR, .FDR1, .FDR2, .FDR3]) :
      ∃ op, (floatOps f).lookup p.1 = some op :=
    Option.isSome_iff_exists.mp (arithmetic_table f hf p hp).2.1
  have haccess (hf : f ∈ [Format.FDI, .FDS]) :
      ∃ op, (floatOps f).lookup p.1 = some op :=
    Option.isSome_iff_exists.mp (access_table f hf p hp).1
  cases f <;> simp only [floatFormats, List.mem_cons, List.not_mem_nil, reduceCtorEq, or_self,
    or_false, false_or] at hf
  case FDR =>
    obtain ⟨op, hop⟩ := harithmetic (by simp)
    exact ⟨op, hop, recognised_rType (by simp) hp hop (signal_table.1 p hp o.rs2)⟩
  case FDR1 =>
    obtain ⟨op, hop⟩ := harithmetic (by simp)
    exact ⟨op, hop, recognised_rType (by simp) hp hop (signal_table.2.1 p hp o.rm o.rs2)⟩
  case FDR2 =>
    obtain ⟨op, hop⟩ := harithmetic (by simp)
    exact ⟨op, hop, recognised_rType (by simp) hp hop (signal_table.2.2 p hp o.rm)⟩
  case FDR3 =>
    obtain ⟨op, hop⟩ := harithmetic (by simp)
    exact ⟨op, hop, recognised_rType (by simp) hp hop rfl⟩
  case FDR4 =>
    obtain ⟨hopcode, hop, hmem⟩ := fused_table p hp
    obtain ⟨op, hop⟩ := Option.isSome_iff_exists.mp hop
    refine ⟨op, hop, iff_of_false ?_ (not_not_intro hmem)⟩
    refine not_recognised_fused ?_
    rw [Format.word, Instr.r4Type, Instr.rType_opcode]
    exact hopcode
  case FDI =>
    obtain ⟨op, hop⟩ := haccess (by simp)
    obtain ⟨-, hknown, hall⟩ := access_table .FDI (by simp) p hp
    obtain ⟨hadd, hopcode, hfunct3⟩ := hall op hop
    exact ⟨op, hop, iff_of_true (recognised_access ((Instr.iType_opcode _ _ _ _ _).trans hopcode)
      ((Instr.iType_funct3 _ _ _ _ _).trans hfunct3) hadd) hknown⟩
  case FDS =>
    obtain ⟨op, hop⟩ := haccess (by simp)
    obtain ⟨-, hknown, hall⟩ := access_table .FDS (by simp) p hp
    obtain ⟨hadd, hopcode, hfunct3⟩ := hall op hop
    exact ⟨op, hop, iff_of_true (recognised_access ((Instr.sType_opcode _ _ _ _ _).trans hopcode)
      ((Instr.sType_funct3 _ _ _ _ _).trans hfunct3) hadd) hknown⟩

/-- In an accepted program the word of a floating-point unit is recognised as its mnemonic's
operation, unless the mnemonic is one of eleven. -/
theorem float_recognised_iff {cfg : ParserConfig} {tokens : List Token} {q : Parser} {u : ICUnit}
    {b : Bool} {f : Format} (hlexed : LexedTokens tokens) (haccepts : Parser.Accepts cfg tokens q)
    (hu : (u, b) ∈ q.intermediateCode) (hf : f ∈ floatFormats)
    (hm : u.opcode ∈ f.encodings.map Prod.fst) :
    ∃ op w, (floatOps f).lookup u.opcode = some op ∧ machineCode u = .ok w ∧
      (Recognised op w ↔ u.opcode ∉ unrecognised) := by
  obtain ⟨p, hp, hname⟩ := List.mem_map.mp hm
  have hformat : formatOf u.opcode = some f := hname ▸ float_table f hf p hp
  obtain ⟨e, l, o, he, -, -, -, hword⟩ := (haccepts.good hlexed hu).word hformat
  have hentry : (u.opcode, e) ∈ f.encodings := by
    unfold mapAt at he
    split at he
    · rename_i hlookup
      obtain rfl := Except.ok.inj he
      exact Parser.mem_of_lookup hlookup
    · cases he
  obtain ⟨op, hop, hiff⟩ := recognised_word hf hentry o
  exact ⟨op, _, hop, hword, hiff⟩

/-- The line `op f1, x2`. -/
def conversionLine (op : String) : List Token :=
  [⟨.OPCODE, op, 1, 1⟩, ⟨.FP_REGISTER, "f1", 1, 11⟩, ⟨.COMMA, ",", 1, 13⟩,
   ⟨.GP_REGISTER, "x2", 1, 15⟩]

theorem conversionLine_lexed {op : String} (hop : isValidInstruction op = true) :
    LexedTokens (conversionLine op) := by
  intro t ht
  simp only [conversionLine, List.mem_cons, List.not_mem_nil, or_false] at ht
  rcases ht with rfl | rfl | rfl | rfl
  · exact hop
  · exact (by decide : isValidFloatingPointRegister "f1" = true)
  · trivial
  · exact (by decide : isValidGeneralPurposeRegister "x2" = true)

/-- The unit of `op f1, x2`. -/
def conversionUnit (op : String) : ICUnit :=
  { lineNumber := 1, opcode := op, rd := "f1", rs1 := "x2", rm := 7 }

theorem conversionLine_parse (op : String) (hop : op = "fcvt.d.l" ∨ op = "fcvt.d.lu") :
    (match Parser.parse .default 2 (conversionLine op) with
      | .ok (.done q) => q.errors.count == 0 && q.intermediateCode == [(conversionUnit op, true)]
      | _ => false) = true := by
  rcases hop with rfl | rfl <;> decide +kernel

theorem conversionLine_accepts {op : String} (hop : op = "fcvt.d.l" ∨ op = "fcvt.d.lu") :
    ∃ q, Parser.Accepts .default (conversionLine op) q ∧
      (conversionUnit op, true) ∈ q.intermediateCode := by
  have h := conversionLine_parse op hop
  split at h
  · rename_i q hparse
    simp only [Bool.and_eq_true, beq_iff_eq] at h
    exact ⟨q, ⟨⟨2, hparse⟩, h.1⟩, by rw [h.2]; exact List.mem_singleton_self _⟩
  · cases h

theorem float_recognised_iff_fcvt_d_l : ∃ q, Parser.Accepts .default (conversionLine "fcvt.d.l") q ∧
    (conversionUnit "fcvt.d.l", true) ∈ q.intermediateCode ∧
    ∃ op w, (floatOps .FDR2).lookup "fcvt.d.l" = some op ∧
      machineCode (conversionUnit "fcvt.d.l") = .ok w ∧
      (Recognised op w ↔ "fcvt.d.l" ∉ unrecognised) := by
  obtain ⟨q, hq, hu⟩ := conversionLine_accepts (.inl rfl)
  exact ⟨q, hq, hu, float_recognised_iff (conversionLine_lexed (by decide)) hq hu (by decide)
    (by decide)⟩

/-- `fcvt.d.lu` is given an operation that the double unit has no case for. -/
theorem not_recognised_fcvt_d_lu :
    ¬ ∀ (cfg : ParserConfig) (tokens : List Token) (q : Parser) (u : ICUnit) (b : Bool) (f : Format),
      LexedTokens tokens → Parser.Accepts cfg tokens q → (u, b) ∈ q.intermediateCode →
      f ∈ floatFormats → u.opcode ∈ f.encodings.map Prod.fst →
      ∃ op w, (floatOps f).lookup u.opcode = some op ∧ machineCode u = .ok w ∧ Recognised op w := by
  intro hclaim
  obtain ⟨q, hq, hu⟩ := conversionLine_accepts (.inr rfl)
  obtain ⟨op, w, hop, -, hrecognised⟩ := hclaim _ _ q _ _ .FDR2
    (conversionLine_lexed (by decide)) hq hu (by decide) (by decide)
  obtain rfl : FloatOp.mk .double .FCVT_D_LU true = op := by
    have hlookup : (floatOps .FDR2).lookup "fcvt.d.lu" = some ⟨.double, .FCVT_D_LU, true⟩ := by
      decide
    exact Option.some.inj (hlookup.symm.trans hop)
  exact absurd hrecognised.handled (by decide)

end RiscvSim
