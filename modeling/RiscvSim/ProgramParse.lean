import RiscvSim.ProgramText

/-! The parser at a line of a program: it makes the unit of the operation, or it records an error. -/

namespace RiscvSim

open InstructionSet

open Terminal (three two based)

/-- The current tokens of the parser spell the terminals; behind them another line begins. -/
structure Parser.At (p : Parser) (number : Nat) (xs : List Terminal) (ts r : List Token) : Prop where
  rest : p.rest = ts ++ r
  spelled : List.Forall₂ (fun (x : Terminal) (t : Token) => x.Spelled t.type t.value) xs ts
  line : ∀ t ∈ ts, t.lineNumber = number
  later : ∀ t, r.head? = some t → t.type = .EOF_ ∨ t.lineNumber ≠ number

namespace Parser

variable {cfg : ParserConfig} {p q : Parser} {number i : Nat} {x : Terminal} {xs ys : List Terminal}
  {ts r : List Token} {a b c : RegIndex} {m name : String} {n : Int}

theorem peekToken_eq (p : Parser) (i : Nat) : p.peekToken i = p.rest[i]?.getD eofToken := by
  rw [peekToken, List.headD_eq_head?_getD, List.head?_drop]

namespace At

theorem peek (h : p.At number xs ts r) (hi : xs[i]? = some x) :
    x.Spelled (p.peekToken i).type (p.peekToken i).value ∧ (p.peekToken i).lineNumber = number := by
  obtain ⟨hlt, -⟩ := List.getElem?_eq_some_iff.mp hi
  have hlt' : i < ts.length := h.spelled.length_eq ▸ hlt
  have hpeek : p.peekToken i = ts[i] := by
    rw [peekToken_eq, h.rest, List.getElem?_append_left hlt', List.getElem?_eq_getElem hlt']
    rfl
  have hspelled := (List.forall₂_iff_get.mp h.spelled).2 i hlt hlt'
  rw [hpeek]
  refine ⟨?_, h.line _ (List.getElem_mem hlt')⟩
  rw [List.getElem?_eq_getElem hlt] at hi
  obtain rfl := Option.some.inj hi
  exact hspelled

theorem peek_later (h : p.At number xs ts r) :
    (p.peekToken xs.length).type = .EOF_ ∨ (p.peekToken xs.length).lineNumber ≠ number := by
  rw [peekToken_eq, h.rest, h.spelled.length_eq, List.getElem?_append_right (Nat.le_refl _),
    Nat.sub_self]
  cases r with
  | nil => exact .inl rfl
  | cons t r => exact h.later t rfl

theorem type (h : p.At number xs ts r) (hi : xs[i]? = some x) : (p.peekToken i).type = x.type :=
  (h.peek hi).1.type

theorem current (h : p.At number (x :: xs) ts r) :
    x.Spelled p.currentToken.type p.currentToken.value ∧ p.currentToken.lineNumber = number := by
  have hcurrent : p.currentToken = p.peekToken 0 := rfl
  rw [hcurrent]
  exact h.peek rfl

/-- The rest of the line has the types of its terminals. -/
theorem lineIs (h : p.At number (x :: xs) ts r) : p.lineIs (xs.map Terminal.type) = true := by
  have hlater := h.peek_later
  rw [List.length_cons] at hlater
  simp only [Parser.lineIs, h.current.2, List.length_map, Bool.and_eq_true, List.all_eq_true,
    Bool.or_eq_true, beq_iff_eq, bne_iff_ne]
  refine ⟨?_, hlater⟩
  rintro ⟨type, i⟩ hmem
  rw [List.mk_mem_zipIdx_iff_getElem?, List.getElem?_map, Option.map_eq_some_iff] at hmem
  obtain ⟨y, hy, rfl⟩ := hmem
  have hi : (x :: xs)[i + 1]? = some y := by simpa using hy
  exact ⟨(h.peek hi).2, h.type hi⟩

/-- A line does not have other types than its own. -/
theorem lineIs_ne (h : p.At number (x :: xs) ts r) (types : List TokenType) {type : TokenType}
    (hi : types[i]? = some type) {y : Terminal} (hy : xs[i]? = some y) (hne : y.type ≠ type) :
    p.lineIs types = false := by
  by_contra hline
  have htype := lineIs_type (Bool.eq_true_of_not_eq_false hline) hi
  exact hne ((h.type (by simpa using hy)).symm.trans htype)

theorem ne_eof (h : p.At number xs ts r) : ∀ t ∈ ts, t.type ≠ .EOF_ := by
  intro t ht
  obtain ⟨i, hi, rfl⟩ := List.getElem_of_mem ht
  have hi' : i < xs.length := h.spelled.length_eq ▸ hi
  have hspelled := (List.forall₂_iff_get.mp h.spelled).2 i hi' hi
  have htype : ts[i].type = xs[i].type := hspelled.type
  rw [htype]
  cases xs[i] <;> simp [Terminal.type]

theorem skip (h : p.At number (x :: xs) ts r) : p.skipCurrentLine.rest = r := by
  have heof := h.ne_eof
  simp only [skipCurrentLine, h.current.2, h.rest]
  rw [List.dropWhile_append_of_pos fun t ht => by simp [h.line t ht, heof t ht]]
  cases hr : r with
  | nil => rfl
  | cons t r' =>
    rw [List.dropWhile_cons_of_neg]
    rcases h.later t (by rw [hr]; rfl) with hlater | hlater <;> simp [hlater]

theorem register (h : p.At number xs ts r) (hi : xs[i]? = some (.register a)) :
    p.register i = .ok (gprName a) :=
  (h.peek hi).1.shows

theorem stoll (h : p.At number xs ts r) (hi : xs[i]? = some (.number n))
    (hlow : -2147483648 ≤ n) (hhigh : n ≤ 2147483647) : RiscvSim.stoll (p.peekToken i).value = .ok n := by
  have hshows : (p.peekToken i).value = toString n := (h.peek hi).1.shows
  rw [hshows, RiscvSim.stoll, stoRange, Decimal.value_toString]
  exact if_pos ⟨by omega, by omega⟩

theorem mnemonic (h : p.At number (.mnemonic m :: xs) ts r) : p.currentToken.value = m :=
  h.current.1.shows

theorem finish (h : p.At number (x :: xs) ts r) (u : ICUnit) : p.finish u = p.after r [(u, true)] [] := by
  rw [← h.skip, Parser.finish, after, List.append_nil]
  rfl

/-- An error ends a line. -/
theorem fail (h : p.At number (x :: xs) ts r) (t : Token) (message : String) (kind : ErrorKind)
    (mainMessage subMessage : String) :
    ∃ errors, (p.fail t message kind mainMessage subMessage).skipCurrentLine =
      { p with rest := r, errors } ∧ p.errors.count < errors.count :=
  ⟨_, by rw [← h.skip]; rfl, fail_count t message kind mainMessage subMessage⟩

end At

variable {s s' : SyntaxType}

theorem parseStatement_first
    (hext : isValidMExtensionInstruction p.currentToken.value = false ∨ cfg.mExtensionEnabled = true)
    (hform : (syntaxes p.currentToken.value).head? = some s)
    (h : parseSyntax cfg p s = .ok (some q)) : parseStatement cfg p = .ok q := by
  obtain ⟨rest, hform⟩ := List.head?_eq_some_iff.mp hform
  have hext : ¬ (isValidMExtensionInstruction p.currentToken.value = true ∧
      cfg.mExtensionEnabled = false) := by
    rcases hext with hext | hext <;> simp [hext]
  rw [parseStatement, if_neg hext, hform, parseSyntaxes, h]
  rfl

theorem parseStatement_second
    (hext : isValidMExtensionInstruction p.currentToken.value = false ∨ cfg.mExtensionEnabled = true)
    (hform : syntaxes p.currentToken.value = [s, s']) (hnone : parseSyntax cfg p s = .ok none)
    (h : parseSyntax cfg p s' = .ok (some q)) : parseStatement cfg p = .ok q := by
  have hext : ¬ (isValidMExtensionInstruction p.currentToken.value = true ∧
      cfg.mExtensionEnabled = false) := by
    rcases hext with hext | hext <;> simp [hext]
  rw [parseStatement, if_neg hext, hform, parseSyntaxes, hnone, Loop.bind_ok, parseSyntaxes, h]
  rfl

end Parser

theorem RegisterOp.syntaxes_head (op : RegisterOp) :
    (syntaxes op.mnemonic).head? = some .O_GPR_C_GPR_C_GPR := by
  cases op <;> decide

theorem QuotientOp.syntaxes_head (op : QuotientOp) :
    (syntaxes op.mnemonic).head? = some .O_GPR_C_GPR_C_GPR := by
  cases op <;> decide

theorem ImmediateOp.syntaxes_head (op : ImmediateOp) :
    (syntaxes op.mnemonic).head? = some .O_GPR_C_GPR_C_I ∧
    isValidITypeInstruction op.mnemonic = true ∧ isValidI2TypeInstruction op.mnemonic = false := by
  cases op <;> decide

theorem ShiftOp.syntaxes_head (op : ShiftOp) :
    (syntaxes op.mnemonic).head? = some .O_GPR_C_GPR_C_I ∧
    isValidITypeInstruction op.mnemonic = true ∧ isValidI2TypeInstruction op.mnemonic = true := by
  cases op <;> decide

theorem UpperOp.syntaxes_head (op : UpperOp) :
    (syntaxes op.mnemonic).head? = some .O_GPR_C_I ∧
    isValidUTypeInstruction op.mnemonic = true := by
  cases op <;> decide

theorem LoadOp.syntaxes_head (op : LoadOp) :
    (syntaxes op.mnemonic).head? = some .O_GPR_C_I_LP_GPR_RP ∧
    isValidITypeInstruction op.mnemonic = true := by
  cases op <;> decide

theorem StoreOp.syntaxes_head (op : StoreOp) :
    (syntaxes op.mnemonic).head? = some .O_GPR_C_I_LP_GPR_RP ∧
    isValidITypeInstruction op.mnemonic = false ∧ isValidSTypeInstruction op.mnemonic = true := by
  cases op <;> decide

theorem BranchOp.isValid (op : BranchOp) : isValidBTypeInstruction op.mnemonic = true := by
  cases op <;> decide

theorem jalr_syntaxes_head : (syntaxes "jalr").head? = some .O_GPR_C_I_LP_GPR_RP ∧
    isValidITypeInstruction "jalr" = true := by
  decide

theorem ICUnit.Spells.congr {u : ICUnit} {i j : Instruction} (h : u.Spells i) (heq : i = j) :
    u.Spells j :=
  heq ▸ h

/-- The operands of a unit are those of an operation, but for the offset of a label. -/
inductive Operation.Draft : Operation → ICUnit → Prop
  | instruction {i : Instruction} {u : ICUnit} (h : u.Spells i) : Draft (.instruction i) u
  | branch {op : BranchOp} {rs1 rs2 : RegIndex} {label : String} {u : ICUnit}
      (hop : u.opcode = op.mnemonic) (hrs1 : u.rs1 = gprName rs1) (hrs2 : u.rs2 = gprName rs2)
      (hlabel : u.label = label) : Draft (.branch op rs1 rs2 label) u
  | jal {rd : RegIndex} {label : String} {u : ICUnit} (hop : u.opcode = "jal")
      (hrd : u.rd = gprName rd) (hlabel : u.label = label) : Draft (.jal rd label) u

namespace Parser

variable {cfg : ParserConfig} {p : Parser} {number : Nat} {x : Terminal} {xs : List Terminal}
  {ts r : List Token} {a b c : RegIndex} {m name : String} {n : Int} {i : Instruction}

/-- What comes of an operation. -/
inductive Outcome (mExtension : Bool) (p : Parser) (op : Operation) (r : List Token) : Parser → Prop
  | plain {u : ICUnit} (henabled : op.enabled mExtension = true) (hreference : op.reference = none)
      (hdraft : op.Draft u) : Outcome mExtension p op r (p.after r [(u, true)] [])
  | known {u : ICUnit} {label : String} {address : Word} {line : Nat}
      (henabled : op.enabled mExtension = true) (hreference : op.reference = some label)
      (hsymbol : p.symbolTable label = some ⟨address, line, false⟩)
      (hreach : op.reaches (address - textAddress p.instructionIndex).toInt = true)
      (hdraft : op.Draft u)
      (himm : u.imm = toString (address - textAddress p.instructionIndex).toInt) :
      Outcome mExtension p op r (p.after r [(u, true)] [])
  | deferred {u : ICUnit} {label : String} (henabled : op.enabled mExtension = true)
      (hreference : op.reference = some label)
      (hsymbol : ∀ address line, p.symbolTable label ≠ some ⟨address, line, false⟩)
      (hdraft : op.Draft u) :
      Outcome mExtension p op r (p.after r [(u, false)] [p.instructionIndex])
  | disabled {errors : ErrorTracker} (hdisabled : op.enabled mExtension = false)
      (herrors : p.errors.count < errors.count) :
      Outcome mExtension p op r { p with rest := r, errors }
  | far {errors : ErrorTracker} {label : String} {address : Word} {line : Nat}
      (hreference : op.reference = some label)
      (hsymbol : p.symbolTable label = some ⟨address, line, false⟩)
      (hfar : op.reaches (address - textAddress p.instructionIndex).toInt = false)
      (herrors : p.errors.count < errors.count) :
      Outcome mExtension p op r { p with rest := r, errors }

namespace At

theorem parse_registers (h : p.At number (three m a b (.register c)) ts r) :
    parseSyntax cfg p .O_GPR_C_GPR_C_GPR = .ok (some (p.after r
      [({ p.block with rd := gprName a, rs1 := gprName b, rs2 := gprName c }, true)] [])) := by
  have hline : p.lineIs ([TokenType.GP_REGISTER, .GP_REGISTER, .GP_REGISTER].intersperse .COMMA ++
      if RmField.absent = .given then [.COMMA, .RM] else []) = true := h.lineIs
  have hnames : (List.range 3).mapM (fun i => p.register (2 * i + 1)) =
      .ok [gprName a, gprName b, gprName c] := by
    simp [List.range, List.range.loop, h.register (i := 1) rfl, h.register (i := 3) rfl,
      h.register (i := 5) rfl, pure, Except.pure]
  rw [← h.finish]
  change parseRegisters _ _ p = _
  unfold parseRegisters
  rw [if_pos hline]
  change ((List.range 3).mapM (fun i => p.register (2 * i + 1)) >>= _) = _
  rw [hnames, Loop.bind_ok]
  rfl

theorem parse_immediate (h : p.At number (three m a b (.number n)) ts r)
    (hlow : -2147483648 ≤ n) (hhigh : n ≤ 2147483647) (hI : isValidITypeInstruction m = true) :
    parseSyntax cfg p .O_GPR_C_GPR_C_I = .ok (some (
      if isValidI2TypeInstruction m then
        p.finishImmediate (p.peekToken 5) 0 31 "Expected: 0 <= imm <= 31" n
          { p.block with rd := gprName a, rs1 := gprName b }
      else
        p.finishImmediate (p.peekToken 5) (-2048) 2047 "Expected: -2048 <= imm <= 2047" n
          { p.block with rd := gprName a, rs1 := gprName b })) := by
  have hline : p.lineIs [.GP_REGISTER, .COMMA, .GP_REGISTER, .COMMA, .NUM] = true := h.lineIs
  have hopcode : p.block.opcode = m := h.mnemonic
  change p.parseOGprCGprCI = _
  rw [parseOGprCGprCI, if_pos hline, hopcode, if_pos hI, h.register (i := 1) rfl, Loop.bind_ok,
    h.register (i := 3) rfl, Loop.bind_ok, h.stoll (i := 5) rfl hlow hhigh, Loop.bind_ok]
  split <;> rfl

theorem parse_branch (h : p.At number (three m a b (.number n)) ts r)
    (hlow : -2147483648 ≤ n) (hhigh : n ≤ 2147483647) (hB : isValidBTypeInstruction m = true) :
    parseSyntax cfg p .O_GPR_C_GPR_C_I = .ok (some (
      p.finishAligned (p.peekToken 5) (-4096) 4095 4 "Expected: -4096 <= imm <= 4095" n
        { p.block with rs1 := gprName a, rs2 := gprName b })) := by
  have hline : p.lineIs [.GP_REGISTER, .COMMA, .GP_REGISTER, .COMMA, .NUM] = true := h.lineIs
  have hopcode : p.block.opcode = m := h.mnemonic
  have hI : ¬ isValidITypeInstruction m = true := by simp [branch_not_immediate hB]
  change p.parseOGprCGprCI = _
  rw [parseOGprCGprCI, if_pos hline, hopcode, if_neg hI, if_pos hB, h.register (i := 1) rfl,
    Loop.bind_ok, h.register (i := 3) rfl, Loop.bind_ok, h.stoll (i := 5) rfl hlow hhigh, Loop.bind_ok]
  rfl

theorem parse_branchLabel (h : p.At number (three m a b (.reference name)) ts r)
    (hB : isValidBTypeInstruction m = true) :
    parseSyntax cfg p .O_GPR_C_GPR_C_I = .ok none ∧
      parseSyntax cfg p .O_GPR_C_GPR_C_IL = .ok (some (
        p.finishLabel (p.peekToken 5) (-4096) 4095 "Expected: -4096 <= imm <= 4095"
          { p.block with rs1 := gprName a, rs2 := gprName b })) := by
  have hline : p.lineIs [.GP_REGISTER, .COMMA, .GP_REGISTER, .COMMA, .LABEL_REF] = true := h.lineIs
  have hne : ¬ p.lineIs [.GP_REGISTER, .COMMA, .GP_REGISTER, .COMMA, .NUM] = true := by
    simp [h.lineIs_ne [.GP_REGISTER, .COMMA, .GP_REGISTER, .COMMA, .NUM] (i := 4) rfl rfl
      (by simp [Terminal.type])]
  have hopcode : p.block.opcode = m := h.mnemonic
  constructor
  · change p.parseOGprCGprCI = _
    rw [parseOGprCGprCI, if_neg hne]
    rfl
  · change p.parseOGprCGprCIl = _
    rw [parseOGprCGprCIl, if_pos hline, hopcode, if_pos hB, h.register (i := 1) rfl, Loop.bind_ok,
      h.register (i := 3) rfl, Loop.bind_ok]
    rfl

theorem parse_upper (h : p.At number (two m a (.number n)) ts r) (hlow : -2147483648 ≤ n)
    (hhigh : n ≤ 2147483647) (hU : isValidUTypeInstruction m = true) :
    parseSyntax cfg p .O_GPR_C_I = .ok (some (
      p.finishImmediate (p.peekToken 3) 0 1048575 "Expected: 0 <= imm <= 1048575" n
        { p.block with rd := gprName a })) := by
  have hline : p.lineIs [.GP_REGISTER, .COMMA, .NUM] = true := h.lineIs
  have hopcode : p.block.opcode = m := h.mnemonic
  change p.parseOGprCI = _
  rw [parseOGprCI, if_pos hline, hopcode, if_pos hU, h.register (i := 1) rfl, Loop.bind_ok,
    h.stoll (i := 3) rfl hlow hhigh, Loop.bind_ok]
  rfl

theorem parse_jump (h : p.At number (two m a (.number n)) ts r) (hlow : -2147483648 ≤ n)
    (hhigh : n ≤ 2147483647) (hJ : isValidJTypeInstruction m = true) :
    parseSyntax cfg p .O_GPR_C_I = .ok (some (
      p.finishAligned (p.peekToken 3) (-1048576) 1048575 2
        "Expected: -1048576 <= imm <= 1048575" n { p.block with rd := gprName a })) := by
  have hline : p.lineIs [.GP_REGISTER, .COMMA, .NUM] = true := h.lineIs
  have hopcode : p.block.opcode = m := h.mnemonic
  have hU : ¬ isValidUTypeInstruction m = true := by simp [jump_not_upper hJ]
  change p.parseOGprCI = _
  rw [parseOGprCI, if_pos hline, hopcode, if_neg hU, if_pos hJ, h.register (i := 1) rfl, Loop.bind_ok,
    h.stoll (i := 3) rfl hlow hhigh, Loop.bind_ok]
  rfl

theorem parse_jumpLabel (h : p.At number (two m a (.reference name)) ts r)
    (hJ : isValidJTypeInstruction m = true) :
    parseSyntax cfg p .O_GPR_C_I = .ok none ∧
      parseSyntax cfg p .O_GPR_C_IL = .ok (some (
        p.finishLabel (p.peekToken 3) (-1048576) 1048575 "Expected: -1048576 <= imm <= 1048575"
          { p.block with rd := gprName a })) := by
  have hline : p.lineIs [.GP_REGISTER, .COMMA, .LABEL_REF] = true := h.lineIs
  have hne : ¬ p.lineIs [.GP_REGISTER, .COMMA, .NUM] = true := by
    simp [h.lineIs_ne [.GP_REGISTER, .COMMA, .NUM] (i := 2) rfl rfl
      (by simp [Terminal.type])]
  have hopcode : p.block.opcode = m := h.mnemonic
  constructor
  · change p.parseOGprCI = _
    rw [parseOGprCI, if_neg hne]
    rfl
  · change p.parseOGprCIl = _
    rw [parseOGprCIl, if_pos hline, hopcode, if_pos hJ, h.register (i := 1) rfl, Loop.bind_ok]
    rfl

theorem parseOffset (h : p.At number (based m a n b) ts r) (hlow : -2048 ≤ n) (hhigh : n ≤ 2047)
    (f : ICUnit → String → ICUnit) : p.parseOffset f = .ok (some (p.after r
      [({ f p.block (gprName a) with imm := toString n, rs1 := gprName b }, true)] [])) := by
  rw [← h.finish]
  rw [Parser.parseOffset, h.register (i := 1) rfl, Loop.bind_ok,
    h.stoll (i := 3) rfl (by omega) (by omega), Loop.bind_ok, if_pos ⟨hlow, hhigh⟩,
    h.register (i := 5) rfl, Loop.bind_ok]
  rfl

theorem parse_load (h : p.At number (based m a n b) ts r) (hlow : -2048 ≤ n) (hhigh : n ≤ 2047)
    (hI : isValidITypeInstruction m = true) :
    parseSyntax cfg p .O_GPR_C_I_LP_GPR_RP = .ok (some (p.after r
      [({ p.block with rd := gprName a, imm := toString n, rs1 := gprName b }, true)] [])) := by
  have hline : p.lineIs [.GP_REGISTER, .COMMA, .NUM, .LPAREN, .GP_REGISTER, .RPAREN] = true := h.lineIs
  have hopcode : p.block.opcode = m := h.mnemonic
  change p.parseOGprCILpGprRp = _
  rw [parseOGprCILpGprRp, if_pos hline, hopcode, if_pos hI, h.parseOffset hlow hhigh]
  rfl

theorem parse_store (h : p.At number (based m a n b) ts r) (hlow : -2048 ≤ n) (hhigh : n ≤ 2047)
    (hI : isValidITypeInstruction m = false) (hS : isValidSTypeInstruction m = true) :
    parseSyntax cfg p .O_GPR_C_I_LP_GPR_RP = .ok (some (p.after r
      [({ p.block with rs2 := gprName a, imm := toString n, rs1 := gprName b }, true)] [])) := by
  have hline : p.lineIs [.GP_REGISTER, .COMMA, .NUM, .LPAREN, .GP_REGISTER, .RPAREN] = true := h.lineIs
  have hopcode : p.block.opcode = m := h.mnemonic
  have hI : ¬ isValidITypeInstruction m = true := by simp [hI]
  change p.parseOGprCILpGprRp = _
  rw [parseOGprCILpGprRp, if_pos hline, hopcode, if_neg hI, if_pos hS, h.parseOffset hlow hhigh]
  rfl

/-- An immediate in its range. -/
theorem finishImmediate (h : p.At number (x :: xs) ts r) (t : Token) {low high : Int}
    (expected : String) (u : ICUnit) (hlow : low ≤ n) (hhigh : n ≤ high) :
    p.finishImmediate t low high expected n u = p.after r [({ u with imm := toString n }, true)] [] := by
  rw [Parser.finishImmediate, if_pos ⟨hlow, hhigh⟩, h.finish]

theorem finishAligned (h : p.At number (x :: xs) ts r) (t : Token) {low high unit : Int}
    (expected : String) (u : ICUnit) (hlow : low ≤ n) (hhigh : n ≤ high) (hunit : n.tmod unit = 0) :
    p.finishAligned t low high unit expected n u =
      p.after r [({ u with imm := toString n }, true)] [] := by
  rw [Parser.finishAligned, if_pos ⟨hlow, hhigh⟩, if_pos hunit, h.finish]

/-- A label, in the place of an offset between two bounds. -/
theorem finishLabel {mExtension : Bool} {op : Operation} (h : p.At number (x :: xs) ts r) (t : Token)
    {low high : Int} (expected : String) (u : ICUnit) (henabled : op.enabled mExtension = true)
    (hreference : op.reference = some t.value)
    (hreach : ∀ offset, op.reaches offset = decide (low ≤ offset ∧ offset ≤ high))
    (hdraft : ∀ imm, op.Draft { u with imm, label := t.value }) :
    Outcome mExtension p op r (p.finishLabel t low high expected u) := by
  have hdeferred : (p.emitDeferred { u with label := t.value }).skipCurrentLine =
      p.after r [({ u with label := t.value }, false)] [p.instructionIndex] := by
    rw [← h.skip]
    rfl
  unfold Parser.finishLabel
  cases hsymbol : p.symbolTable t.value with
  | none =>
    dsimp only
    rw [hdeferred]
    exact .deferred henabled hreference (by simp [hsymbol]) (hdraft u.imm)
  | some symbol =>
    obtain ⟨address, line, isData⟩ := symbol
    cases isData with
    | true =>
      dsimp only
      rw [hdeferred]
      exact .deferred henabled hreference (by simp [hsymbol]) (hdraft u.imm)
    | false =>
      dsimp only
      by_cases hrange : low ≤ (address - textAddress p.instructionIndex).toInt ∧
          (address - textAddress p.instructionIndex).toInt ≤ high
      · rw [if_pos hrange, h.finish]
        exact .known henabled hreference hsymbol ((hreach _).trans (decide_eq_true hrange))
          (hdraft _) rfl
      · rw [if_neg hrange]
        obtain ⟨errors, hq, hcount⟩ := h.fail t "Immediate value out of range"
          .ImmediateOutOfRangeError "Immediate value out of range" expected
        rw [outOfRange, hq]
        exact .far hreference hsymbol ((hreach _).trans (decide_eq_false hrange)) hcount

/-- A statement without a label in the place of an offset. -/
theorem instruction (h : p.At number (Operation.instruction i).terminals ts r)
    (hext : isValidMExtensionInstruction i.mnemonic = false ∨ cfg.mExtensionEnabled = true) :
    ∃ q, parseStatement cfg p = .ok q ∧
      Outcome cfg.mExtensionEnabled p (.instruction i) r q := by
  have hbase : (cfg.mExtensionEnabled || !isValidMExtensionInstruction i.mnemonic) = true := by
    rcases hext with hext | hext <;> simp [hext]
  have henabled (hwritable : i.writable = true) :
      (Operation.instruction i).enabled cfg.mExtensionEnabled = true := by
    simp [Operation.enabled, Operation.mnemonic, hbase, hwritable]
  have hdisabled (hwritable : i.writable = false) :
      (Operation.instruction i).enabled cfg.mExtensionEnabled = false := by
    simp [Operation.enabled, hwritable]
  cases i with
  | register op rd rs1 rs2 =>
    have hvalue : p.currentToken.value = op.mnemonic := mnemonic h
    refine ⟨_, parseStatement_first (hvalue ▸ hext) (hvalue ▸ op.syntaxes_head) (parse_registers h), ?_⟩
    exact .plain (henabled rfl) rfl (.instruction (.register op hvalue rfl rfl rfl))
  | divide op rd rs1 rs2 =>
    have hvalue : p.currentToken.value = op.mnemonic := mnemonic h
    refine ⟨_, parseStatement_first (hvalue ▸ hext) (hvalue ▸ op.syntaxes_head) (parse_registers h), ?_⟩
    exact .plain (henabled rfl) rfl (.instruction (.divide op hvalue rfl rfl rfl))
  | immediate op rd rs1 imm =>
    have hvalue : p.currentToken.value = op.mnemonic := mnemonic h
    obtain ⟨hform, hI, hI2⟩ := op.syntaxes_head
    have hlow : -2048 ≤ imm.toInt := BitVec.le_toInt imm
    have hhigh : imm.toInt < 2048 := BitVec.toInt_lt
    have hparse : parseSyntax cfg p .O_GPR_C_GPR_C_I = _ :=
      parse_immediate h (by omega) (by omega) hI
    rw [hI2, if_neg Bool.false_ne_true, finishImmediate h _ _ _ hlow (by omega)] at hparse
    refine ⟨_, parseStatement_first (hvalue ▸ hext) (hvalue ▸ hform) hparse, ?_⟩
    refine .plain (henabled rfl) rfl (.instruction (.congr
      (.immediate op hvalue rfl rfl rfl hlow (by omega)) ?_))
    rw [BitVec.ofInt_toInt]
  | shift op rd rs1 shamt =>
    have hvalue : p.currentToken.value = op.mnemonic := mnemonic h
    obtain ⟨hform, hI, hI2⟩ := op.syntaxes_head
    have hlt := shamt.isLt
    have hparse : parseSyntax cfg p .O_GPR_C_GPR_C_I = _ :=
      parse_immediate h (by omega) (by omega) hI
    rw [hI2, if_pos rfl] at hparse
    by_cases hle : shamt.toNat ≤ 31
    · rw [finishImmediate h _ _ _ (by omega) (by omega)] at hparse
      refine ⟨_, parseStatement_first (hvalue ▸ hext) (hvalue ▸ hform) hparse, ?_⟩
      refine .plain (henabled (decide_eq_true hle)) rfl (.instruction (.congr
        (.shift op hvalue rfl rfl rfl (by omega) (by omega)) ?_))
      rw [BitVec.ofInt_natCast, BitVec.ofNat_toNat, BitVec.setWidth_eq]
    · rw [Parser.finishImmediate, if_neg (by omega)] at hparse
      obtain ⟨errors, hq, hcount⟩ := fail h (p.peekToken 5) "Immediate value out of range"
        .ImmediateOutOfRangeError "Immediate value out of range" "Expected: 0 <= imm <= 31"
      rw [outOfRange, hq] at hparse
      exact ⟨_, parseStatement_first (hvalue ▸ hext) (hvalue ▸ hform) hparse,
        .disabled (hdisabled (decide_eq_false hle)) hcount⟩
  | upper op rd imm =>
    have hvalue : p.currentToken.value = op.mnemonic := mnemonic h
    obtain ⟨hform, hU⟩ := op.syntaxes_head
    have hlt := imm.isLt
    have hparse : parseSyntax cfg p .O_GPR_C_I = _ := parse_upper h (by omega) (by omega) hU
    rw [finishImmediate h _ _ _ (by omega) (by omega)] at hparse
    refine ⟨_, parseStatement_first (hvalue ▸ hext) (hvalue ▸ hform) hparse, ?_⟩
    refine .plain (henabled rfl) rfl (.instruction (.congr
      (.upper op hvalue rfl rfl (by omega) (by omega)) ?_))
    rw [BitVec.ofInt_natCast, BitVec.ofNat_toNat, BitVec.setWidth_eq]
  | load op rd rs1 imm =>
    have hvalue : p.currentToken.value = op.mnemonic := mnemonic h
    obtain ⟨hform, hI⟩ := op.syntaxes_head
    have hlow : -2048 ≤ imm.toInt := BitVec.le_toInt imm
    have hhigh : imm.toInt < 2048 := BitVec.toInt_lt
    refine ⟨_, parseStatement_first (hvalue ▸ hext) (hvalue ▸ hform)
      (parse_load h hlow (by omega) hI), ?_⟩
    refine .plain (henabled rfl) rfl (.instruction (.congr
      (.load op hvalue rfl rfl rfl hlow (by omega)) ?_))
    rw [BitVec.ofInt_toInt]
  | store op rs2 rs1 imm =>
    have hvalue : p.currentToken.value = op.mnemonic := mnemonic h
    obtain ⟨hform, hI, hS⟩ := op.syntaxes_head
    have hlow : -2048 ≤ imm.toInt := BitVec.le_toInt imm
    have hhigh : imm.toInt < 2048 := BitVec.toInt_lt
    refine ⟨_, parseStatement_first (hvalue ▸ hext) (hvalue ▸ hform)
      (parse_store h hlow (by omega) hI hS), ?_⟩
    refine .plain (henabled rfl) rfl (.instruction (.congr
      (.store op hvalue rfl rfl rfl hlow (by omega)) ?_))
    rw [BitVec.ofInt_toInt]
  | branch op rs1 rs2 half =>
    have hvalue : p.currentToken.value = op.mnemonic := mnemonic h
    have hform : (syntaxes op.mnemonic).head? = some .O_GPR_C_GPR_C_I := by
      rw [syntaxes_branch op.isValid]
      rfl
    have hlow : -2048 ≤ half.toInt := BitVec.le_toInt half
    have hhigh : half.toInt < 2048 := BitVec.toInt_lt
    have hparse : parseSyntax cfg p .O_GPR_C_GPR_C_I = _ :=
      parse_branch h (by omega) (by omega) op.isValid
    by_cases haligned : 4 ∣ 2 * half.toInt
    · rw [finishAligned h _ _ _ (by omega) (by omega) (Int.tmod_eq_zero_of_dvd haligned)] at hparse
      refine ⟨_, parseStatement_first (hvalue ▸ hext) (hvalue ▸ hform) hparse, ?_⟩
      refine .plain (henabled (decide_eq_true haligned)) rfl (.instruction (.congr
        (.branch op hvalue rfl rfl rfl (by omega) (by omega)) ?_))
      rw [Int.mul_ediv_cancel_left _ (by decide), BitVec.ofInt_toInt]
    · have hunit : ¬ (2 * half.toInt).tmod 4 = 0 := fun hmod =>
        haligned (Int.dvd_of_tmod_eq_zero hmod)
      rw [Parser.finishAligned, if_pos ⟨by omega, by omega⟩, if_neg hunit] at hparse
      obtain ⟨errors, hq, hcount⟩ := fail h (p.peekToken 5) "Misaligned immediate value"
        .MisalignedImmediateError "Misaligned immediate value" "Expected: imm % 4 == 0"
      rw [misaligned, hq] at hparse
      exact ⟨_, parseStatement_first (hvalue ▸ hext) (hvalue ▸ hform) hparse,
        .disabled (hdisabled (decide_eq_false haligned)) hcount⟩
  | jal rd half =>
    have hvalue : p.currentToken.value = "jal" := mnemonic h
    have hform : (syntaxes "jal").head? = some .O_GPR_C_I := by
      rw [syntaxes_jump (by decide)]
      rfl
    have hlow : -524288 ≤ half.toInt := BitVec.le_toInt half
    have hhigh : half.toInt < 524288 := BitVec.toInt_lt
    have hparse : parseSyntax cfg p .O_GPR_C_I = _ :=
      parse_jump h (by omega) (by omega) (by decide)
    rw [finishAligned h _ _ _ (by omega) (by omega)
      (Int.tmod_eq_zero_of_dvd (Int.dvd_mul_right 2 half.toInt))] at hparse
    refine ⟨_, parseStatement_first (hvalue ▸ hext) (hvalue ▸ hform) hparse, ?_⟩
    refine .plain (henabled rfl) rfl (.instruction (.congr
      (.jal hvalue rfl rfl (by omega) (by omega)) ?_))
    rw [Int.mul_ediv_cancel_left _ (by decide), BitVec.ofInt_toInt]
  | jalr rd rs1 imm =>
    have hvalue : p.currentToken.value = "jalr" := mnemonic h
    have hlow : -2048 ≤ imm.toInt := BitVec.le_toInt imm
    have hhigh : imm.toInt < 2048 := BitVec.toInt_lt
    refine ⟨_, parseStatement_first (hvalue ▸ hext) (hvalue ▸ jalr_syntaxes_head.1)
      (parse_load h hlow (by omega) jalr_syntaxes_head.2), ?_⟩
    refine .plain (henabled rfl) rfl (.instruction (.congr
      (.jalr hvalue rfl rfl rfl hlow (by omega)) ?_))
    rw [BitVec.ofInt_toInt]

theorem terminals_head (op : Operation) : ∃ xs, op.terminals = .mnemonic op.mnemonic :: xs := by
  cases op with
  | instruction i => cases i <;> exact ⟨_, rfl⟩
  | branch op rs1 rs2 label => exact ⟨_, rfl⟩
  | jal rd label => exact ⟨_, rfl⟩

/-- A statement on its line. -/
theorem parse (cfg : ParserConfig) {op : Operation} (h : p.At number op.terminals ts r) :
    ∃ q, parseStatement cfg p = .ok q ∧ Outcome cfg.mExtensionEnabled p op r q := by
  obtain ⟨xs, hterminals⟩ := terminals_head op
  have hvalue : p.currentToken.value = op.mnemonic := mnemonic (hterminals ▸ h)
  by_cases hext : isValidMExtensionInstruction op.mnemonic = true ∧ cfg.mExtensionEnabled = false
  · have hdisabled : op.enabled cfg.mExtensionEnabled = false := by simp [Operation.enabled, hext]
    obtain ⟨errors, hq, hcount⟩ := fail (hterminals ▸ h) p.currentToken
      ("Unexpected opcode, M extension is disabled: " ++ p.currentToken.value) .UnexpectedTokenError
      "Unexpected opcode, M extension is disabled" ""
    refine ⟨_, ?_, .disabled hdisabled hcount⟩
    rw [parseStatement, hvalue, if_pos hext, ← hq, hvalue]
    rfl
  · have hext : isValidMExtensionInstruction op.mnemonic = false ∨ cfg.mExtensionEnabled = true := by
      cases hM : isValidMExtensionInstruction op.mnemonic with
      | false => exact .inl rfl
      | true => exact .inr (by simpa [hM] using hext)
    cases op with
    | instruction i => exact instruction h hext
    | branch op rs1 rs2 label =>
      have henabled : (Operation.branch op rs1 rs2 label).enabled cfg.mExtensionEnabled = true := by
        rcases hext with hext | hext <;> simp [Operation.enabled, hext]
      have hlabel : (p.peekToken 5).value = label := (h.peek (i := 5) rfl).1.shows
      obtain ⟨hnone, hparse⟩ : parseSyntax cfg p .O_GPR_C_GPR_C_I = .ok none ∧ _ :=
        parse_branchLabel h op.isValid
      refine ⟨_, parseStatement_second (hvalue ▸ hext)
        (hvalue ▸ syntaxes_branch op.isValid) hnone hparse, ?_⟩
      exact finishLabel h _ _ _ henabled (congrArg some hlabel.symm) (fun _ => rfl)
        fun imm => .branch hvalue rfl rfl hlabel
    | jal rd label =>
      have henabled : (Operation.jal rd label).enabled cfg.mExtensionEnabled = true := by
        rcases hext with hext | hext <;> simp [Operation.enabled, hext]
      have hlabel : (p.peekToken 3).value = label := (h.peek (i := 3) rfl).1.shows
      have hJ : isValidJTypeInstruction "jal" = true := by decide
      obtain ⟨hnone, hparse⟩ : parseSyntax cfg p .O_GPR_C_I = .ok none ∧ _ := parse_jumpLabel h hJ
      refine ⟨_, parseStatement_second (hvalue ▸ hext)
        (hvalue ▸ syntaxes_jump hJ) hnone hparse, ?_⟩
      exact finishLabel h _ _ _ henabled (congrArg some hlabel.symm) (fun _ => rfl)
        fun imm => .jal hvalue rfl hlabel

end At

end Parser

end RiscvSim
