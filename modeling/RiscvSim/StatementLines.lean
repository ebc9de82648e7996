import RiscvSim.FirstPass

/-! How far a statement reads. In one of its syntaxes it reads its line to the end, and there is
no string literal on that line; so the second pass passes literals only where it skips a section. -/

namespace RiscvSim

namespace Parser

open InstructionSet

variable {cfg : ParserConfig} {p q r : Parser}

/-- The second parser is behind the line of the first, which is a single token in the first
case. -/
def BehindLine (p q : Parser) : Prop :=
  q.rest = p.rest.tail ∧ p.lineIs [] = true ∨ q.rest = p.skipCurrentLine.rest

/-- The tokens on the line after the current one are of certain types, not literals among them. -/
def PlainLine (p : Parser) : Prop :=
  ∃ types : List TokenType, .STRING ∉ types ∧ p.lineIs types = true

/-- A result of a parser for one syntax. -/
def EndsLine (p : Parser) (x : Except Thrown (Option Parser)) : Prop :=
  Loop.Ensures (fun o => ∀ q ∈ o, p.BehindLine q) x

def ReadsLine (p : Parser) (x : Except Thrown (Option Parser)) : Prop :=
  Loop.Ensures (fun o => ∀ q ∈ o, p.BehindLine q ∧ p.PlainLine) x

theorem endsLine_some (h : p.BehindLine q) : p.EndsLine (.ok (some q)) := by
  apply Loop.Ensures.ok
  rintro _ ⟨⟩
  exact h

theorem endsLine_bind {β : Type} {x : Except Thrown β} {f : β → Except Thrown (Option Parser)}
    (h : ∀ b, p.EndsLine (f b)) : p.EndsLine (x >>= f) :=
  Loop.Ensures.bind fun b _ => h b

theorem readsLine_none : p.ReadsLine (.ok none) := by
  apply Loop.Ensures.ok
  rintro _ ⟨⟩

theorem readsLine_of_line {types : List TokenType} {x : Except Thrown (Option Parser)}
    (htypes : .STRING ∉ types) (h : p.EndsLine x) :
    p.ReadsLine (if p.lineIs types then x else return none) := by
  split
  · rename_i hline
    intro o ho q hq
    exact ⟨h o ho q hq, types, htypes, hline⟩
  · exact readsLine_none

theorem readsLine_bare (h : q.rest = p.rest.tail) :
    p.ReadsLine (if p.lineIs [] then return some q else return none) := by
  split
  · rename_i hline
    apply Loop.Ensures.ok
    rintro _ ⟨⟩
    exact ⟨.inl ⟨h, hline⟩, [], by simp, hline⟩
  · exact readsLine_none

theorem BehindLine.rest_eq (hend : p.notEof = true) (h : p.BehindLine q) :
    q.rest = p.skipCurrentLine.rest := by
  rcases h with ⟨h, hline⟩ | h
  · have hrest := rest_of_notEof hend
    have hcurrent := notEof_iff.mp hend
    rw [h, skipCurrentLine]
    dsimp only
    rw [hrest, List.tail_cons, List.dropWhile_cons_of_pos (by simpa using hcurrent)]
    cases htail : p.rest.tail with
    | nil => rfl
    | cons t r =>
      have hpeek : p.peekToken 1 = t := by
        rw [peekToken, hrest, List.drop_one, List.tail_cons, htail, List.headD_cons]
      simp only [lineIs, List.zipIdx_nil, List.all_nil, Bool.true_and, List.length_nil,
        Nat.zero_add, hpeek] at hline
      rw [List.dropWhile_cons_of_neg]
      simp only [Bool.and_eq_true, bne_iff_ne, Bool.or_eq_true, beq_iff_eq] at hline ⊢
      tauto
  · exact h

theorem BehindLine.finishImmediate (t : Token) (low high : Int) (expected : String) (imm : Int)
    (u : ICUnit) : p.BehindLine (p.finishImmediate t low high expected imm u) := by
  unfold Parser.finishImmediate
  split
  · exact .inr rfl
  · exact .inr rfl

theorem BehindLine.finishAligned (t : Token) (low high unit : Int) (expected : String) (imm : Int)
    (u : ICUnit) : p.BehindLine (p.finishAligned t low high unit expected imm u) := by
  unfold Parser.finishAligned
  split
  · split
    · exact .inr rfl
    · exact .inr rfl
  · exact .inr rfl

theorem BehindLine.finishLabel (t : Token) (low high : Int) (expected : String) (u : ICUnit) :
    p.BehindLine (p.finishLabel t low high expected u) := by
  unfold Parser.finishLabel
  split
  · dsimp only
    split
    · exact .inr rfl
    · exact .inr rfl
  · exact .inr rfl

theorem parseOffset_line (set : ICUnit → String → ICUnit) : p.EndsLine (p.parseOffset set) := by
  refine endsLine_bind fun reg => endsLine_bind fun imm => ?_
  split
  · exact endsLine_bind fun rs1 => endsLine_some (.inr rfl)
  · exact endsLine_some (.inr rfl)

theorem parseO_line : p.ReadsLine p.parseO :=
  readsLine_of_line (by simp) (endsLine_some (.inr rfl))

theorem parseRegisters_line {types : List TokenType} {rm : RmField}
    (h : .STRING ∉ types.intersperse .COMMA ++ if rm = .given then [.COMMA, .RM] else []) :
    p.ReadsLine (parseRegisters types rm p) :=
  readsLine_of_line h (endsLine_bind fun _ => endsLine_bind fun _ => endsLine_some (.inr rfl))

theorem parseOGprCGprCI_line : p.ReadsLine p.parseOGprCGprCI := by
  refine readsLine_of_line (by simp) ?_
  split
  · refine endsLine_bind fun rd => endsLine_bind fun rs1 => endsLine_bind fun imm => ?_
    split
    · exact endsLine_some (.finishImmediate _ _ _ _ _ _)
    · exact endsLine_some (.finishImmediate _ _ _ _ _ _)
  · split
    · refine endsLine_bind fun rs1 => endsLine_bind fun rs2 => endsLine_bind fun imm => ?_
      exact endsLine_some (.finishAligned _ _ _ _ _ _ _)
    · exact endsLine_some (.inr rfl)

theorem parseOGprCI_line : p.ReadsLine p.parseOGprCI := by
  refine readsLine_of_line (by simp) ?_
  split
  · refine endsLine_bind fun rd => endsLine_bind fun imm => ?_
    exact endsLine_some (.finishImmediate _ _ _ _ _ _)
  · split
    · refine endsLine_bind fun rd => endsLine_bind fun imm => ?_
      exact endsLine_some (.finishAligned _ _ _ _ _ _ _)
    · exact endsLine_some (.inr rfl)

theorem parseOGprCGprCIl_line : p.ReadsLine p.parseOGprCGprCIl := by
  refine readsLine_of_line (by simp) ?_
  split
  · refine endsLine_bind fun rs1 => endsLine_bind fun rs2 => ?_
    exact endsLine_some (.finishLabel _ _ _ _ _)
  · exact endsLine_some (.inr rfl)

theorem parseOGprCIl_line : p.ReadsLine p.parseOGprCIl := by
  refine readsLine_of_line (by simp) ?_
  split
  · exact endsLine_bind fun rd => endsLine_some (.finishLabel _ _ _ _ _)
  · exact endsLine_some (.inr rfl)

theorem parseOGprCDl_line : p.ReadsLine (parseOGprCDl cfg p) := by
  refine readsLine_of_line (by simp) (endsLine_bind fun rd => ?_)
  split
  · exact endsLine_some (.inr rfl)
  · exact endsLine_some (.inr rfl)

theorem parseOGprCILpGprRp_line : p.ReadsLine p.parseOGprCILpGprRp := by
  refine readsLine_of_line (by simp) ?_
  split
  · exact parseOffset_line _
  · split
    · exact parseOffset_line _
    · split
      · exact parseOffset_line _
      · exact endsLine_some (.inr rfl)

theorem parseOFprCILpGprRp_line : p.ReadsLine p.parseOFprCILpGprRp := by
  refine readsLine_of_line (by simp) ?_
  split
  · exact parseOffset_line _
  · split
    · exact parseOffset_line _
    · exact endsLine_some (.inr rfl)

theorem parseOGprCCsrCGpr_line : p.ReadsLine p.parseOGprCCsrCGpr := by
  refine readsLine_of_line (by simp) ?_
  refine endsLine_bind fun rd => endsLine_bind fun csr => endsLine_bind fun rs1 => ?_
  exact endsLine_some (.inr rfl)

theorem parseOGprCCsrCI_line : p.ReadsLine p.parseOGprCCsrCI := by
  refine readsLine_of_line (by simp) ?_
  refine endsLine_bind fun rd => endsLine_bind fun csr => endsLine_bind fun imm => ?_
  exact endsLine_some (.finishImmediate _ _ _ _ _ _)

theorem parseLa_line : p.ReadsLine (parseLa cfg p) := by
  refine readsLine_of_line (by simp) (endsLine_bind fun rd => ?_)
  split
  · exact endsLine_some (.inr rfl)
  · exact endsLine_some (.inr rfl)

theorem parseLi_line : p.ReadsLine p.parseLi := by
  refine readsLine_of_line (by simp) (endsLine_bind fun imm => endsLine_bind fun rd => ?_)
  split
  · exact endsLine_some (.inr rfl)
  · split
    · dsimp only
      split
      · exact endsLine_some (.inr rfl)
      · exact endsLine_some (.inr rfl)
    · exact endsLine_some (.inr rfl)

theorem parsePseudo_line : p.ReadsLine (parsePseudo cfg p) := by
  unfold parsePseudo
  split
  · exact parseLa_line
  · exact readsLine_bare rfl
  · exact parseLi_line
  · exact readsLine_of_line (by simp)
      (endsLine_bind fun _ => endsLine_bind fun _ => endsLine_some (.inr rfl))
  · exact readsLine_of_line (by simp)
      (endsLine_bind fun _ => endsLine_bind fun _ => endsLine_some (.inr rfl))
  · exact readsLine_bare rfl
  · exact readsLine_none

/-- In every syntax a statement reads its line. -/
theorem parseSyntax_line (s : SyntaxType) : p.ReadsLine (parseSyntax cfg p s) := by
  cases s with
  | O_GPR_C_GPR_C_I => exact parseOGprCGprCI_line
  | O_GPR_C_GPR_C_IL => exact parseOGprCGprCIl_line
  | O_GPR_C_I_LP_GPR_RP => exact parseOGprCILpGprRp_line
  | O_GPR_C_I => exact parseOGprCI_line
  | O_GPR_C_IL => exact parseOGprCIl_line
  | O_GPR_C_DL => exact parseOGprCDl_line
  | O_GPR_C_GPR_C_DL => exact readsLine_none
  | O => exact parseO_line
  | PSEUDO => exact parsePseudo_line
  | O_GPR_C_CSR_C_GPR => exact parseOGprCCsrCGpr_line
  | O_GPR_C_CSR_C_I => exact parseOGprCCsrCI_line
  | O_FPR_C_I_LP_GPR_RP => exact parseOFprCILpGprRp_line
  | _ => exact parseRegisters_line (by decide)

theorem parseSyntaxes_line (ss : List SyntaxType) : p.ReadsLine (parseSyntaxes cfg p ss) := by
  induction ss with
  | nil => exact readsLine_none
  | cons s ss ih =>
    refine Loop.Ensures.bind fun o ho => ?_
    cases o with
    | none => exact ih
    | some q =>
      apply Loop.Ensures.ok
      rintro _ ⟨⟩
      exact parseSyntax_line s _ ho q rfl

/-- Everything between the places of two parsers has a property. -/
def Passes (P : Token → Prop) (p q : Parser) : Prop := ∃ l, p.rest = l ++ q.rest ∧ ∀ t ∈ l, P t

section

variable {P Q : Token → Prop}

theorem Passes.refl (P : Token → Prop) (p : Parser) : Passes P p p := ⟨[], rfl, by simp⟩

theorem Passes.trans (h : Passes P p q) (h' : Passes P q r) : Passes P p r := by
  obtain ⟨l, hl, hP⟩ := h
  obtain ⟨m, hm, hP'⟩ := h'
  refine ⟨l ++ m, by rw [hl, hm, List.append_assoc], fun t ht => ?_⟩
  rcases List.mem_append.mp ht with ht | ht
  · exact hP t ht
  · exact hP' t ht

theorem Passes.imp (h : Passes P p q) (hPQ : ∀ t, P t → Q t) : Passes Q p q := by
  obtain ⟨l, hl, hP⟩ := h
  exact ⟨l, hl, fun t ht => hPQ t (hP t ht)⟩

theorem Passes.tail (hend : p.notEof = true) (h : P p.currentToken)
    (hq : q.rest = p.rest.tail) : Passes P p q := by
  refine ⟨[p.currentToken], ?_, by simpa using h⟩
  rw [hq]
  exact rest_of_notEof hend

theorem Passes.dropWhile {f : Token → Bool} (h : ∀ t ∈ p.rest.takeWhile f, P t)
    (hq : q.rest = p.rest.dropWhile f) : Passes P p q := by
  refine ⟨p.rest.takeWhile f, ?_, h⟩
  rw [hq, List.takeWhile_append_dropWhile]

end

theorem peekToken_of_getElem? {n : Nat} {t : Token} (h : p.rest[n]? = some t) :
    p.peekToken n = t := by
  rw [peekToken, List.headD_eq_head?_getD, List.head?_drop, h]
  rfl

/-- On a line of known types every token after the first is of one of them. -/
theorem lineIs_mem {types : List TokenType} (h : p.lineIs types = true) {t : Token}
    (ht : t ∈ p.rest.takeWhile fun t =>
      t.lineNumber == p.currentToken.lineNumber && t.type != .EOF_) :
    t = p.currentToken ∨ t.type ∈ types := by
  generalize hline : p.rest.takeWhile (fun t =>
    t.lineNumber == p.currentToken.lineNumber && t.type != .EOF_) = taken at ht
  have hpeek {j : Nat} {u : Token} (hj : taken[j]? = some u) : p.peekToken j = u ∧
      u.lineNumber = p.currentToken.lineNumber ∧ u.type ≠ .EOF_ := by
    refine ⟨peekToken_of_getElem? ?_, ?_⟩
    · obtain ⟨tail, htail⟩ : taken <+: p.rest := hline ▸ List.takeWhile_prefix _
      rw [← htail, List.getElem?_append_left (List.getElem?_eq_some_iff.mp hj).1]
      exact hj
    · have hu := List.mem_takeWhile_imp (hline ▸ List.mem_of_getElem? hj)
      simpa using hu
  obtain ⟨j, hj⟩ := List.mem_iff_getElem?.mp ht
  cases j with
  | zero =>
    left
    rw [← (hpeek hj).1]
    exact (congrArg (List.headD · eofToken) List.drop_zero).symm
  | succ j =>
    right
    by_cases hlt : j < types.length
    · have htype := lineIs_type h (List.getElem?_eq_getElem hlt)
      rw [(hpeek hj).1] at htype
      rw [htype]
      exact List.getElem_mem hlt
    · -- the line would go on behind the last of the types
      obtain ⟨u, hu⟩ : ∃ u, taken[types.length + 1]? = some u := by
        have := (List.getElem?_eq_some_iff.mp hj).1
        exact ⟨_, List.getElem?_eq_getElem (by omega)⟩
      obtain ⟨hu, hsame, hnot⟩ := hpeek hu
      simp only [lineIs, Bool.and_eq_true, Bool.or_eq_true] at h
      rcases h.2 with heof | hother
      · rw [hu] at heof
        exact absurd (eq_of_beq heof) hnot
      · rw [hu, hsame] at hother
        simp at hother

theorem passes_line (hend : p.notEof = true) (hop : p.currentToken.type ≠ .STRING)
    (hline : p.PlainLine) (h : p.BehindLine q) : Passes (fun t => t.type ≠ .STRING) p q := by
  rcases h with ⟨h, -⟩ | h
  · exact .tail hend hop h
  · obtain ⟨types, htypes, hline⟩ := hline
    refine .dropWhile (fun t ht => ?_) h
    rcases lineIs_mem hline ht with rfl | hmem
    · exact hop
    · exact ne_of_mem_of_not_mem hmem htypes

/-- A round in a text section that records no error passes no literal. -/
theorem textTurn_passes (hin : p.inText = true) (h : textTurn cfg p = .ok q)
    (hcount : q.errors.count = p.errors.count) : Passes (fun t => t.type ≠ .STRING) p q := by
  have hend := inText_notEof hin
  unfold textTurn at h
  split at h
  · rename_i htype
    obtain rfl := Except.ok.inj h
    refine .tail hend (by rw [htype]; decide) ?_
    unfold defineTextLabel
    dsimp only
    split
    · rfl
    · rfl
  · rename_i htype
    unfold parseStatement at h
    dsimp only at h
    split at h
    · obtain rfl := Except.ok.inj h
      have := fail_count (p := p) p.currentToken
        ("Unexpected opcode, M extension is disabled: " ++ p.currentToken.value)
        .UnexpectedTokenError "Unexpected opcode, M extension is disabled" ""
      exact absurd hcount (Nat.ne_of_gt this)
    · obtain ⟨o, ho, h⟩ := Loop.bind_eq_ok h
      cases o with
      | some u =>
        obtain rfl := Except.ok.inj h
        obtain ⟨hbehind, hline⟩ := parseSyntaxes_line _ _ ho u rfl
        exact passes_line hend (by rw [htype]; decide) hline hbehind
      | none =>
        obtain rfl := Except.ok.inj h
        exact absurd hcount (Nat.ne_of_gt (fail_count _ _ _ _ _))
  · obtain rfl := Except.ok.inj h
    exact absurd hcount (Nat.ne_of_gt (fail_count _ _ _ _ _))

theorem TextStep.count (h : TextStep p q) : p.errors.count ≤ q.errors.count := by
  cases h with
  | label htype hnew => exact Nat.le_refl _
  | failed hr herrors => exact Nat.le_of_lt herrors
  | emitted hr h => exact Nat.le_refl _

theorem textSteps_count (hp : LexedTokens p.rest) (h : Loop.Steps inText (textTurn cfg) p q) :
    p.errors.count ≤ q.errors.count := by
  induction h with
  | refl p => exact Nat.le_refl _
  | step hcond hbody _ ih =>
    have hstep := textTurn_step hp hcond hbody
    have hsuffix := (hstep.consumed (inText_notEof hcond)).suffix
    exact Nat.le_trans hstep.count (ih (lexed_suffix hp hsuffix))

theorem textSteps_passes (hp : LexedTokens p.rest) (h : Loop.Steps inText (textTurn cfg) p q)
    (hcount : q.errors.count = p.errors.count) : Passes (fun t => t.type ≠ .STRING) p q := by
  induction h with
  | refl p => exact .refl _ p
  | step hcond hbody rest ih =>
    have hstep := textTurn_step hp hcond hbody
    have hlexed := lexed_suffix hp (hstep.consumed (inText_notEof hcond)).suffix
    have hfirst := hstep.count
    have hrest := textSteps_count hlexed rest
    exact (textTurn_passes hcond hbody (by omega)).trans (ih hlexed (by omega))

/-- The token is not a literal that stands for the name of the text section. -/
def NoTextLiteral (t : Token) : Prop := t.type = .STRING → t.value ≠ "text"

/-- A round of the second pass that records no error. -/
theorem secondTurn_passes (hp : LexedTokens p.rest) (hend : p.notEof = true)
    (h : secondTurn cfg p = .ok q) (hcount : q.errors.count = p.errors.count) :
    Passes NoTextLiteral p q := by
  have htext {s : Parser} (hs : LexedTokens s.rest) (hscount : s.errors.count = p.errors.count)
      (h : s.parseTextDirective cfg = .ok q) : Passes NoTextLiteral s q := by
    have hsteps := (parseTextDirective_steps hs h).1
    exact (textSteps_passes hs hsteps (by rw [hcount, hscount])).imp
      fun t ht hstring => absurd hstring ht
  unfold secondTurn at h
  split at h
  · rename_i hsection
    obtain rfl := Except.ok.inj h
    refine .tail hend (fun hstring => ?_) rfl
    rw [(atDirective_iff.mp hsection).2] at hstring
    cases hstring
  split at h
  · obtain rfl := Except.ok.inj h
    refine .dropWhile (fun t ht _ => ?_) rfl
    have hskip := List.mem_takeWhile_imp ht
    simp only [Bool.and_eq_true, Bool.not_eq_true', List.contains_eq_mem] at hskip
    simpa using hskip.2
  split at h
  · rename_i hdirective
    have hfirst : Passes NoTextLiteral p p.nextToken := by
      refine .tail hend (fun hstring => ?_) rfl
      rw [(atDirective_iff.mp hdirective).2] at hstring
      cases hstring
    exact hfirst.trans (htext (lexed_suffix hp (consumed_tail hend).suffix) rfl h)
  split at h
  · exact htext hp rfl h
  · obtain rfl := Except.ok.inj h
    exact absurd hcount (Nat.ne_of_gt (fail_count _ _ _ _ _))

theorem secondSteps_passes (hp : LexedTokens p.rest)
    (h : Loop.Steps notEof (secondTurn cfg) p q) (hcount : q.errors.count = p.errors.count) :
    Passes NoTextLiteral p q := by
  induction h with
  | refl p => exact .refl _ p
  | @step u v w hcond hbody rest ih =>
    have hlexed := lexed_suffix hp (secondTurn_consumed hp hcond hbody).suffix
    have hfirst : u.errors.count ≤ v.errors.count :=
      (textInvariant_errors u u.errors.count : TextInvariant cfg _ _).secondSteps hp (.refl _)
        (.step hcond hbody (.refl _)) (Nat.le_refl _)
    have hrest : v.errors.count ≤ w.errors.count :=
      (textInvariant_errors v v.errors.count : TextInvariant cfg _ _).secondSteps hlexed (.refl _)
        rest (Nat.le_refl _)
    exact (secondTurn_passes hp hcond hbody (by omega)).trans (ih hlexed (by omega))

/-- Up to the end of the program. -/
theorem Passes.to_end {P : Token → Prop} (h : Passes P p q) (hstop : q.notEof = false) :
    ∀ t ∈ p.rest.takeWhile (fun t => t.type != .EOF_), P t := by
  obtain ⟨l, hl, hP⟩ := h
  intro t ht
  have hnone : q.rest.takeWhile (fun t => t.type != .EOF_) = [] := by
    cases hrest : q.rest with
    | nil => rfl
    | cons u rest =>
      apply List.takeWhile_cons_of_neg
      simp only [notEof, currentToken, hrest, List.headD_cons] at hstop
      simp [hstop]
  rw [hl, List.takeWhile_append, hnone, List.append_nil] at ht
  split at ht
  · exact hP t ht
  · exact hP t (List.takeWhile_subset _ ht)

/-- The programs without an error have no literal with the name of the text section. -/
theorem Accepted.no_text_literal {tokens : List Token} (hlexed : LexedTokens tokens)
    (h : Accepted cfg tokens p r q) :
    ∀ t ∈ tokens.takeWhile (fun t => t.type != .EOF_), NoTextLiteral t := by
  obtain ⟨s, hscan⟩ := h.scan
  have hrest : p.restart.rest = tokens := hscan.untouched.tokens
  obtain ⟨hsteps, hstop⟩ := secondPass_steps (h.lexed hlexed) h.second
  have hpasses := secondSteps_passes (h.lexed hlexed) hsteps (h.errors.trans h.first.symm)
  rw [← hrest]
  exact hpasses.to_end hstop

end Parser

end RiscvSim
