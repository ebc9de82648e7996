import RiscvSim.FirstPass
import RiscvSim.Lexemes

/-! Line numbers from the source to the intermediate code: the lexer counts the lines, every unit
has the line of its statement, and neither ever goes back. -/

namespace RiscvSim

/-- The lines of the tokens never go back. -/
def LinesOrdered (tokens : List Token) : Prop :=
  tokens.Pairwise fun s t => s.lineNumber ≤ t.lineNumber

namespace Lexer

variable {floatText : String → Except Thrown String} {l l' : Lexer}

/-- The tokens so far are ordered and at most on the current line. -/
structure LineCount (l : Lexer) : Prop where
  ordered : LinesOrdered l.tokens
  bounded : ∀ t ∈ l.tokens, t.lineNumber ≤ l.lineNumber

theorem LineCount.append (h : l.LineCount) {t : Token} (ht : t.lineNumber = l.lineNumber) :
    LinesOrdered (l.tokens ++ [t]) ∧ ∀ u ∈ l.tokens ++ [t], u.lineNumber ≤ l.lineNumber := by
  constructor
  · unfold LinesOrdered
    rw [List.pairwise_append]
    refine ⟨h.ordered, List.pairwise_singleton _ _, fun u hu v hv => ?_⟩
    obtain rfl := List.mem_singleton.mp hv
    rw [ht]
    exact h.bounded u hu
  · intro u hu
    rcases List.mem_append.mp hu with hu | hu
    · exact h.bounded u hu
    · obtain rfl := List.mem_singleton.mp hu
      exact ht.le

theorem LineCount.lineTurn (h : l.LineCount) (hturn : l.lineTurn floatText = .ok l') :
    l'.LineCount := by
  obtain ⟨blanks, c, t, m, hreads, rfl⟩ := lineTurn_reads hturn
  have hline : m.lineNumber = l.lineNumber := hreads.lineNumber
  cases t with
  | none =>
    have htokens : (m.push none).tokens = l.tokens := by simp [push, hreads.tokens]
    exact ⟨htokens ▸ h.ordered, fun t ht => hline ▸ h.bounded t (htokens ▸ ht)⟩
  | some t =>
    have ht : t.lineNumber = l.lineNumber := by simpa using hreads.line
    have htokens : (m.push (some t)).tokens = l.tokens ++ [t] := by simp [push, hreads.tokens]
    obtain ⟨hordered, hbounded⟩ := h.append ht
    exact ⟨htokens ▸ hordered, fun u hu => hline ▸ hbounded u (htokens ▸ hu)⟩

theorem LineCount.lexLine (h : l.LineCount) (hline : l.lexLine floatText = .ok l') :
    l'.LineCount :=
  (lexLine_steps hline).1.invariant LineCount (fun _ _ hm _ hturn => hm.lineTurn hturn) h

theorem LineCount.lexLines {lines : List (List Char)} (h : l.LineCount)
    (hlines : lexLines floatText l lines = .ok l') : l'.LineCount := by
  induction lines generalizing l with
  | nil => exact Except.ok.inj hlines ▸ h
  | cons line lines ih =>
    obtain ⟨m, hm, hlines⟩ := Loop.bind_eq_ok hlines
    have hread : (l.readLine line).LineCount :=
      ⟨h.ordered, fun t ht => Nat.le_succ_of_le (h.bounded t ht)⟩
    exact ih (hread.lexLine hm) hlines

/-- The lines of a source are read one after the other. -/
theorem getTokenList_ordered {source : List (List Char)} {tokens : List Token}
    (h : getTokenList floatText source = .ok tokens) : LinesOrdered tokens := by
  obtain ⟨l, hl, h⟩ := Loop.bind_eq_ok h
  obtain rfl := Except.ok.inj h
  have hstart : ({} : Lexer).LineCount := ⟨List.Pairwise.nil, by simp⟩
  exact ((hstart.lexLines hl).append rfl).1

end Lexer

namespace Parser

open InstructionSet

variable {cfg : ParserConfig} {p q r : Parser}

/-- The units that were appended have the line of the current token. -/
def EmitsHere (p q : Parser) : Prop :=
  ∃ units, q.intermediateCode = p.intermediateCode ++ units ∧
    ∀ e ∈ units, e.1.lineNumber = p.currentToken.lineNumber

/-- The same of a parser for one syntax. -/
def FitsHere (p : Parser) (o : Option Parser) : Prop := ∀ q ∈ o, p.EmitsHere q

theorem EmitsHere.none (h : q.intermediateCode = p.intermediateCode) : p.EmitsHere q :=
  ⟨[], by rw [h, List.append_nil], by simp⟩

theorem EmitsHere.one {u : ICUnit} {b : Bool}
    (h : q.intermediateCode = p.intermediateCode ++ [(u, b)])
    (hu : u.lineNumber = p.currentToken.lineNumber) : p.EmitsHere q :=
  ⟨_, h, by simp [hu]⟩

theorem EmitsHere.two {u v : ICUnit} {b b' : Bool}
    (h : q.intermediateCode = p.intermediateCode ++ [(u, b)] ++ [(v, b')])
    (hu : u.lineNumber = p.currentToken.lineNumber)
    (hv : v.lineNumber = p.currentToken.lineNumber) : p.EmitsHere q :=
  ⟨[(u, b), (v, b')], by rw [h, List.append_assoc]; rfl, by simp [hu, hv]⟩

theorem EmitsHere.finishImmediate {t : Token} {low high imm : Int} {expected : String}
    {u : ICUnit} (hu : u.lineNumber = p.currentToken.lineNumber) :
    p.EmitsHere (p.finishImmediate t low high expected imm u) := by
  unfold Parser.finishImmediate
  split
  · exact .one rfl hu
  · exact .none rfl

theorem EmitsHere.finishAligned {t : Token} {low high unit imm : Int} {expected : String}
    {u : ICUnit} (hu : u.lineNumber = p.currentToken.lineNumber) :
    p.EmitsHere (p.finishAligned t low high unit expected imm u) := by
  unfold Parser.finishAligned
  split
  · split
    · exact .one rfl hu
    · exact .none rfl
  · exact .none rfl

theorem EmitsHere.finishLabel {t : Token} {low high : Int} {expected : String} {u : ICUnit}
    (hu : u.lineNumber = p.currentToken.lineNumber) :
    p.EmitsHere (p.finishLabel t low high expected u) := by
  unfold Parser.finishLabel
  split
  · dsimp only
    split
    · exact .one rfl hu
    · exact .none rfl
  · exact .one rfl hu

section

/-- A result of a parser for one syntax. -/
def AllHere (p : Parser) (x : Except Thrown (Option Parser)) : Prop := Loop.Ensures p.FitsHere x

theorem allHere_none : p.AllHere (.ok none) := by
  apply Loop.Ensures.ok
  rintro _ ⟨⟩

theorem allHere_some (h : p.EmitsHere q) : p.AllHere (.ok (some q)) := by
  apply Loop.Ensures.ok
  rintro _ ⟨⟩
  exact h

theorem allHere_bind {β : Type} {x : Except Thrown β} {f : β → Except Thrown (Option Parser)}
    (h : ∀ b, p.AllHere (f b)) : p.AllHere (x >>= f) :=
  Loop.Ensures.bind fun b _ => h b

theorem parseO_here : p.AllHere p.parseO := by
  unfold parseO
  split
  · exact allHere_some (.one rfl rfl)
  · exact allHere_none

theorem parseRegisters_here (types : List TokenType) (rm : RmField) :
    p.AllHere (parseRegisters types rm p) := by
  unfold parseRegisters
  generalize p.lineIs (types.intersperse .COMMA ++ if rm = .given then [.COMMA, .RM] else []) = fits
  cases fits with
  | true =>
    apply allHere_bind
    intro names
    apply allHere_bind
    intro mode
    exact allHere_some (.one rfl rfl)
  | false => exact allHere_none

theorem parseOffset_here {set : ICUnit → String → ICUnit}
    (hset : ∀ u name, (set u name).lineNumber = u.lineNumber) : p.AllHere (p.parseOffset set) := by
  unfold parseOffset
  apply allHere_bind
  intro reg
  apply allHere_bind
  intro imm
  split
  · apply allHere_bind
    intro rs1
    exact allHere_some (.one rfl (hset _ _))
  · exact allHere_some (.none rfl)

theorem parseOGprCGprCI_here : p.AllHere p.parseOGprCGprCI := by
  unfold parseOGprCGprCI
  split
  · split
    · apply allHere_bind
      intro rd
      apply allHere_bind
      intro rs1
      apply allHere_bind
      intro imm
      split
      · exact allHere_some (.finishImmediate rfl)
      · exact allHere_some (.finishImmediate rfl)
    · split
      · apply allHere_bind
        intro rs1
        apply allHere_bind
        intro rs2
        apply allHere_bind
        intro imm
        exact allHere_some (.finishAligned rfl)
      · exact allHere_some (.one rfl rfl)
  · exact allHere_none

theorem parseOGprCI_here : p.AllHere p.parseOGprCI := by
  unfold parseOGprCI
  split
  · split
    · apply allHere_bind
      intro rd
      apply allHere_bind
      intro imm
      exact allHere_some (.finishImmediate rfl)
    · split
      · apply allHere_bind
        intro rd
        apply allHere_bind
        intro imm
        exact allHere_some (.finishAligned rfl)
      · exact allHere_some (.one rfl rfl)
  · exact allHere_none

theorem parseOGprCGprCIl_here : p.AllHere p.parseOGprCGprCIl := by
  unfold parseOGprCGprCIl
  split
  · split
    · apply allHere_bind
      intro rs1
      apply allHere_bind
      intro rs2
      exact allHere_some (.finishLabel rfl)
    · exact allHere_some (.one rfl rfl)
  · exact allHere_none

theorem parseOGprCIl_here : p.AllHere p.parseOGprCIl := by
  unfold parseOGprCIl
  split
  · split
    · apply allHere_bind
      intro rd
      exact allHere_some (.finishLabel rfl)
    · exact allHere_some (.one rfl rfl)
  · exact allHere_none

theorem parseOGprCDl_here : p.AllHere (parseOGprCDl cfg p) := by
  unfold parseOGprCDl
  split
  · apply allHere_bind
    intro rd
    split
    · exact allHere_some (.none rfl)
    · exact allHere_some (.two rfl rfl rfl)
  · exact allHere_none

theorem parseOGprCILpGprRp_here : p.AllHere p.parseOGprCILpGprRp := by
  unfold parseOGprCILpGprRp
  split
  · split
    · exact parseOffset_here fun _ _ => rfl
    · split
      · exact parseOffset_here fun _ _ => rfl
      · split
        · exact parseOffset_here fun _ _ => rfl
        · exact allHere_some (.one rfl rfl)
  · exact allHere_none

theorem parseOFprCILpGprRp_here : p.AllHere p.parseOFprCILpGprRp := by
  unfold parseOFprCILpGprRp
  split
  · split
    · exact parseOffset_here fun _ _ => rfl
    · split
      · exact parseOffset_here fun _ _ => rfl
      · exact allHere_some (.one rfl rfl)
  · exact allHere_none

theorem parseOGprCCsrCGpr_here : p.AllHere p.parseOGprCCsrCGpr := by
  unfold parseOGprCCsrCGpr
  split
  · apply allHere_bind
    intro rd
    apply allHere_bind
    intro csr
    apply allHere_bind
    intro rs1
    exact allHere_some (.one rfl rfl)
  · exact allHere_none

theorem parseOGprCCsrCI_here : p.AllHere p.parseOGprCCsrCI := by
  unfold parseOGprCCsrCI
  split
  · apply allHere_bind
    intro rd
    apply allHere_bind
    intro csr
    apply allHere_bind
    intro imm
    exact allHere_some (.finishImmediate rfl)
  · exact allHere_none

theorem parseLa_here : p.AllHere (parseLa cfg p) := by
  unfold parseLa
  split
  · apply allHere_bind
    intro rd
    split
    · exact allHere_some (.two rfl rfl rfl)
    · exact allHere_some (.none rfl)
  · exact allHere_none

theorem parseLi_here : p.AllHere p.parseLi := by
  unfold parseLi
  split
  · apply allHere_bind
    intro imm
    apply allHere_bind
    intro rd
    split
    · exact allHere_some (.one rfl rfl)
    · split
      · dsimp only
        split
        · exact allHere_some (.two rfl rfl rfl)
        · exact allHere_some (.one rfl rfl)
      · exact allHere_some (.none rfl)
  · exact allHere_none

theorem parsePseudo_here : p.AllHere (parsePseudo cfg p) := by
  unfold parsePseudo
  split
  · exact parseLa_here
  · split
    · exact allHere_some (.one rfl rfl)
    · exact allHere_none
  · exact parseLi_here
  · split
    · apply allHere_bind
      intro rd
      apply allHere_bind
      intro rs1
      exact allHere_some (.one rfl rfl)
    · exact allHere_none
  · split
    · apply allHere_bind
      intro rd
      apply allHere_bind
      intro rs1
      exact allHere_some (.one rfl rfl)
    · exact allHere_none
  · split
    · exact allHere_some (.one rfl rfl)
    · exact allHere_none
  · exact allHere_none

/-- Every syntax gives its units the line of the statement. -/
theorem parseSyntax_here (s : SyntaxType) : p.AllHere (parseSyntax cfg p s) := by
  cases s with
  | O_GPR_C_GPR_C_I => exact parseOGprCGprCI_here
  | O_GPR_C_GPR_C_IL => exact parseOGprCGprCIl_here
  | O_GPR_C_I_LP_GPR_RP => exact parseOGprCILpGprRp_here
  | O_GPR_C_I => exact parseOGprCI_here
  | O_GPR_C_IL => exact parseOGprCIl_here
  | O_GPR_C_DL => exact parseOGprCDl_here
  | O_GPR_C_GPR_C_DL => exact allHere_none
  | O => exact parseO_here
  | PSEUDO => exact parsePseudo_here
  | O_GPR_C_CSR_C_GPR => exact parseOGprCCsrCGpr_here
  | O_GPR_C_CSR_C_I => exact parseOGprCCsrCI_here
  | O_FPR_C_I_LP_GPR_RP => exact parseOFprCILpGprRp_here
  | _ => exact parseRegisters_here _ _

theorem parseSyntaxes_here {ss : List SyntaxType} (h : parseSyntaxes cfg p ss = .ok (some q)) :
    p.EmitsHere q := by
  induction ss with
  | nil => cases h
  | cons s ss ih =>
    obtain ⟨result, hresult, h⟩ := Loop.bind_eq_ok h
    cases result with
    | some q' =>
      obtain rfl := Option.some.inj (Except.ok.inj h)
      exact parseSyntax_here s _ hresult _ rfl
    | none => exact ih h

end

theorem parseStatement_here (h : parseStatement cfg p = .ok q) : p.EmitsHere q := by
  unfold parseStatement at h
  dsimp only at h
  split at h
  · obtain rfl := Except.ok.inj h
    exact .none rfl
  · obtain ⟨result, hresult, h⟩ := Loop.bind_eq_ok h
    cases result with
    | some q' =>
      obtain rfl := Except.ok.inj h
      exact parseSyntaxes_here hresult
    | none =>
      obtain rfl := Except.ok.inj h
      exact .none rfl

theorem textTurn_here (h : textTurn cfg p = .ok q) : p.EmitsHere q := by
  unfold textTurn at h
  split at h
  · obtain rfl := Except.ok.inj h
    refine .none ?_
    unfold defineTextLabel
    dsimp only
    split
    · rfl
    · rfl
  · exact parseStatement_here h
  · obtain rfl := Except.ok.inj h
    exact .none rfl

/-- The code so far has its lines in order, none of them behind a token that is left. -/
structure CodeOrdered (p : Parser) : Prop where
  code : p.intermediateCode.Pairwise fun e f => e.1.lineNumber ≤ f.1.lineNumber
  tokens : LinesOrdered p.rest
  behind : ∀ e ∈ p.intermediateCode, ∀ t ∈ p.rest, e.1.lineNumber ≤ t.lineNumber

theorem CodeOrdered.skip (h : p.CodeOrdered) (hcode : q.intermediateCode = p.intermediateCode)
    (hrest : q.rest <:+ p.rest) : q.CodeOrdered where
  code := hcode ▸ h.code
  tokens := List.Pairwise.sublist hrest.sublist h.tokens
  behind e he t ht := h.behind e (hcode ▸ he) t (hrest.mem ht)

theorem CodeOrdered.textTurn (hp : LexedTokens p.rest) (h : p.CodeOrdered)
    (hin : p.inText = true) (hturn : textTurn cfg p = .ok q) : q.CodeOrdered := by
  have hend := inText_notEof hin
  have hrest := rest_of_notEof hend
  have hsuffix := ((textTurn_step hp hin hturn).consumed hend).suffix
  obtain ⟨units, hcode, hunits⟩ := textTurn_here hturn
  have hcurrent : p.currentToken ∈ p.rest := hrest ▸ List.mem_cons_self
  have hlater : ∀ t ∈ p.rest, p.currentToken.lineNumber ≤ t.lineNumber := by
    intro t ht
    have htokens := h.tokens
    rw [hrest] at ht htokens
    rcases List.mem_cons.mp ht with rfl | ht
    · exact Nat.le_refl _
    · exact List.rel_of_pairwise_cons htokens ht
  refine ⟨?_, List.Pairwise.sublist hsuffix.sublist h.tokens, ?_⟩
  · rw [hcode, List.pairwise_append]
    refine ⟨h.code, ?_, fun e he f hf => ?_⟩
    · apply List.pairwise_of_forall_mem_list
      intro e he f hf
      rw [hunits e he, hunits f hf]
    · rw [hunits f hf]
      exact h.behind e he _ hcurrent
  · intro e he t ht
    rw [hcode] at he
    rcases List.mem_append.mp he with he | he
    · exact h.behind e he t (hsuffix.mem ht)
    · rw [hunits e he]
      exact hlater t (hsuffix.mem ht)

theorem CodeOrdered.textSteps (hp : LexedTokens p.rest) (h : p.CodeOrdered)
    (hsteps : Loop.Steps inText (Parser.textTurn cfg) p q) : q.CodeOrdered := by
  induction hsteps with
  | refl => exact h
  | step hin hturn _ ih =>
    have hsuffix := ((textTurn_step hp hin hturn).consumed (inText_notEof hin)).suffix
    exact ih (lexed_suffix hp hsuffix) (h.textTurn hp hin hturn)

theorem CodeOrdered.secondTurn (hp : LexedTokens p.rest) (h : p.CodeOrdered)
    (hend : p.notEof = true) (hturn : secondTurn cfg p = .ok q) : q.CodeOrdered := by
  rcases secondTurn_cases hp hend hturn with
    ⟨-, r, hr, rfl | ⟨errors, rfl, -⟩⟩ | ⟨s, -, hs, -, hsteps, -⟩
  · exact h.skip rfl hr.suffix
  · exact h.skip rfl hr.suffix
  · rcases hs with rfl | rfl
    · exact h.textSteps hp hsteps
    · have hsuffix := (consumed_tail hend).suffix
      exact (h.skip (q := p.nextToken) rfl hsuffix).textSteps (lexed_suffix hp hsuffix) hsteps

theorem CodeOrdered.secondSteps (hp : LexedTokens p.rest) (h : p.CodeOrdered)
    (hsteps : Loop.Steps notEof (Parser.secondTurn cfg) p q) : q.CodeOrdered := by
  induction hsteps with
  | refl => exact h
  | step hend hturn _ ih =>
    have hsuffix := (secondTurn_consumed hp hend hturn).suffix
    exact ih (lexed_suffix hp hsuffix) (h.secondTurn hp hend hturn)

/-- The lines of the instructions, in order. -/
def instructionLines (p : Parser) : List Nat := p.intermediateCode.map fun e => e.1.lineNumber

theorem patches_lines (back : List Nat) :
    (back.foldl patch p).instructionLines = p.instructionLines := by
  have hlines (q : Parser) : q.instructionLines = q.operands.map ICUnit.lineNumber := by
    rw [operands, List.map_map]
    rfl
  rw [hlines, hlines, (patches_keep back).1]

/-- The lines of the instructions of an accepted source never go back. -/
theorem Accepts.lines_ordered {floatText : String → Except Thrown String}
    {source : List (List Char)} {tokens : List Token}
    (htokens : Lexer.getTokenList floatText source = .ok tokens) (h : Accepts cfg tokens q) :
    q.instructionLines.Pairwise (· ≤ ·) := by
  have hlexed := Lexer.getTokenList_lexed htokens
  obtain ⟨p, r, haccepted⟩ := accepted_of_accepts hlexed h
  obtain ⟨-, -, hcode⟩ := haccepted.start
  obtain ⟨s, hscan⟩ := haccepted.scan
  have hrest : p.restart.rest = tokens := hscan.untouched.tokens
  have hstart : p.restart.CodeOrdered :=
    ⟨hcode ▸ List.Pairwise.nil, hrest ▸ Lexer.getTokenList_ordered htokens,
      by rw [hcode]; simp⟩
  have hsteps := (secondPass_steps (haccepted.lexed hlexed) haccepted.second).1
  have hend := hstart.secondSteps (haccepted.lexed hlexed) hsteps
  rw [haccepted.patched, patches_lines]
  exact List.pairwise_map.mpr hend.code

end Parser

end RiscvSim
