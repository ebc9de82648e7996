import RiscvSim.StatementForms

/-! The second pass and the patches: every unit of the intermediate code has the operands of
its mnemonic, and the immediate of a branch or a jump with a label is the distance to it. -/

namespace RiscvSim

namespace Parser

open InstructionSet

variable {cfg : ParserConfig} {p q : Parser}

/-- What one round in a text section does. -/
inductive TextStep (p : Parser) : Parser → Prop
  | label (htype : p.currentToken.type = .LABEL)
      (hnew : p.symbolTable p.currentToken.value = none) :
      TextStep p (p.define p.currentToken.value
        ⟨textAddress p.instructionIndex, p.currentToken.lineNumber, false⟩).nextToken
  | failed {r errors} (hr : p.Consumed r) (herrors : p.errors.count < errors.count) :
      TextStep p { p with rest := r, errors }
  | emitted {r units back} (hr : p.Consumed r) (h : Emission p units back) :
      TextStep p (p.after r units back)

theorem TextStep.consumed (hend : p.notEof = true) (h : TextStep p q) : p.Consumed q.rest := by
  cases h with
  | label htype hnew => exact consumed_tail hend
  | failed hr herrors => exact hr
  | emitted hr h => exact hr

theorem TextStep.fail_next (h : p.notEof = true) (t : Token) (message : String)
    (kind : ErrorKind) (mainMessage subMessage : String) :
    TextStep p (p.fail t message kind mainMessage subMessage).nextToken :=
  .failed (consumed_tail h) (fail_count t message kind mainMessage subMessage)

theorem TextStep.of_statement (h : Statement p q) : TextStep p q := by
  cases h with
  | failed hr herrors => exact .failed hr herrors
  | emitted hr h => exact .emitted hr h

theorem inText_notEof (h : p.inText = true) : p.notEof = true := by
  simp only [inText, Bool.and_eq_true] at h
  exact h.2

theorem textTurn_step (hp : LexedTokens p.rest) (hin : p.inText = true)
    (h : textTurn cfg p = .ok q) : TextStep p q := by
  have hend := inText_notEof hin
  unfold textTurn at h
  split at h
  · rename_i htype
    obtain rfl := Except.ok.inj h
    cases hsymbol : p.symbolTable p.currentToken.value with
    | none =>
      simp only [defineTextLabel, hsymbol]
      exact .label htype hsymbol
    | some symbol =>
      simp only [defineTextLabel, hsymbol]
      exact .fail_next hend _ _ _ _ _
  · exact .of_statement (parseStatement_statement hp hend h)
  · obtain rfl := Except.ok.inj h
    exact .of_statement (.fail hend _ _ _ _ _)

theorem lexed_suffix {r : List Token} (hp : LexedTokens p.rest) (hr : r <:+ p.rest) :
    LexedTokens r :=
  fun t ht => hp t (hr.mem ht)

theorem textSteps_suffix (hp : LexedTokens p.rest)
    (h : Loop.Steps inText (textTurn cfg) p q) : q.rest <:+ p.rest := by
  induction h with
  | refl p => exact List.suffix_rfl
  | step hcond hbody _ ih =>
    have hr := (textTurn_step hp hcond hbody).consumed (inText_notEof hcond)
    exact (ih (lexed_suffix hp hr.suffix)).trans hr.suffix

theorem parseTextDirective_steps (hp : LexedTokens p.rest)
    (h : p.parseTextDirective cfg = .ok q) :
    Loop.Steps inText (textTurn cfg) p q ∧ q.inText = false := by
  refine Loop.exhaust_steps (fun u v hu hcond hbody => ?_) h
  have hlexed := lexed_suffix hp (textSteps_suffix hp hu)
  exact ((textTurn_step hlexed hcond hbody).consumed (inText_notEof hcond)).shorter

/-- Where the text section begins that a round of the second pass enters. -/
def entersText (p : Parser) : Option Parser :=
  if p.atDirective "text" then some p.nextToken
  else if p.currentToken.type = .LABEL ∨ p.currentToken.type = .OPCODE then some p
  else none

/-- The second pass, begun at `p`, is at the head of the loop of a text section. -/
def TextVisit (cfg : ParserConfig) (p v : Parser) : Prop :=
  ∃ s s', Loop.Steps notEof (secondTurn cfg) p s ∧ s.notEof = true ∧ s.entersText = some s' ∧
    Loop.Steps inText (textTurn cfg) s' v

theorem atDirective_iff {name : String} :
    p.atDirective name = true ↔ p.currentToken.value = name ∧ p.currentToken.type = .DIRECTIVE := by
  simp [atDirective]

/-- What one round of the second pass does. -/
theorem secondTurn_cases (hp : LexedTokens p.rest) (hend : p.notEof = true)
    (h : secondTurn cfg p = .ok q) :
    (p.entersText = none ∧ ∃ r, p.Consumed r ∧ (q = { p with rest := r } ∨
      ∃ errors, q = { p with rest := r, errors } ∧ p.errors.count < errors.count)) ∨
    ∃ s, p.entersText = some s ∧ (s = p ∨ s = p.nextToken) ∧ (s = p → p.inText = true) ∧
      Loop.Steps inText (textTurn cfg) s q ∧ q.inText = false := by
  unfold secondTurn at h
  split at h
  · rename_i hsection
    obtain ⟨hvalue, htype⟩ := atDirective_iff.mp hsection
    obtain rfl := Except.ok.inj h
    refine .inl ⟨?_, _, consumed_tail hend, .inl rfl⟩
    simp [entersText, atDirective, hvalue, htype]
  split at h
  · rename_i hskip
    obtain rfl := Except.ok.inj h
    have hother : p.currentToken.value ≠ "text" ∧ p.currentToken.type = .DIRECTIVE := by
      rcases hskip with h | h <;> obtain ⟨hvalue, htype⟩ := atDirective_iff.mp h
      · exact ⟨by rw [hvalue]; decide, htype⟩
      · exact ⟨by rw [hvalue]; decide, htype⟩
    refine .inl ⟨by simp [entersText, atDirective, hother], _, ?_, .inl rfl⟩
    exact consumed_dropWhile hend (by simp [hother])
  split at h
  · rename_i htext
    have hlexed := lexed_suffix hp (consumed_tail hend).suffix
    obtain ⟨hsteps, hstop⟩ := parseTextDirective_steps (p := p.nextToken) hlexed h
    refine .inr ⟨p.nextToken, if_pos htext, .inr rfl, fun heq => ?_, hsteps, hstop⟩
    have hlength := (consumed_tail hend).shorter
    rw [show p.rest.tail = p.rest from congrArg Parser.rest heq] at hlength
    exact absurd hlength (Nat.lt_irrefl _)
  split at h
  · rename_i htext htype
    obtain ⟨hsteps, hstop⟩ := parseTextDirective_steps hp h
    refine .inr ⟨p, (if_neg htext).trans (if_pos htype), .inl rfl, fun _ => ?_, hsteps, hstop⟩
    rcases htype with htype | htype <;> simp [inText, htype, hend]
  · rename_i htext htype
    obtain rfl := Except.ok.inj h
    refine .inl ⟨(if_neg htext).trans (if_neg htype), p.rest.tail, consumed_tail hend, .inr ?_⟩
    exact ⟨_, rfl, fail_count _ _ _ _ _⟩

theorem secondTurn_consumed (hp : LexedTokens p.rest) (hend : p.notEof = true)
    (h : secondTurn cfg p = .ok q) : p.Consumed q.rest := by
  rcases secondTurn_cases hp hend h with ⟨-, r, hr, rfl | ⟨errors, rfl, -⟩⟩ | ⟨s, -, hs, hin, hsteps, hstop⟩
  · exact hr
  · exact hr
  · rcases hs with rfl | rfl
    · cases hsteps with
      | refl => rw [hin rfl] at hstop; exact nomatch hstop
      | step hcond hbody rest =>
        have hfirst := (textTurn_step hp hcond hbody).consumed hend
        have hrest := textSteps_suffix (lexed_suffix hp hfirst.suffix) rest
        exact ⟨hrest.trans hfirst.suffix, Nat.lt_of_le_of_lt hrest.length_le hfirst.shorter⟩
    · have hfirst := consumed_tail hend
      have hrest := textSteps_suffix (p := p.nextToken) (lexed_suffix hp hfirst.suffix) hsteps
      exact ⟨hrest.trans hfirst.suffix, Nat.lt_of_le_of_lt hrest.length_le hfirst.shorter⟩

theorem secondSteps_suffix (hp : LexedTokens p.rest)
    (h : Loop.Steps notEof (secondTurn cfg) p q) : q.rest <:+ p.rest := by
  induction h with
  | refl p => exact List.suffix_rfl
  | step hcond hbody _ ih =>
    have hr := secondTurn_consumed hp hcond hbody
    exact (ih (lexed_suffix hp hr.suffix)).trans hr.suffix

theorem secondPass_steps (hp : LexedTokens p.rest) (h : secondPass cfg p = .ok q) :
    Loop.Steps notEof (secondTurn cfg) p q ∧ q.notEof = false := by
  refine Loop.exhaust_steps (fun u v hu hcond hbody => ?_) h
  exact (secondTurn_consumed (lexed_suffix hp (secondSteps_suffix hp hu)) hcond hbody).shorter

/-- A property that the rounds of the second pass preserve. -/
structure TextInvariant (cfg : ParserConfig) (p₀ : Parser) (P : Parser → Prop) : Prop where
  skip : ∀ p r errors, P p → p.errors.count ≤ errors.count → P { p with rest := r, errors }
  step : ∀ p q, TextVisit cfg p₀ p → P p → TextStep p q → P q

section

variable {p₀ s v w : Parser}

theorem TextVisit.step (hv : TextVisit cfg p₀ v) (hin : v.inText = true)
    (h : textTurn cfg v = .ok w) : TextVisit cfg p₀ w := by
  obtain ⟨s, s', hsteps, hend, henter, htext⟩ := hv
  exact ⟨s, s', hsteps, hend, henter, htext.trans (.step hin h (.refl w))⟩

theorem lexed_entersText (h : LexedTokens s.rest) (hend : s.notEof = true)
    (henter : s.entersText = some v) : LexedTokens v.rest := by
  unfold entersText at henter
  split at henter
  · obtain rfl := Option.some.inj henter
    exact lexed_suffix h (consumed_tail hend).suffix
  · split at henter
    · obtain rfl := Option.some.inj henter
      exact h
    · exact nomatch henter

theorem TextInvariant.entersText {P : Parser → Prop} (hP : TextInvariant cfg p₀ P)
    (henter : s.entersText = some v) (hs : P s) : P v := by
  unfold Parser.entersText at henter
  split at henter
  · obtain rfl := Option.some.inj henter
    exact hP.skip s s.rest.tail s.errors hs (Nat.le_refl _)
  · split at henter
    · obtain rfl := Option.some.inj henter
      exact hs
    · exact nomatch henter

variable (h₀ : LexedTokens p₀.rest)
include h₀

theorem lexed_secondSteps (h : Loop.Steps notEof (secondTurn cfg) p₀ s) : LexedTokens s.rest :=
  lexed_suffix h₀ (secondSteps_suffix h₀ h)

theorem TextVisit.lexed (hv : TextVisit cfg p₀ v) : LexedTokens v.rest := by
  obtain ⟨s, s', hsteps, hend, henter, htext⟩ := hv
  have hlexed := lexed_entersText (lexed_secondSteps h₀ hsteps) hend henter
  exact lexed_suffix hlexed (textSteps_suffix hlexed htext)

variable {P : Parser → Prop} (hP : TextInvariant cfg p₀ P)
include hP

theorem TextInvariant.textSteps (hv : TextVisit cfg p₀ v)
    (h : Loop.Steps inText (textTurn cfg) v w) (hs : P v) : P w := by
  induction h with
  | refl v => exact hs
  | step hcond hbody _ ih =>
    exact ih (hv.step hcond hbody) (hP.step _ _ hv hs (textTurn_step (hv.lexed h₀) hcond hbody))

theorem TextInvariant.secondTurn (hsteps : Loop.Steps notEof (Parser.secondTurn cfg) p₀ s)
    (hend : s.notEof = true) (h : Parser.secondTurn cfg s = .ok q) (hs : P s) : P q := by
  rcases secondTurn_cases (lexed_secondSteps h₀ hsteps) hend h with
    ⟨-, r, -, rfl | ⟨errors, rfl, hcount⟩⟩ | ⟨v, henter, -, -, htext, -⟩
  · exact hP.skip s r s.errors hs (Nat.le_refl _)
  · exact hP.skip s r errors hs (Nat.le_of_lt hcount)
  · exact hP.textSteps h₀ ⟨s, v, hsteps, hend, henter, .refl v⟩ htext (hP.entersText henter hs)

theorem TextInvariant.secondSteps (hsteps : Loop.Steps notEof (Parser.secondTurn cfg) p₀ s)
    (h : Loop.Steps notEof (Parser.secondTurn cfg) s q) (hs : P s) : P q := by
  induction h with
  | refl s => exact hs
  | step hcond hbody _ ih =>
    exact ih (hsteps.trans (.step hcond hbody (.refl _))) (hP.secondTurn h₀ hsteps hcond hbody hs)

/-- It holds at every visit of a text section. -/
theorem TextInvariant.visit (hv : TextVisit cfg p₀ v) (hs : P p₀) : P v := by
  obtain ⟨s, s', hsteps, hend, henter, htext⟩ := hv
  have hPs := hP.entersText henter (hP.secondSteps h₀ (.refl p₀) hsteps hs)
  exact hP.textSteps h₀ ⟨s, s', hsteps, hend, henter, .refl s'⟩ htext hPs

/-- From a visit on it holds to the end of the second pass. -/
theorem TextInvariant.final (hv : TextVisit cfg p₀ v) (hpass : secondPass cfg p₀ = .ok q)
    (hs : P v) : P q := by
  have hall := hv
  obtain ⟨s, s', hsteps, hcond, henter, htext⟩ := hv
  obtain ⟨hrun, hstop⟩ := secondPass_steps h₀ hpass
  cases hsteps.compare hrun hstop with
  | refl => rw [hcond] at hstop; exact nomatch hstop
  | step _ hbody rest =>
    refine hP.secondSteps h₀ (hsteps.trans (.step hcond hbody (.refl _))) rest ?_
    rcases secondTurn_cases (lexed_secondSteps h₀ hsteps) hcond hbody with
      ⟨hnone, -⟩ | ⟨t, ht, -, -, hrest, hwstop⟩
    · rw [hnone] at henter
      exact nomatch henter
    · obtain rfl : t = s' := Option.some.inj (ht.symm.trans henter)
      exact hP.textSteps h₀ hall (htext.compare hrest hwstop) hs

end

section

variable {p₀ v w : Parser}

/-- The round at a visit, in a second pass that returns. -/
theorem TextVisit.turn (h₀ : LexedTokens p₀.rest) (hv : TextVisit cfg p₀ v)
    (hin : v.inText = true) (hpass : secondPass cfg p₀ = .ok q) :
    ∃ w, textTurn cfg v = .ok w ∧ TextVisit cfg p₀ w ∧ TextStep v w := by
  obtain ⟨s, s', hsteps, hcond, henter, htext⟩ := hv
  obtain ⟨hrun, hstop⟩ := secondPass_steps h₀ hpass
  have hall : TextVisit cfg p₀ v := ⟨s, s', hsteps, hcond, henter, htext⟩
  cases hsteps.compare hrun hstop with
  | refl => rw [hcond] at hstop; exact nomatch hstop
  | step _ hbody _ =>
    rcases secondTurn_cases (lexed_secondSteps h₀ hsteps) hcond hbody with
      ⟨hnone, -⟩ | ⟨t, ht, -, -, hrest, hwstop⟩
    · rw [hnone] at henter
      exact nomatch henter
    · obtain rfl : t = s' := Option.some.inj (ht.symm.trans henter)
      cases htext.compare hrest hwstop with
      | refl => rw [hin] at hwstop; exact nomatch hwstop
      | step _ hturn _ =>
        exact ⟨_, hturn, hall.step hin hturn, textTurn_step (hall.lexed h₀) hin hturn⟩

/-- Everything that holds after the round at `v` holds at `w`. -/
def TextVisit.Before (cfg : ParserConfig) (p₀ v w : Parser) : Prop :=
  ∃ v', textTurn cfg v = .ok v' ∧ ∀ P, TextInvariant cfg p₀ P → P v' → P w

theorem TextVisit.before_of_steps (h₀ : LexedTokens p₀.rest) (hv : TextVisit cfg p₀ v)
    (h : Loop.Steps inText (textTurn cfg) v w) : v = w ∨ TextVisit.Before cfg p₀ v w := by
  cases h with
  | refl => exact .inl rfl
  | step hcond hbody rest =>
    exact .inr ⟨_, hbody, fun P hP hs => hP.textSteps h₀ (hv.step hcond hbody) rest hs⟩

/-- The second pass makes its visits in an order. -/
theorem TextVisit.total (h₀ : LexedTokens p₀.rest) (hv : TextVisit cfg p₀ v)
    (hw : TextVisit cfg p₀ w) (hvin : v.inText = true) (hwin : w.inText = true) :
    v = w ∨ TextVisit.Before cfg p₀ v w ∨ TextVisit.Before cfg p₀ w v := by
  have hlater {v w s s' t t' : Parser} (hvin : v.inText = true)
      (hs : Loop.Steps notEof (secondTurn cfg) p₀ s) (hsend : s.notEof = true)
      (hs' : s.entersText = some s') (hv : Loop.Steps inText (textTurn cfg) s' v)
      (htend : t.notEof = true) (ht' : t.entersText = some t')
      (hw : Loop.Steps inText (textTurn cfg) t' w)
      (h : Loop.Steps notEof (secondTurn cfg) s t) :
      s = t ∨ TextVisit.Before cfg p₀ v w := by
    have hvisit : TextVisit cfg p₀ v := ⟨s, s', hs, hsend, hs', hv⟩
    cases h with
    | refl => exact .inl rfl
    | step hcond hbody rest =>
      rcases secondTurn_cases (lexed_secondSteps h₀ hs) hsend hbody with
        ⟨hnone, -⟩ | ⟨r, hr, -, -, htext, hstop⟩
      · rw [hnone] at hs'
        exact nomatch hs'
      obtain rfl : r = s' := Option.some.inj (hr.symm.trans hs')
      refine .inr ?_
      cases hv.compare htext hstop with
      | refl => rw [hvin] at hstop; exact nomatch hstop
      | step _ hturn hrest =>
        have hnext := hs.trans (.step hcond hbody (.refl _))
        refine ⟨_, hturn, fun P hP hP' => ?_⟩
        have hu := hP.textSteps h₀ (hvisit.step hvin hturn) hrest hP'
        have ht := hP.entersText ht' (hP.secondSteps h₀ hnext rest hu)
        exact hP.textSteps h₀ ⟨t, t', hnext.trans rest, htend, ht', .refl t'⟩ hw ht
  obtain ⟨s, s', hs, hsend, hs', hvsteps⟩ := hv
  obtain ⟨t, t', ht, htend, ht', hwsteps⟩ := hw
  have hboth (heq : s = t) : v = w ∨ TextVisit.Before cfg p₀ v w ∨ TextVisit.Before cfg p₀ w v := by
    subst heq
    obtain rfl : s' = t' := Option.some.inj (hs'.symm.trans ht')
    rcases hvsteps.total hwsteps with h | h
    · exact (TextVisit.before_of_steps h₀ ⟨s, s', hs, hsend, hs', hvsteps⟩ h).imp_right .inl
    · exact (TextVisit.before_of_steps h₀ ⟨s, s', hs, hsend, hs', hwsteps⟩ h).imp Eq.symm .inr
  rcases hs.total ht with h | h
  · exact (hlater hvin hs hsend hs' hvsteps htend ht' hwsteps h).elim hboth fun h => .inr (.inl h)
  · exact (hlater hwin ht htend ht' hwsteps hsend hs' hvsteps h).elim (fun h => hboth h.symm)
      fun h => .inr (.inr h)

end

/-- Errors are never taken back. -/
theorem textInvariant_errors (p₀ : Parser) (n : Nat) :
    TextInvariant cfg p₀ fun p => n ≤ p.errors.count where
  skip _ _ _ hp hcount := Nat.le_trans hp hcount
  step p q _ hp h := by
    cases h with
    | label htype hnew => exact hp
    | failed hr herrors => exact Nat.le_trans hp (Nat.le_of_lt herrors)
    | emitted hr h => exact hp

/-- Once entered, a symbol keeps its data. -/
theorem textInvariant_symbol (p₀ : Parser) (label : String) (symbol : SymbolData) :
    TextInvariant cfg p₀ fun p => p.symbolTable label = some symbol where
  skip _ _ _ hp _ := hp
  step p q _ hp h := by
    cases h with
    | label htype hnew =>
      change (if label = p.currentToken.value then _ else p.symbolTable label) = some symbol
      rw [if_neg fun heq => by rw [heq, hnew] at hp; exact nomatch hp]
      exact hp
    | failed hr herrors => exact hp
    | emitted hr h => exact hp

/-- The immediate of a unit with a label, at index `i`. -/
def Resolved (p : Parser) (i : Nat) (u : ICUnit) : Prop :=
  ∃ symbol, p.symbolTable u.label = some symbol ∧
    (isValidBTypeInstruction u.opcode = true → symbol.isData = false) ∧
    u.imm = toString (symbol.address - textAddress i).toInt

/-- A unit at index `i` of the intermediate code. -/
inductive UnitAt (p : Parser) (i : Nat) (u : ICUnit) : Prop
  | plain (h : u.Plain)
  | linked (h : u.Links) (hgood : u.Good) (hresolved : p.Resolved i u)

/-- The intermediate code during the second pass, where `back` is still to be patched. -/
structure CodeInv (p : Parser) (back : List Nat) : Prop where
  text : ∀ label symbol, p.symbolTable label = some symbol → symbol.isData = false →
    ∃ k ≤ p.intermediateCode.length, symbol.address = textAddress k
  units : ∀ i u b, p.intermediateCode[i]? = some (u, b) → p.UnitAt i u ∨ i ∈ back
  back : ∀ i ∈ back, ∃ u b, p.intermediateCode[i]? = some (u, b) ∧ u.Links

theorem Resolved.mono {i : Nat} {u : ICUnit} (h : p.Resolved i u)
    (hsymbols : ∀ label symbol, p.symbolTable label = some symbol →
      q.symbolTable label = some symbol) : q.Resolved i u := by
  obtain ⟨symbol, hsymbol, hdata, himm⟩ := h
  exact ⟨symbol, hsymbols _ _ hsymbol, hdata, himm⟩

theorem UnitAt.mono {i : Nat} {u : ICUnit} (h : p.UnitAt i u)
    (hsymbols : ∀ label symbol, p.symbolTable label = some symbol →
      q.symbolTable label = some symbol) : q.UnitAt i u := by
  cases h with
  | plain h => exact .plain h
  | linked h hgood hresolved => exact .linked h hgood (hresolved.mono hsymbols)

/-- A statement's units are what the intermediate code asks for at the indices they get. -/
theorem emission_units {units : List (ICUnit × Bool)} {back : List Nat}
    (h : Emission p units back) (hindex : p.instructionIndex = p.intermediateCode.length) :
    (∀ i u b, units[i]? = some (u, b) →
      p.UnitAt (p.intermediateCode.length + i) u ∨ p.intermediateCode.length + i ∈ back) ∧
    ∀ i ∈ back, ∃ u b, (p.intermediateCode ++ units)[i]? = some (u, b) ∧ u.Links := by
  cases h with
  | plain h =>
    exact ⟨fun i u b hi => .inl (.plain (h u b (List.mem_of_getElem? hi)).2), nofun⟩
  | linked h hgood hsymbol htext himm =>
    refine ⟨fun i u b hi => ?_, nofun⟩
    obtain ⟨hzero, heq⟩ := List.getElem?_eq_some_iff.mp hi
    obtain rfl : i = 0 := by simpa using hzero
    obtain ⟨rfl, rfl⟩ := Prod.mk.inj heq
    exact .inl (.linked h hgood ⟨_, hsymbol, fun _ => htext, by rw [himm, hindex]; rfl⟩)
  | deferred h =>
    rw [hindex]
    refine ⟨fun i u b hi => ?_, fun i hi => ?_⟩
    · obtain ⟨hzero, -⟩ := List.getElem?_eq_some_iff.mp hi
      obtain rfl : i = 0 := by simpa using hzero
      exact .inr (by simp)
    · obtain rfl := List.mem_singleton.mp hi
      exact ⟨_, false, by simp, h⟩

theorem textInvariant_code (p₀ : Parser) : TextInvariant cfg p₀ fun p =>
    p.instructionIndex = p.intermediateCode.length ∧ p.CodeInv p.backPatch where
  skip _ _ _ hp _ := ⟨hp.1, hp.2.text, fun i u b hi => (hp.2.units i u b hi).imp
    (fun h => h.mono fun _ _ hsymbol => hsymbol) id, hp.2.back⟩
  step p q hv hp h := by
    obtain ⟨hindex, hinv⟩ := hp
    cases h with
    | label htype hnew =>
      refine ⟨hindex, fun label symbol hsymbol htext => ?_, fun i u b hi => ?_, hinv.back⟩
      · change (if label = p.currentToken.value then _ else p.symbolTable label) = some symbol
          at hsymbol
        split at hsymbol
        · obtain rfl := Option.some.inj hsymbol
          exact ⟨_, Nat.le_refl _, by rw [hindex]; rfl⟩
        · exact hinv.text label symbol hsymbol htext
      · refine (hinv.units i u b hi).imp (fun h => h.mono fun label symbol hsymbol => ?_) id
        exact (textInvariant_symbol p₀ label symbol).step _ _ hv hsymbol (.label htype hnew)
    | failed hr herrors =>
      exact ⟨hindex, hinv.text, fun i u b hi => (hinv.units i u b hi).imp
        (fun h => h.mono fun _ _ hsymbol => hsymbol) id, hinv.back⟩
    | emitted hr h =>
      rename_i r units back
      obtain ⟨hunits, hback⟩ := emission_units h hindex
      have hcode : (p.after r units back).intermediateCode = p.intermediateCode ++ units := rfl
      refine ⟨?_, fun label symbol hsymbol htext => ?_, fun i u b hi => ?_, fun i hi => ?_⟩
      · rw [hcode, List.length_append, ← hindex]
        rfl
      · obtain ⟨k, hk, haddress⟩ := hinv.text label symbol hsymbol htext
        exact ⟨k, by rw [hcode, List.length_append]; omega, haddress⟩
      · rw [hcode] at hi
        rcases Nat.lt_or_ge i p.intermediateCode.length with hlt | hge
        · rw [List.getElem?_append_left hlt] at hi
          exact (hinv.units i u b hi).imp (fun h => h.mono fun _ _ hsymbol => hsymbol)
            fun h => List.mem_append_left _ h
        · rw [List.getElem?_append_right hge] at hi
          have h := hunits _ u b hi
          rw [Nat.add_sub_cancel' hge] at h
          exact h.imp (fun h => h.mono fun _ _ hsymbol => hsymbol)
            fun h => List.mem_append_right _ h
      · rw [hcode]
        rcases List.mem_append.mp hi with hi | hi
        · obtain ⟨u, b, hu, hlinks⟩ := hinv.back i hi
          obtain ⟨hlt, -⟩ := List.getElem?_eq_some_iff.mp hu
          exact ⟨u, b, by rw [List.getElem?_append_left hlt]; exact hu, hlinks⟩
        · exact hback i hi

theorem links_imm {u : ICUnit} (h : u.Links) (imm : String) : ({ u with imm } : ICUnit).Links := by
  obtain ⟨⟨s, hs, l, hl, hregisters⟩, hkind, hlabel⟩ := h
  exact ⟨⟨s, hs, l, hl, ⟨hregisters.rd, hregisters.rs1, hregisters.rs2, hregisters.rs3,
    hregisters.csr, hregisters.noCsr, hregisters.rm, hregisters.noRm⟩⟩, hkind, hlabel⟩

/-- An offset in the range of a branch or a jump completes it. -/
theorem good_of_waiting {u : ICUnit} {n low high : Int} (h : u.Waiting) (hlow : low ≤ n)
    (hhigh : n ≤ high)
    (hkind : isValidBTypeInstruction u.opcode = true ∧ low = -4096 ∧ high = 4095 ∨
      isValidJTypeInstruction u.opcode = true ∧ low = -1048576 ∧ high = 1048575) :
    ({ u with imm := toString n } : ICUnit).Good := by
  obtain ⟨s, hs, l, hl, hregisters⟩ := h
  refine ⟨s, hs, l, hl, ⟨hregisters.rd, hregisters.rs1, hregisters.rs2, hregisters.rs3,
    hregisters.csr, hregisters.noCsr, hregisters.rm, hregisters.noRm⟩, ?_⟩
  suffices himm : l.imm = some (low, high) by
    rw [Layout.Immediate, himm]
    exact ⟨n, rfl, hlow, hhigh⟩
  rcases hkind with ⟨hb, rfl, rfl⟩ | ⟨hj, rfl, rfl⟩
  · rw [syntaxes_branch hb] at hs
    have hi := branch_not_immediate hb
    rcases List.mem_pair.mp hs with rfl | rfl <;> simp [layout, hb, hi] at hl <;> rw [← hl]
  · rw [syntaxes_jump hj] at hs
    have hu := jump_not_upper hj
    rcases List.mem_pair.mp hs with rfl | rfl <;> simp [layout, hj, hu] at hl <;> rw [← hl]

theorem setUnit_get (i j : Nat) (entry : ICUnit × Bool) :
    (p.setUnit i entry).intermediateCode[j]? =
      if i = j then (p.intermediateCode[j]?).map fun _ => entry else p.intermediateCode[j]? := by
  rw [setUnit, List.getElem?_set']
  rfl

/-- What is left of a code with pending units when one of them is resolved. -/
theorem CodeInv.setUnit {i : Nat} {back : List Nat} {u : ICUnit} (hinv : p.CodeInv (i :: back))
    (hu : p.UnitAt i u) (hlinks : u.Links) : (p.setUnit i (u, true)).CodeInv back := by
  have hsymbols : (p.setUnit i (u, true)).symbolTable = p.symbolTable := rfl
  refine ⟨fun label symbol hsymbol htext => ?_, fun j v b hj => ?_, fun j hj => ?_⟩
  · obtain ⟨k, hk, haddress⟩ := hinv.text label symbol hsymbol htext
    exact ⟨k, by rw [Parser.setUnit, List.length_set]; exact hk, haddress⟩
  · rw [setUnit_get] at hj
    split at hj
    · rename_i heq
      obtain ⟨entry, -, hentry⟩ := Option.map_eq_some_iff.mp hj
      obtain ⟨rfl, rfl⟩ := Prod.mk.inj hentry
      exact .inl (heq ▸ hu.mono fun _ _ h => h)
    · rename_i hne
      refine (hinv.units j v b hj).imp (fun h => h.mono fun _ _ h => h) fun h => ?_
      exact (List.mem_cons.mp h).resolve_left fun heq => hne heq.symm
  · obtain ⟨v, b, hv, hlinks'⟩ := hinv.back j (List.mem_cons_of_mem i hj)
    rw [setUnit_get, hv]
    split
    · exact ⟨u, true, rfl, hlinks⟩
    · exact ⟨v, b, rfl, hlinks'⟩

theorem patchOffset_ok {i : Nat} {back : List Nat} {u : ICUnit} {symbol : SymbolData}
    {low high : Int} {expected : String} (hinv : p.CodeInv (i :: back)) (hlinks : u.Links)
    (hsymbol : p.symbolTable u.label = some symbol)
    (hkind : isValidBTypeInstruction u.opcode = true ∧ low = -4096 ∧ high = 4095 ∨
      isValidJTypeInstruction u.opcode = true ∧ low = -1048576 ∧ high = 1048575)
    (hdata : isValidBTypeInstruction u.opcode = true → symbol.isData = false)
    (hcount : (p.patchOffset i u symbol.address low high expected).errors.count =
      p.errors.count) :
    (p.patchOffset i u symbol.address low high expected).CodeInv back ∧
      (p.patchOffset i u symbol.address low high expected).symbolTable = p.symbolTable := by
  unfold patchOffset at hcount ⊢
  dsimp only at hcount ⊢
  split
  · rename_i hrange
    have hlinks' := links_imm hlinks (toString (symbol.address - textAddress i).toInt)
    exact ⟨hinv.setUnit (.linked hlinks' (good_of_waiting hlinks.waiting hrange.1 hrange.2 hkind)
      ⟨symbol, hsymbol, hdata, rfl⟩) hlinks', rfl⟩
  · rename_i hrange
    rw [if_neg hrange] at hcount
    simp only [failWith, recordError] at hcount
    omega

/-- One patch without an error resolves the unit at its index. -/
theorem patch_ok {i : Nat} {back : List Nat} (hinv : p.CodeInv (i :: back))
    (hcount : (p.patch i).errors.count = p.errors.count) :
    (p.patch i).CodeInv back ∧ (p.patch i).symbolTable = p.symbolTable := by
  obtain ⟨u, b, hu, hlinks⟩ := hinv.back i List.mem_cons_self
  unfold patch at hcount ⊢
  rw [hu] at hcount ⊢
  dsimp only at hcount ⊢
  cases hsymbol : p.symbolTable u.label with
  | none =>
    rw [hsymbol] at hcount
    simp only [invalidReference, failWith, recordError] at hcount
    omega
  | some symbol =>
    rw [hsymbol] at hcount
    dsimp only at hcount ⊢
    by_cases hb : isValidBTypeInstruction u.opcode = true
    · rw [if_pos hb] at hcount ⊢
      by_cases hdata : symbol.isData = false
      · rw [if_pos hdata] at hcount ⊢
        exact patchOffset_ok hinv hlinks hsymbol (.inl ⟨hb, rfl, rfl⟩) (fun _ => hdata) hcount
      · rw [if_neg hdata] at hcount
        simp only [invalidReference, failWith, recordError, Parser.setUnit] at hcount
        omega
    · have hj := hlinks.kind.resolve_left hb
      rw [if_neg hb, if_pos hj] at hcount ⊢
      exact patchOffset_ok hinv hlinks hsymbol (.inr ⟨hj, rfl, rfl⟩) (fun h => absurd h hb) hcount

theorem patchOffset_count (i : Nat) (u : ICUnit) (address : Word) (low high : Int)
    (expected : String) :
    p.errors.count ≤ (p.patchOffset i u address low high expected).errors.count := by
  unfold patchOffset
  dsimp only
  split
  · exact Nat.le_refl _
  · simp only [failWith, recordError]
    omega

theorem patch_count (i : Nat) : p.errors.count ≤ (p.patch i).errors.count := by
  unfold patch
  split
  · exact Nat.le_refl _
  · split
    · split
      · split
        · exact patchOffset_count _ _ _ _ _ _
        · simp only [Parser.setUnit, invalidReference, failWith, recordError]
          omega
      · split
        · exact patchOffset_count _ _ _ _ _ _
        · simp only [invalidReference, failWith, recordError]
          omega
    · simp only [invalidReference, failWith, recordError]
      omega

theorem patches_count (back : List Nat) :
    p.errors.count ≤ (back.foldl patch p).errors.count := by
  induction back generalizing p with
  | nil => exact Nat.le_refl _
  | cons i back ih => exact Nat.le_trans (patch_count i) ih

/-- The units without their immediates. -/
def operands (p : Parser) : List ICUnit := p.intermediateCode.map fun e => { e.1 with imm := "" }

theorem operands_getElem? (i : Nat) :
    p.operands[i]? = p.intermediateCode[i]?.map fun e => { e.1 with imm := "" } :=
  List.getElem?_map

theorem setUnit_operands {i : Nat} {u v : ICUnit} {b b' : Bool}
    (h : p.intermediateCode[i]? = some (u, b)) (hv : { v with imm := "" } = { u with imm := "" }) :
    (p.setUnit i (v, b')).operands = p.operands := by
  apply List.ext_getElem?
  intro j
  rw [operands_getElem?, operands_getElem?, setUnit, List.getElem?_set]
  by_cases hij : i = j
  · obtain ⟨hlt, -⟩ := List.getElem?_eq_some_iff.mp h
    rw [if_pos hij, if_pos hlt, ← hij, h]
    exact congrArg some hv
  · rw [if_neg hij]

/-- A patch keeps the symbols, and the units but for an immediate. -/
theorem patch_keeps (i : Nat) :
    (p.patch i).operands = p.operands ∧ (p.patch i).symbolTable = p.symbolTable := by
  unfold patch
  split
  · exact ⟨rfl, rfl⟩
  · rename_i u b hunit
    have hoffset (address : Word) (low high : Int) (expected : String) :
        (p.patchOffset i u address low high expected).operands = p.operands ∧
          (p.patchOffset i u address low high expected).symbolTable = p.symbolTable := by
      unfold patchOffset
      dsimp only
      split
      · exact ⟨setUnit_operands hunit rfl, rfl⟩
      · exact ⟨rfl, rfl⟩
    split
    · split
      · split
        · exact hoffset _ _ _ _
        · exact ⟨setUnit_operands (p := p.invalidReference u _ _) hunit rfl, rfl⟩
      · split
        · exact hoffset _ _ _ _
        · exact ⟨rfl, rfl⟩
    · exact ⟨rfl, rfl⟩

theorem patches_keep (back : List Nat) :
    (back.foldl patch p).operands = p.operands ∧
      (back.foldl patch p).symbolTable = p.symbolTable := by
  induction back generalizing p with
  | nil => exact ⟨rfl, rfl⟩
  | cons i back ih =>
    obtain ⟨hunits, hsymbols⟩ := patch_keeps (p := p) i
    obtain ⟨hunits', hsymbols'⟩ := ih (p := p.patch i)
    exact ⟨hunits'.trans hunits, hsymbols'.trans hsymbols⟩

/-- The patches, when none of them records an error. -/
theorem patches_ok {back : List Nat} (hinv : p.CodeInv back)
    (hcount : (back.foldl patch p).errors.count = p.errors.count) :
    (back.foldl patch p).CodeInv [] ∧ (back.foldl patch p).symbolTable = p.symbolTable := by
  induction back generalizing p with
  | nil => exact ⟨hinv, rfl⟩
  | cons i back ih =>
    have hfirst : (p.patch i).errors.count = p.errors.count := by
      have h := patch_count (p := p) i
      have h' := patches_count (p := p.patch i) back
      rw [List.foldl_cons] at hcount
      omega
    obtain ⟨hinv', hsymbols⟩ := patch_ok hinv hfirst
    obtain ⟨hinv'', hsymbols'⟩ := ih hinv' (by rw [hfirst]; exact hcount)
    exact ⟨hinv'', hsymbols'.trans hsymbols⟩

end Parser

end RiscvSim
