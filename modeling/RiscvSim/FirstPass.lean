import RiscvSim.Sections

/-! What the first pass hands to the second: the symbols of the data sections, and the tokens
from their beginning. -/

namespace RiscvSim

namespace Parser

variable {cfg : ParserConfig} {p q r : Parser} {s s' : Section} {tokens : List Token}

/-- What the loop `s` can do at a token. -/
inductive ScanStep (cfg : ParserConfig) (s : Section) (p : Parser) : Parser → Prop
  | skip : ScanStep cfg s p p.nextToken
  | failed {errors : ErrorTracker} (herrors : p.errors.count < errors.count) :
      ScanStep cfg s p { p with rest := p.rest.tail, errors }
  | element {d : DataDirective} {items : List DataItem} (hs : s = .elements d)
      (htype : p.currentToken.type = d.tokenType)
      (hitems : elementItems cfg d p.currentToken.value = .ok (some items)) :
      ScanStep cfg s p ((p.align d.alignment).place items).nextToken
  | label (hs : s = .data) (htype : p.currentToken.type = .LABEL) :
      ScanStep cfg s p p.defineDataLabel.nextToken

theorem scanToken_step (h : scanToken cfg s p = .ok q) : ScanStep cfg s p q := by
  cases s with
  | outer =>
    rw [scanToken] at h
    split at h
    · obtain rfl := Except.ok.inj h
      exact .skip
    · rename_i hnone
      cases firstTurn_step h with
      | failed _ _ herrors => exact .failed herrors
      | next henter => rw [hnone] at henter; cases henter
      | data henter => rw [hnone] at henter; cases henter
      | bss henter => rw [hnone] at henter; cases henter
      | text henter => rw [hnone] at henter; cases henter
  | text => obtain rfl := Except.ok.inj h; exact .skip
  | bss => obtain rfl := Except.ok.inj h; exact .skip
  | data =>
    rw [scanToken] at h
    split at h
    · obtain rfl := Except.ok.inj h
      exact .skip
    · rename_i hother
      rcases dataTurn_cases h with ⟨htype, rfl⟩ | ⟨htype, ⟨d, hd, -⟩ | ⟨-, errors, rfl, herrors⟩⟩
      · exact .label rfl htype
      · exact absurd ⟨htype, by rw [hd]; rfl⟩ hother
      · exact .failed herrors
  | elements d =>
    rcases elementTurn_cases h with ⟨htype, ⟨items, hitems, rfl⟩ | ⟨-, errors, rfl, herrors⟩⟩ |
      ⟨-, rfl⟩
    · exact .element rfl htype hitems
    · exact .failed herrors
    · exact .skip

/-- What a scan preserves when each of its steps does. -/
theorem Scan.invariant (P : Parser → Prop)
    (hstep : ∀ s p q, P p → p.notEof = true → ScanStep cfg s p q → P q)
    (h : Scan cfg (s, p) (s', q)) (hp : P p) : P q := by
  refine Loop.Steps.invariant (fun x => P x.2) (fun x y hx hcond hbody => ?_) h hp
  exact hstep _ _ _ hx (scanning_iff.mp hcond).1 (scanToken_step (scanTurn_eq_ok hbody).2)

/-- What holds at the beginning of a scan and is kept by each of its steps. -/
theorem Scan.keeps {s₀ : Section} {p₀ : Parser} (P : Section → Parser → Prop) (h₀ : P s₀ p₀)
    (hstep : ∀ s p q, Scan cfg (s₀, p₀) (s, p) → P s p → p.scanning = true →
      scanToken cfg (s.at_ p.currentToken) p = .ok q → P (s.next p.currentToken) q)
    (h : Scan cfg (s₀, p₀) (s, p)) : P s p := by
  refine (Loop.Steps.invariant (fun x => Scan cfg (s₀, p₀) x ∧ P x.1 x.2)
    (fun x y hx hcond hbody => ?_) h ⟨.refl _, h₀⟩).2
  obtain ⟨hs, hq⟩ := scanTurn_eq_ok hbody
  refine ⟨hx.1.trans (.step hcond hbody (.refl y)), ?_⟩
  rw [hs]
  exact hstep _ _ _ hx.1 hx.2 hcond hq

theorem align_eq (a : Word) : ∃ dataIndex, p.align a = { p with dataIndex } := by
  unfold align
  split
  · exact ⟨_, rfl⟩
  · exact ⟨p.dataIndex, rfl⟩

/-- A label is aligned for the directive after it, or there is none. -/
theorem defineDataLabel_cases :
    (∃ d, DataDirective.ofName (p.peekToken 1).value = some d ∧
      p.defineDataLabel = (p.align d.alignment).define p.currentToken.value
        ⟨(p.align d.alignment).dataIndex, p.currentToken.lineNumber, true⟩) ∨
    DataDirective.ofName (p.peekToken 1).value = none ∧
      p.errors.count < p.defineDataLabel.errors.count := by
  unfold defineDataLabel
  cases h : DataDirective.ofName (p.peekToken 1).value with
  | some d => exact .inl ⟨d, rfl, rfl⟩
  | none => exact .inr ⟨rfl, fail_count _ _ _ _ _⟩

theorem ScanStep.count (h : ScanStep cfg s p q) : p.errors.count ≤ q.errors.count := by
  cases h with
  | skip => exact Nat.le_refl _
  | failed herrors => exact Nat.le_of_lt herrors
  | element hs htype hitems =>
    rename_i d items
    obtain ⟨i, hi⟩ := align_eq (p := p) d.alignment
    rw [hi]
    exact Nat.le_refl _
  | label hs htype =>
    rcases defineDataLabel_cases (p := p) with ⟨d, -, heq⟩ | ⟨-, herrors⟩
    · obtain ⟨i, hi⟩ := align_eq (p := p) d.alignment
      rw [heq, hi]
      exact Nat.le_refl _
    · exact Nat.le_of_lt herrors

theorem Scan.count (h : Scan cfg (s, p) (s', q)) : p.errors.count ≤ q.errors.count :=
  h.invariant (fun u => p.errors.count ≤ u.errors.count)
    (fun _ _ _ hu _ hstep => Nat.le_trans hu hstep.count) (Nat.le_refl _)

/-- What the first pass leaves alone. -/
structure Untouched (p q : Parser) : Prop where
  tokens : q.tokens = p.tokens
  instructionIndex : q.instructionIndex = p.instructionIndex
  backPatch : q.backPatch = p.backPatch
  intermediateCode : q.intermediateCode = p.intermediateCode
  lines : q.instructionNumberLineNumberMapping = p.instructionNumberLineNumberMapping

theorem Untouched.trans (h : Untouched p q) (h' : Untouched q r) : Untouched p r :=
  ⟨h'.tokens.trans h.tokens, h'.instructionIndex.trans h.instructionIndex,
    h'.backPatch.trans h.backPatch, h'.intermediateCode.trans h.intermediateCode,
    h'.lines.trans h.lines⟩

theorem ScanStep.untouched (h : ScanStep cfg s p q) : Untouched p q := by
  cases h with
  | skip => exact ⟨rfl, rfl, rfl, rfl, rfl⟩
  | failed herrors => exact ⟨rfl, rfl, rfl, rfl, rfl⟩
  | element hs htype hitems =>
    rename_i d items
    obtain ⟨i, hi⟩ := align_eq (p := p) d.alignment
    rw [hi]
    exact ⟨rfl, rfl, rfl, rfl, rfl⟩
  | label hs htype =>
    unfold defineDataLabel
    split
    · rename_i d _
      obtain ⟨i, hi⟩ := align_eq (p := p) d.alignment
      rw [hi]
      exact ⟨rfl, rfl, rfl, rfl, rfl⟩
    · exact ⟨rfl, rfl, rfl, rfl, rfl⟩

theorem Scan.untouched (h : Scan cfg (s, p) (s', q)) : Untouched p q :=
  h.invariant (Untouched p) (fun _ _ _ hu _ hstep => hu.trans hstep.untouched)
    ⟨rfl, rfl, rfl, rfl, rfl⟩

/-- The symbols of the first pass are those of the data labels. -/
theorem ScanStep.symbols (h : ScanStep cfg s p q) {label : String} {symbol : SymbolData}
    (hsymbol : q.symbolTable label = some symbol) :
    p.symbolTable label = some symbol ∨
      s = .data ∧ p.currentToken.type = .LABEL ∧ p.currentToken.value = label ∧
        symbol = ⟨p.defineDataLabel.dataIndex, p.currentToken.lineNumber, true⟩ := by
  cases h with
  | skip => exact .inl hsymbol
  | failed herrors => exact .inl hsymbol
  | element hs htype hitems =>
    rename_i d items
    obtain ⟨i, hi⟩ := align_eq (p := p) d.alignment
    rw [hi] at hsymbol
    exact .inl hsymbol
  | label hs htype =>
    by_cases hlabel : label = p.currentToken.value
    · subst hlabel
      simp only [nextToken, defineDataLabel, define, if_true] at hsymbol
      obtain rfl := Option.some.inj hsymbol
      exact .inr ⟨hs, htype, rfl, rfl⟩
    · simp only [nextToken, defineDataLabel, define, if_neg hlabel] at hsymbol
      refine .inl ?_
      split at hsymbol
      · rename_i d _
        obtain ⟨i, hi⟩ := align_eq (p := p) d.alignment
        rw [hi] at hsymbol
        exact hsymbol
      · exact hsymbol

theorem Scan.symbols (h : Scan cfg (s, initial tokens) (s', q)) {label : String}
    {symbol : SymbolData} (hsymbol : q.symbolTable label = some symbol) :
    symbol.isData = true := by
  refine h.invariant (fun u => ∀ symbol, u.symbolTable label = some symbol → symbol.isData = true)
    (fun _ u v hu _ hstep symbol hsymbol => ?_) nofun symbol hsymbol
  rcases hstep.symbols hsymbol with h | ⟨-, -, -, rfl⟩
  · exact hu symbol h
  · rfl

/-- `tokens` parse without an error, to `q`. -/
def Accepts (cfg : ParserConfig) (tokens : List Token) (q : Parser) : Prop :=
  (∃ turns, parse cfg turns tokens = .ok (.done q)) ∧ q.errors.count = 0

/-- A parse that ends without an error. -/
theorem accepts_of_parse {n : Nat}
    (h : (match parse cfg n tokens with
      | .ok (.done q) => q.errors.count == 0
      | _ => false) = true) : ∃ q, Accepts cfg tokens q := by
  split at h
  · rename_i q hparse
    exact ⟨q, ⟨n, hparse⟩, by simpa using h⟩
  · cases h

/-- The second pass over `tokens` begins with `p`. -/
def BeginsSecond (cfg : ParserConfig) (tokens : List Token) (p : Parser) : Prop :=
  ∃ turns u, firstPass cfg turns (initial tokens) = .ok (.done u) ∧ p = u.restart

/-- The second pass begins a round in a text section with `v`. -/
def VisitsText (cfg : ParserConfig) (tokens : List Token) (v : Parser) : Prop :=
  ∃ p, BeginsSecond cfg tokens p ∧ TextVisit cfg p v ∧ v.inText = true

/-- The two passes and the patches of a parse without an error. -/
structure Accepted (cfg : ParserConfig) (tokens : List Token) (p r q : Parser) : Prop where
  scan : ∃ s, Scan cfg (.outer, initial tokens) (s, p)
  stop : p.notEof = false
  first : p.errors.count = 0
  second : secondPass cfg p.restart = .ok r
  errors : r.errors.count = 0
  patched : q = r.backPatch.foldl patch r
  count : q.errors.count = 0
  begins : ∀ u, BeginsSecond cfg tokens u → u = p.restart

theorem accepted_of_accepts (hlexed : LexedTokens tokens) (h : Accepts cfg tokens q) :
    ∃ p r, Accepted cfg tokens p r q := by
  obtain ⟨⟨turns, hparse⟩, hcount⟩ := h
  obtain ⟨result, hfirst, hparse⟩ := Loop.bind_eq_ok hparse
  cases result with
  | yield p => exact nomatch hparse
  | done p =>
    obtain ⟨hsteps, hstop⟩ := Loop.run_steps.1 p hfirst
    obtain ⟨s, hscan, -⟩ := firstSteps_scans (p := initial tokens) hlexed hsteps
      (not_reserved_of_end hstop)
    obtain ⟨r, hsecond, hq⟩ := Loop.bind_eq_ok hparse
    obtain rfl : r.backPatch.foldl patch r = q := by
      injection hq with hq
      injection hq
    have hstart : LexedTokens p.restart.rest := by
      change LexedTokens p.tokens
      rw [hscan.untouched.tokens]
      exact hlexed
    have herrors : p.errors.count ≤ r.errors.count :=
      (textInvariant_errors p.restart p.errors.count : TextInvariant cfg _ _).secondSteps hstart (.refl _)
        (secondPass_steps hstart hsecond).1 (Nat.le_refl _)
    have hpatches := patches_count (p := r) r.backPatch
    refine ⟨p, r, ⟨s, hscan⟩, hstop, by omega, hsecond, by omega, rfl, hcount, ?_⟩
    rintro u ⟨turns', v, hv, rfl⟩
    obtain ⟨hsteps', hstop'⟩ := Loop.run_steps.1 v hv
    rw [hsteps.end_unique hsteps' hstop hstop']

section

variable (hlexed : LexedTokens tokens) (h : Accepted cfg tokens p r q)
include hlexed h

theorem Accepted.lexed : LexedTokens p.restart.rest := by
  obtain ⟨s, hscan⟩ := h.scan
  change LexedTokens p.tokens
  rw [hscan.untouched.tokens]
  exact hlexed

/-- What holds at the beginning of the second pass and is kept by it holds at its end. -/
theorem Accepted.text {P : Parser → Prop} (hP : TextInvariant cfg p.restart P)
    (hs : P p.restart) : P r :=
  hP.secondSteps (h.lexed hlexed) (.refl _) (secondPass_steps (h.lexed hlexed) h.second).1 hs

omit hlexed in
theorem Accepted.visit {v : Parser} (hv : VisitsText cfg tokens v) :
    TextVisit cfg p.restart v ∧ v.inText = true := by
  obtain ⟨u, hu, hvisit, hin⟩ := hv
  rw [← h.begins u hu]
  exact ⟨hvisit, hin⟩

/-- The round at a visit records no error. -/
theorem Accepted.turn {v : Parser} (hv : TextVisit cfg p.restart v) (hin : v.inText = true) :
    ∃ w, textTurn cfg v = .ok w ∧ TextVisit cfg p.restart w ∧ TextStep v w ∧
      v.errors.count = 0 ∧ w.errors.count = 0 := by
  have hstart := h.lexed hlexed
  obtain ⟨w, hturn, hw, hstep⟩ := hv.turn hstart hin h.second
  have herrors (u : Parser) (hu : TextVisit cfg p.restart u) : u.errors.count = 0 := by
    have hle := (textInvariant_errors p.restart u.errors.count : TextInvariant cfg _ _).final hstart hu
      h.second (Nat.le_refl _)
    rw [h.errors] at hle
    omega
  exact ⟨w, hturn, hw, hstep, herrors v hv, herrors w hw⟩

omit hlexed in
/-- The second pass begins without code. -/
theorem Accepted.start : p.restart.instructionIndex = 0 ∧ p.restart.backPatch = [] ∧
    p.restart.intermediateCode = [] := by
  obtain ⟨s, hscan⟩ := h.scan
  exact ⟨rfl, hscan.untouched.backPatch, hscan.untouched.intermediateCode⟩

omit hlexed in
theorem Accepted.start_code : p.restart.CodeInv p.restart.backPatch := by
  obtain ⟨-, hback, hcode⟩ := h.start
  obtain ⟨s, hscan⟩ := h.scan
  rw [hback]
  refine ⟨fun label symbol hsymbol htext => ?_, fun i u b hi => ?_, nofun⟩
  · rw [hscan.symbols hsymbol] at htext
    exact nomatch htext
  · rw [hcode] at hi
    exact nomatch hi

/-- At the end nothing is left to be patched, and the patches keep the symbols. -/
theorem Accepted.code : q.CodeInv [] ∧ q.symbolTable = r.symbolTable := by
  obtain ⟨hindex, -, hcode⟩ := h.start
  have hinv := h.text hlexed (textInvariant_code p.restart)
    ⟨by rw [hindex, hcode]; rfl, h.start_code⟩
  have hpatched := patches_ok hinv.2 (by rw [← h.patched, h.count, h.errors])
  rw [← h.patched] at hpatched
  exact hpatched

end

end Parser

end RiscvSim
