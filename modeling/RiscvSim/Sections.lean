import Mathlib
import RiscvSim.TextSection

/-! The first pass as one loop over the tokens. The nested loops of the source hand over to each
other at the token that ends them; here the part of the program that a token belongs to is a
function of the tokens before it. -/

namespace RiscvSim

/-- Where the first pass is. -/
inductive Section where
  | outer | text | bss | data
  | elements (d : DataDirective)
  deriving DecidableEq, Repr

namespace Section

open RiscvSim.Parser

/-- What a token outside of a section begins; other tokens there are errors. -/
def enter (t : Token) : Option Section :=
  if t.type = .DIRECTIVE ∧ t.value = "section" then some outer
  else if t.type = .DIRECTIVE ∧ t.value = "data" then some data
  else if t.type = .DIRECTIVE ∧ t.value = "bss" then some bss
  else if t.type = .DIRECTIVE ∧ t.value = "text" ∨ t.type = .LABEL ∨ t.type = .OPCODE then
    some text
  else none

/-- The loop that consumes the token `t` when the tokens before it leave the pass in `s`. -/
def at_ (s : Section) (t : Token) : Section :=
  match s with
  | outer => outer
  | text => if ["data", "section", "bss"].contains t.value then outer else text
  | bss => if sectionNames.contains t.value then outer else bss
  | data => if sectionNames.contains t.value then outer else data
  | elements d =>
    if t.type = d.tokenType ∨ t.type = .COMMA then elements d
    else if sectionNames.contains t.value then outer else data

/-- The loop after the token `t`, which was consumed by `s`. -/
def after (s : Section) (t : Token) : Section :=
  match s with
  | outer => (enter t).getD outer
  | data => if t.type = .LABEL then data else ((DataDirective.ofName t.value).map elements).getD data
  | s => s

def next (s : Section) (t : Token) : Section := (s.at_ t).after t

/-- The section after some tokens. -/
def run (s : Section) (tokens : List Token) : Section := tokens.foldl next s

end Section

/-- A label at which the first pass stands still. -/
def Token.Reserved (t : Token) : Prop :=
  t.type = .LABEL ∧ t.value ∈ ["data", "section", "bss"]

instance (t : Token) : Decidable t.Reserved := inferInstanceAs (Decidable (_ ∧ _))

namespace Parser

variable {cfg : ParserConfig} {p q r : Parser}

/-- What the loop `s` does at one token. -/
def scanToken (cfg : ParserConfig) (s : Section) (p : Parser) : Except Thrown Parser :=
  match s with
  | .outer => match Section.enter p.currentToken with
    | some _ => return p.nextToken
    | none => firstTurn cfg p
  | .text | .bss => return p.nextToken
  | .data =>
    if p.currentToken.type ≠ .LABEL ∧ (DataDirective.ofName p.currentToken.value).isSome then
      return p.nextToken
    else dataTurn cfg p
  | .elements d => elementTurn cfg d p

def scanTurn (cfg : ParserConfig) : Section × Parser → Except Thrown (Section × Parser)
  | (s, p) => do return (s.next p.currentToken, ← scanToken cfg (s.at_ p.currentToken) p)

/-- The pass has not come to the end or to a reserved label. -/
def scanning (p : Parser) : Bool := p.notEof && !decide p.currentToken.Reserved

abbrev Scan (cfg : ParserConfig) : Section × Parser → Section × Parser → Prop :=
  Loop.Steps (fun x => x.2.scanning) (scanTurn cfg)

/-- The scan gets from `p` to `q`, where it goes on as it would in the loop `s'`. -/
def Scans (cfg : ParserConfig) (s : Section) (p : Parser) (s' : Section) (q : Parser) : Prop :=
  ∃ s₁, Scan cfg (s, p) (s₁, q) ∧
    (q.notEof = true → s₁.at_ q.currentToken = s'.at_ q.currentToken)

theorem scanning_iff : p.scanning = true ↔ p.notEof = true ∧ ¬ p.currentToken.Reserved := by
  simp [scanning]

theorem scanTurn_eq_ok {s : Section} {x : Section × Parser}
    (h : scanTurn cfg (s, p) = .ok x) :
    x.1 = s.next p.currentToken ∧ scanToken cfg (s.at_ p.currentToken) p = .ok x.2 := by
  obtain ⟨q, hq, h⟩ := Loop.bind_eq_ok h
  obtain rfl := Except.ok.inj h
  exact ⟨rfl, hq⟩

theorem scanTurn_congr {s s' : Section} (h : s.at_ p.currentToken = s'.at_ p.currentToken) :
    scanTurn cfg (s, p) = scanTurn cfg (s', p) := by
  simp only [scanTurn, Section.next, h]

namespace Scans

variable {s s' s'' : Section}

theorem handOver (h : p.notEof = true → s.at_ p.currentToken = s'.at_ p.currentToken) :
    Scans cfg s p s' p :=
  ⟨s, .refl _, h⟩

theorem refl (s : Section) (p : Parser) : Scans cfg s p s p := handOver fun _ => rfl

theorem one (hend : p.notEof = true) (hreserved : ¬ p.currentToken.Reserved)
    (h : scanToken cfg (s.at_ p.currentToken) p = .ok q) :
    Scans cfg s p (s.next p.currentToken) q := by
  refine ⟨_, .step (t := (s.next p.currentToken, q)) (scanning_iff.mpr ⟨hend, hreserved⟩) ?_
    (.refl _), fun _ => rfl⟩
  simp only [scanTurn, h, Loop.bind_ok]
  rfl

theorem trans (h : Scans cfg s p s' q) (h' : Scans cfg s' q s'' r) : Scans cfg s p s'' r := by
  obtain ⟨s₁, hsteps, hs₁⟩ := h
  obtain ⟨s₂, hsteps', hs₂⟩ := h'
  cases hsteps' with
  | refl => exact ⟨s₁, hsteps, fun hend => (hs₁ hend).trans (hs₂ hend)⟩
  | step hcond hbody rest =>
    rw [← scanTurn_congr (hs₁ (scanning_iff.mp hcond).1)] at hbody
    exact ⟨s₂, hsteps.trans (.step hcond hbody rest), hs₂⟩

end Scans

theorem inData_iff : p.inData = true ↔
    sectionNames.contains p.currentToken.value = false ∧ p.notEof = true := by
  simp [inData]

theorem atElement_iff {d : DataDirective} : p.atElement d = true ↔
    p.notEof = true ∧ (p.currentToken.type = d.tokenType ∨ p.currentToken.type = .COMMA) := by
  simp [atElement]

theorem element_not_reserved {d : DataDirective} {t : Token}
    (h : t.type = d.tokenType ∨ t.type = .COMMA) : ¬ t.Reserved := by
  rintro ⟨htype, -⟩
  rw [htype] at h
  cases d <;> simp [DataDirective.tokenType] at h

/-- The names that end a data section include those of the reserved labels. -/
theorem name_not_reserved {t : Token} (h : sectionNames.contains t.value = false) :
    ¬ t.Reserved := by
  rintro ⟨-, hvalue⟩
  rw [Bool.eq_false_iff, ne_eq, List.contains_iff_mem] at h
  exact h (by simp only [sectionNames, List.mem_cons] at hvalue ⊢; tauto)

theorem elementSteps_scans {d : DataDirective}
    (h : Loop.Steps (atElement d) (elementTurn cfg d) p q) :
    Scans cfg (.elements d) p (.elements d) q := by
  induction h with
  | refl p => exact .refl _ _
  | step hcond hbody _ ih =>
    rename_i p _ _ _
    obtain ⟨hend, htype⟩ := atElement_iff.mp hcond
    have hat : Section.at_ (.elements d) p.currentToken = .elements d := if_pos htype
    have hone := Scans.one hend (element_not_reserved htype) (s := .elements d)
      (by rw [hat]; exact hbody)
    rw [Section.next, hat] at hone
    exact hone.trans ih

@[simp] theorem align_rest (a : Word) : (p.align a).rest = p.rest := by
  unfold align
  split <;> rfl

/-- What one round over the elements of a directive does. -/
theorem elementTurn_cases {d : DataDirective} (h : elementTurn cfg d p = .ok q) :
    (p.currentToken.type = d.tokenType ∧
      ((∃ items, elementItems cfg d p.currentToken.value = .ok (some items) ∧
        q = ((p.align d.alignment).place items).nextToken) ∨
      elementItems cfg d p.currentToken.value = .ok none ∧
        ∃ errors, q = { p with rest := p.rest.tail, errors } ∧ p.errors.count < errors.count)) ∨
    p.currentToken.type ≠ d.tokenType ∧ q = p.nextToken := by
  unfold elementTurn at h
  split at h
  · rename_i htype
    obtain ⟨result, hresult, h⟩ := Loop.bind_eq_ok h
    refine .inl ⟨htype, ?_⟩
    cases result with
    | some items =>
      obtain rfl := Except.ok.inj h
      exact .inl ⟨items, hresult, rfl⟩
    | none =>
      obtain rfl := Except.ok.inj h
      exact .inr ⟨hresult, _, rfl, fail_count _ _ _ _ _⟩
  · rename_i htype
    obtain rfl := Except.ok.inj h
    exact .inr ⟨htype, rfl⟩

theorem elementTurn_rest {d : DataDirective} (h : elementTurn cfg d p = .ok q) :
    q.rest = p.rest.tail := by
  rcases elementTurn_cases h with ⟨-, ⟨items, -, rfl⟩ | ⟨-, errors, rfl, -⟩⟩ | ⟨-, rfl⟩
  · simp [nextToken, place]
  · rfl
  · rfl

theorem parseElements_steps {d : DataDirective} (h : p.parseElements cfg d = .ok q) :
    Loop.Steps (atElement d) (elementTurn cfg d) p q ∧ q.atElement d = false := by
  refine Loop.exhaust_steps (fun u v _ hcond hbody => ?_) h
  rw [elementTurn_rest hbody]
  exact (consumed_tail (atElement_iff.mp hcond).1).shorter

theorem elementSteps_suffix {d : DataDirective}
    (h : Loop.Steps (atElement d) (elementTurn cfg d) p q) : q.rest <:+ p.rest := by
  induction h with
  | refl p => exact List.suffix_rfl
  | step hcond hbody _ ih =>
    exact ih.trans (elementTurn_rest hbody ▸ List.tail_suffix _)

/-- What one round in a data section does. -/
theorem dataTurn_cases (h : dataTurn cfg p = .ok q) :
    (p.currentToken.type = .LABEL ∧ q = p.defineDataLabel.nextToken) ∨
    p.currentToken.type ≠ .LABEL ∧
      ((∃ d, DataDirective.ofName p.currentToken.value = some d ∧
        Loop.Steps (atElement d) (elementTurn cfg d) p.nextToken q ∧ q.atElement d = false) ∨
      DataDirective.ofName p.currentToken.value = none ∧
        ∃ errors, q = { p with rest := p.rest.tail, errors } ∧ p.errors.count < errors.count) := by
  unfold dataTurn at h
  split at h
  · rename_i htype
    obtain rfl := Except.ok.inj h
    exact .inl ⟨htype, rfl⟩
  · rename_i htype
    refine .inr ⟨htype, ?_⟩
    split at h
    · rename_i d hd
      obtain ⟨hsteps, hstop⟩ := parseElements_steps h
      exact .inl ⟨d, hd, hsteps, hstop⟩
    · rename_i hnone
      obtain rfl := Except.ok.inj h
      exact .inr ⟨hnone, _, rfl, fail_count _ _ _ _ _⟩

@[simp] theorem defineDataLabel_rest : p.defineDataLabel.rest = p.rest := by
  unfold defineDataLabel
  dsimp only
  split
  · exact align_rest _
  · rfl

theorem dataTurn_consumed (hend : p.notEof = true) (h : dataTurn cfg p = .ok q) :
    p.Consumed q.rest := by
  have htail := consumed_tail hend
  rcases dataTurn_cases h with ⟨-, rfl⟩ | ⟨-, ⟨d, -, hsteps, -⟩ | ⟨-, errors, rfl, -⟩⟩
  · simpa [nextToken] using htail
  · have hsuffix := elementSteps_suffix hsteps
    exact ⟨hsuffix.trans htail.suffix, Nat.lt_of_le_of_lt hsuffix.length_le htail.shorter⟩
  · exact htail

theorem parseDataDirective_steps (h : p.parseDataDirective cfg = .ok q) :
    Loop.Steps inData (dataTurn cfg) p q ∧ q.inData = false := by
  refine Loop.exhaust_steps (fun u v _ hcond hbody => ?_) h
  exact (dataTurn_consumed (inData_iff.mp hcond).2 hbody).shorter

theorem dataSteps_suffix (h : Loop.Steps inData (dataTurn cfg) p q) : q.rest <:+ p.rest := by
  induction h with
  | refl p => exact List.suffix_rfl
  | step hcond hbody _ ih =>
    exact ih.trans (dataTurn_consumed (inData_iff.mp hcond).2 hbody).suffix

theorem dataTurn_scans (hin : p.inData = true) (h : dataTurn cfg p = .ok q) :
    Scans cfg .data p .data q := by
  obtain ⟨hname, hend⟩ := inData_iff.mp hin
  have hreserved := name_not_reserved hname
  have hat : Section.at_ .data p.currentToken = .data := by
    simp only [Section.at_, hname]
    rfl
  rcases dataTurn_cases h with ⟨htype, -⟩ | ⟨htype, ⟨d, hd, hsteps, hstop⟩ | ⟨hnone, -⟩⟩
  · have hone : Scans cfg .data p _ q := Scans.one hend hreserved (by
      rw [hat, scanToken, if_neg (by simp [htype])]
      exact h)
    rw [Section.next, hat, Section.after, if_pos htype] at hone
    exact hone
  · have hone : Scans cfg .data p _ p.nextToken := Scans.one hend hreserved (by
      rw [hat, scanToken, if_pos ⟨htype, by rw [hd]; rfl⟩]
      rfl)
    rw [Section.next, hat, Section.after, if_neg htype, hd] at hone
    refine (hone.trans (elementSteps_scans hsteps)).trans (.handOver fun hend' => ?_)
    have hstop' : ¬ (q.currentToken.type = d.tokenType ∨ q.currentToken.type = .COMMA) := by
      intro h
      rw [atElement_iff.mpr ⟨hend', h⟩] at hstop
      exact nomatch hstop
    simp only [Section.at_, if_neg hstop']
  · have hone : Scans cfg .data p _ q := Scans.one hend hreserved (by
      rw [hat, scanToken, if_neg (by simp [hnone])]
      exact h)
    rw [Section.next, hat, Section.after, if_neg htype, hnone] at hone
    exact hone

theorem dataSteps_scans (h : Loop.Steps inData (dataTurn cfg) p q) :
    Scans cfg .data p .data q := by
  induction h with
  | refl p => exact .refl _ _
  | step hcond hbody _ ih => exact (dataTurn_scans hcond hbody).trans ih

theorem skipTo_stop {values : List String}
    (h : p.notEof = false ∨ values.contains p.currentToken.value = true) : p.skipTo values = p := by
  suffices hrest : p.rest.dropWhile (fun t => t.type != .EOF_ && !values.contains t.value) =
      p.rest by
    simp only [skipTo]
    rw [hrest]
  cases hrest : p.rest with
  | nil => rfl
  | cons t r =>
    apply List.dropWhile_cons_of_neg
    simp only [notEof, currentToken, hrest, List.headD_cons] at h
    rcases h with h | h <;> simp_all

theorem skipTo_next {values : List String} (hend : p.notEof = true)
    (h : values.contains p.currentToken.value = false) :
    p.skipTo values = p.nextToken.skipTo values := by
  have hrest := rest_of_notEof hend
  have hgo : (p.currentToken.type != .EOF_ && !values.contains p.currentToken.value) = true := by
    rw [h, Bool.not_false, Bool.and_true]
    exact hend
  simp only [skipTo, nextToken]
  rw [hrest, List.dropWhile_cons_of_pos (a := p.currentToken) hgo, List.tail_cons]

/-- Skipping to the end of a section of which nothing is kept. -/
theorem skipTo_scans {s : Section} {values : List String}
    (hvalues : ∀ value ∈ ["data", "section", "bss"], value ∈ values)
    (hat : ∀ t, s.at_ t = if values.contains t.value then .outer else s)
    (hafter : ∀ t, s.after t = s) (hscan : ∀ p, scanToken cfg s p = .ok p.nextToken) (p : Parser) :
    Scans cfg s p .outer (p.skipTo values) := by
  by_cases hstop : p.notEof = false ∨ values.contains p.currentToken.value = true
  · rw [skipTo_stop hstop]
    refine .handOver fun hend => ?_
    rw [hat, if_pos (hstop.resolve_left (by simp [hend]))]
    rfl
  · simp only [not_or, Bool.not_eq_false, Bool.not_eq_true] at hstop
    obtain ⟨hend, hname⟩ := hstop
    have hats : s.at_ p.currentToken = s := by rw [hat, hname]; rfl
    have hreserved : ¬ p.currentToken.Reserved := fun h => by
      rw [List.contains_iff_mem.mpr (hvalues _ h.2)] at hname
      exact nomatch hname
    have hone := Scans.one hend hreserved (by rw [hats]; exact hscan p)
    rw [Section.next, hats, hafter] at hone
    rw [skipTo_next hend hname]
    exact hone.trans (skipTo_scans hvalues hat hafter hscan p.nextToken)
termination_by p.rest.length
decreasing_by exact (consumed_tail hend).shorter

theorem lexed_currentToken (hp : LexedTokens p.rest) : p.currentToken.Lexed := by
  cases hrest : p.rest with
  | nil =>
    rw [currentToken, hrest]
    exact Token.lexed_eofToken
  | cons t r =>
    rw [currentToken, hrest]
    exact hp t (hrest ▸ List.mem_cons_self)

theorem opcode_not_reserved {t : Token} (ht : t.Lexed) (htype : t.type = .OPCODE) :
    t.value ∉ ["data", "section", "bss"] := by
  have htable : ∀ name ∈ ["data", "section", "bss"],
      InstructionSet.isValidInstruction name = false := by decide +kernel
  simp only [Token.Lexed, htype] at ht
  intro hmem
  rw [htable t.value hmem] at ht
  cases ht

/-- What one round of the first pass does. -/
inductive FirstStep (cfg : ParserConfig) (p : Parser) : Parser → Prop
  | next (henter : Section.enter p.currentToken = some .outer) : FirstStep cfg p p.nextToken
  | data {q : Parser} (henter : Section.enter p.currentToken = some .data)
      (hsteps : Loop.Steps inData (dataTurn cfg) p.nextToken q) (hstop : q.inData = false) :
      FirstStep cfg p q
  | bss (henter : Section.enter p.currentToken = some .bss) :
      FirstStep cfg p (p.nextToken.skipTo sectionNames)
  | text (henter : Section.enter p.currentToken = some .text) :
      FirstStep cfg p (p.skipTo ["data", "section", "bss"])
  | failed {errors : ErrorTracker} (henter : Section.enter p.currentToken = none)
      (hscan : scanToken cfg .outer p = .ok { p with rest := p.rest.tail, errors })
      (herrors : p.errors.count < errors.count) :
      FirstStep cfg p { p with rest := p.rest.tail, errors }

theorem firstTurn_step (h : firstTurn cfg p = .ok q) : FirstStep cfg p q := by
  have hturn := h
  unfold firstTurn at h
  by_cases hsection : p.atDirective "section" = true
  · obtain ⟨hvalue, htype⟩ := atDirective_iff.mp hsection
    rw [if_pos hsection] at h
    obtain rfl := Except.ok.inj h
    exact .next (by simp [Section.enter, hvalue, htype])
  rw [if_neg hsection] at h
  by_cases hdata : p.atDirective "data" = true
  · obtain ⟨hvalue, htype⟩ := atDirective_iff.mp hdata
    rw [if_pos hdata] at h
    obtain ⟨hsteps, hstop⟩ := parseDataDirective_steps h
    exact .data (by simp [Section.enter, hvalue, htype]) hsteps hstop
  rw [if_neg hdata] at h
  by_cases hbss : p.atDirective "bss" = true
  · obtain ⟨hvalue, htype⟩ := atDirective_iff.mp hbss
    rw [if_pos hbss] at h
    obtain rfl := Except.ok.inj h
    exact .bss (by simp [Section.enter, hvalue, htype])
  rw [if_neg hbss] at h
  rw [atDirective_iff] at hsection hdata hbss
  by_cases htext : p.atDirective "text" = true ∨ p.currentToken.type = .LABEL ∨
      p.currentToken.type = .OPCODE
  · rw [if_pos htext] at h
    obtain rfl := Except.ok.inj h
    refine .text ?_
    rw [atDirective_iff] at htext
    simp only [Section.enter]
    rw [if_neg (fun hc => hsection hc.symm), if_neg (fun hc => hdata hc.symm),
      if_neg (fun hc => hbss hc.symm), if_pos (htext.imp_left And.symm)]
  · rw [if_neg htext] at h
    have hnone : Section.enter p.currentToken = none := by
      rw [atDirective_iff] at htext
      simp only [Section.enter]
      rw [if_neg (fun hc => hsection hc.symm), if_neg (fun hc => hdata hc.symm),
        if_neg (fun hc => hbss hc.symm), if_neg (fun hc => htext (hc.imp_left And.symm))]
    have hscan : scanToken cfg .outer p = .ok q := by
      simp only [scanToken, hnone]
      exact hturn
    obtain rfl := Except.ok.inj h
    exact .failed hnone hscan (fail_count _ _ _ _ _)

/-- The token at which a text section begins is not one that ends it, unless the pass stands
still there. -/
theorem text_not_stop (hlexed : p.currentToken.Lexed) (hreserved : ¬ p.currentToken.Reserved)
    (henter : Section.enter p.currentToken = some .text) :
    ["data", "section", "bss"].contains p.currentToken.value = false := by
  rw [Bool.eq_false_iff, ne_eq, List.contains_iff_mem]
  intro hmem
  by_cases hlabel : p.currentToken.type = .LABEL
  · exact hreserved ⟨hlabel, hmem⟩
  by_cases hop : p.currentToken.type = .OPCODE
  · exact opcode_not_reserved hlexed hop hmem
  unfold Section.enter at henter
  split at henter
  · exact nomatch henter
  · split at henter
    · exact nomatch henter
    · split at henter
      · exact nomatch henter
      · split at henter
        · rename_i htext
          have hvalue := (htext.resolve_right (by simp [hlabel, hop])).2
          rw [hvalue] at hmem
          exact absurd hmem (by decide)
        · exact nomatch henter

theorem scans_enter {s : Section} (hend : p.notEof = true) (hreserved : ¬ p.currentToken.Reserved)
    (henter : Section.enter p.currentToken = some s) : Scans cfg .outer p s p.nextToken := by
  have hone : Scans cfg .outer p _ p.nextToken := Scans.one hend hreserved (by
    simp only [Section.at_, scanToken, henter]
    rfl)
  simpa [Section.next, Section.at_, Section.after, henter] using hone

theorem firstTurn_scans (hend : p.notEof = true) (hlexed : p.currentToken.Lexed)
    (hreserved : ¬ p.currentToken.Reserved) (h : firstTurn cfg p = .ok q) :
    Scans cfg .outer p .outer q ∧ p.Consumed q.rest := by
  have htail := consumed_tail hend
  cases firstTurn_step h with
  | next henter => exact ⟨scans_enter hend hreserved henter, htail⟩
  | data henter hsteps hstop =>
    have hsuffix := dataSteps_suffix hsteps
    refine ⟨((scans_enter hend hreserved henter).trans (dataSteps_scans hsteps)).trans
      (.handOver fun hend' => ?_), hsuffix.trans htail.suffix,
      Nat.lt_of_le_of_lt hsuffix.length_le htail.shorter⟩
    have hname : sectionNames.contains q.currentToken.value = true := by
      by_contra hname
      rw [inData_iff.mpr ⟨by simpa using hname, hend'⟩] at hstop
      exact nomatch hstop
    simp only [Section.at_, hname, if_true]
  | bss henter =>
    have hsuffix : (p.nextToken.skipTo sectionNames).rest <:+ p.rest.tail := List.dropWhile_suffix _
    exact ⟨(scans_enter hend hreserved henter).trans (skipTo_scans (by decide) (fun _ => rfl) (fun _ => rfl)
      (fun _ => rfl) _), hsuffix.trans htail.suffix,
      Nat.lt_of_le_of_lt hsuffix.length_le htail.shorter⟩
  | text henter =>
    have hgo := text_not_stop hlexed hreserved henter
    rw [skipTo_next hend hgo]
    have hsuffix : (p.nextToken.skipTo ["data", "section", "bss"]).rest <:+ p.rest.tail :=
      List.dropWhile_suffix _
    exact ⟨(scans_enter hend hreserved henter).trans (skipTo_scans (by decide) (fun _ => rfl) (fun _ => rfl)
      (fun _ => rfl) _), hsuffix.trans htail.suffix,
      Nat.lt_of_le_of_lt hsuffix.length_le htail.shorter⟩
  | failed henter hscan herrors =>
    have hone := Scans.one hend hreserved (s := .outer) hscan
    exact ⟨by simpa [Section.next, Section.at_, Section.after, henter] using hone, htail⟩

/-- At a reserved label a round of the first pass leaves everything as it is. -/
theorem firstTurn_reserved (h : p.currentToken.Reserved) : firstTurn cfg p = .ok p := by
  obtain ⟨htype, hvalue⟩ := h
  have hdirective (name : String) : p.atDirective name = false := by
    simp [atDirective, htype]
  have hskip : p.skipTo ["data", "section", "bss"] = p :=
    skipTo_stop (.inr (List.contains_iff_mem.mpr hvalue))
  unfold firstTurn
  rw [hdirective, hdirective, hdirective, if_neg Bool.false_ne_true, if_neg Bool.false_ne_true,
    if_neg Bool.false_ne_true,
    if_pos (.inr (.inl htype)), hskip]
  rfl

theorem notEof_of_reserved (h : p.currentToken.Reserved) : p.notEof = true := by
  rw [notEof_iff, h.1]
  decide

theorem not_reserved_of_end (h : p.notEof = false) : ¬ p.currentToken.Reserved := by
  intro hreserved
  rw [notEof_of_reserved hreserved] at h
  exact nomatch h

/-- A run that gets past a token has met no reserved label outside of a section. -/
theorem not_reserved_of_passed (h : Loop.Steps notEof (firstTurn cfg) p q)
    (hpassed : ¬ q.currentToken.Reserved) : ¬ p.currentToken.Reserved := by
  intro hreserved
  induction h with
  | refl p => exact hpassed hreserved
  | step hcond hbody _ ih =>
    rw [firstTurn_reserved hreserved] at hbody
    obtain rfl := Except.ok.inj hbody
    exact ih hpassed hreserved

/-- A first pass that does not stand still is a scan of the tokens. -/
theorem firstSteps_scans (hp : LexedTokens p.rest) (h : Loop.Steps notEof (firstTurn cfg) p q)
    (hpassed : ¬ q.currentToken.Reserved) : Scans cfg .outer p .outer q := by
  induction h with
  | refl p => exact .refl _ _
  | step hcond hbody rest ih =>
    have hreserved := not_reserved_of_passed (.step hcond hbody rest) hpassed
    obtain ⟨hscans, hconsumed⟩ := firstTurn_scans hcond (lexed_currentToken hp) hreserved hbody
    exact hscans.trans (ih (lexed_suffix hp hconsumed.suffix) hpassed)

/-- A scan consumes one token in each round. -/
theorem scanToken_rest {s : Section} (h : scanToken cfg s p = .ok q) :
    q.rest = p.rest.tail := by
  cases s with
  | outer =>
    rw [scanToken] at h
    split at h
    · obtain rfl := Except.ok.inj h
      rfl
    · rename_i hnone
      cases firstTurn_step h with
      | failed => rfl
      | next henter => rw [hnone] at henter; exact nomatch henter
      | data henter => rw [hnone] at henter; exact nomatch henter
      | bss henter => rw [hnone] at henter; exact nomatch henter
      | text henter => rw [hnone] at henter; exact nomatch henter
  | text => obtain rfl := Except.ok.inj h; rfl
  | bss => obtain rfl := Except.ok.inj h; rfl
  | data =>
    rw [scanToken] at h
    split at h
    · obtain rfl := Except.ok.inj h
      rfl
    · rename_i hother
      rcases dataTurn_cases h with ⟨-, rfl⟩ | ⟨htype, ⟨d, hd, -⟩ | ⟨-, errors, rfl, -⟩⟩
      · simp [nextToken]
      · exact absurd ⟨htype, by rw [hd]; rfl⟩ hother
      · rfl
  | elements d => exact elementTurn_rest h

/-- Every element of a data directive among `tokens` can be converted. -/
def ElementsConvert (cfg : ParserConfig) (s : Section) (tokens : List Token) : Prop :=
  ∀ l t r, tokens = l ++ t :: r → ∀ d, (s.run l).at_ t = .elements d → t.type = d.tokenType →
    ∃ items, elementItems cfg d t.value = .ok items

/-- What a scan has consumed. -/
structure Scanned (cfg : ParserConfig) (s : Section) (p : Parser) (s' : Section) (q : Parser)
    (tokens : List Token) : Prop where
  rest : p.rest = tokens ++ q.rest
  run : s' = s.run tokens
  scanning : ∀ t ∈ tokens, t.type ≠ .EOF_ ∧ ¬ t.Reserved
  convert : ElementsConvert cfg s tokens

theorem Scan.scanned {s s' : Section} (h : Scan cfg (s, p) (s', q)) :
    ∃ tokens, Scanned cfg s p s' q tokens := by
  generalize hx : (s, p) = x at h
  generalize hy : (s', q) = y at h
  induction h generalizing s p with
  | refl x =>
    obtain ⟨rfl, rfl⟩ := Prod.mk.inj (hx.trans hy.symm)
    exact ⟨[], rfl, rfl, nofun, fun l t r heq => absurd heq (by simp)⟩
  | step hcond hbody _ ih =>
    subst hx hy
    rename_i x _
    obtain ⟨hend, hreserved⟩ := scanning_iff.mp hcond
    obtain ⟨hs, htoken⟩ := scanTurn_eq_ok hbody
    have hrest := rest_of_notEof hend
    have htail := scanToken_rest htoken
    obtain ⟨tokens, htokens⟩ := ih (s := x.1) (p := x.2) rfl rfl
    refine ⟨p.currentToken :: tokens, ?_, ?_, ?_, fun l t r heq d hat htype => ?_⟩
    · rw [hrest, List.cons_append, ← htokens.rest, htail]
    · rw [htokens.run, hs]
      rfl
    · intro t ht
      rcases List.mem_cons.mp ht with rfl | ht
      · exact ⟨notEof_iff.mp hend, hreserved⟩
      · exact htokens.scanning t ht
    · cases l with
      | nil =>
        obtain ⟨rfl, -⟩ := List.cons.inj heq
        change s.at_ _ = _ at hat
        rw [hat] at htoken
        rcases elementTurn_cases htoken with ⟨-, ⟨items, hitems, -⟩ | ⟨hitems, -⟩⟩ | ⟨hne, -⟩
        · exact ⟨_, hitems⟩
        · exact ⟨_, hitems⟩
        · exact absurd htype hne
      | cons u l =>
        obtain ⟨rfl, htail⟩ := List.cons.inj heq
        refine htokens.convert l t r htail d ?_ htype
        rw [hs]
        exact hat

/-- A scan stops with an error at an element that cannot be converted. -/
def FailsAt (cfg : ParserConfig) (s : Section) (p : Parser) : Prop :=
  ∃ s' u d e, Scan cfg (s, p) (s', u) ∧ u.notEof = true ∧ s'.at_ u.currentToken = .elements d ∧
    u.currentToken.type = d.tokenType ∧ elementItems cfg d u.currentToken.value = .error e

theorem FailsAt.of_scans {s s' : Section} (h : Scans cfg s p s' q) (h' : FailsAt cfg s' q) :
    FailsAt cfg s p := by
  obtain ⟨s₁, hsteps, hs₁⟩ := h
  obtain ⟨s₂, u, d, e, hsteps', hend, hat, htype, hitems⟩ := h'
  cases hsteps' with
  | refl => exact ⟨s₁, q, d, e, hsteps, hend, by rw [hs₁ hend, hat], htype, hitems⟩
  | step hcond hbody rest =>
    rw [← scanTurn_congr (hs₁ (scanning_iff.mp hcond).1)] at hbody
    exact ⟨s₂, u, d, e, hsteps.trans (.step hcond hbody rest), hend, hat, htype, hitems⟩

theorem elementTurn_error {d : DataDirective} {e : Thrown} (hin : p.atElement d = true)
    (h : elementTurn cfg d p = .error e) : FailsAt cfg (.elements d) p := by
  obtain ⟨hend, htype⟩ := atElement_iff.mp hin
  unfold elementTurn at h
  split at h
  · rename_i helement
    cases hitems : elementItems cfg d p.currentToken.value with
    | error e' => exact ⟨_, p, d, e', .refl _, hend, if_pos htype, helement, hitems⟩
    | ok items =>
      rw [hitems] at h
      cases items <;> exact nomatch h
  · exact nomatch h

theorem dataTurn_error {e : Thrown} (hin : p.inData = true) (h : dataTurn cfg p = .error e) :
    FailsAt cfg .data p := by
  obtain ⟨hname, hend⟩ := inData_iff.mp hin
  have hat : Section.at_ .data p.currentToken = .data := by
    simp only [Section.at_, hname]
    rfl
  unfold dataTurn at h
  split at h
  · exact nomatch h
  · rename_i htype
    split at h
    · rename_i d hd
      obtain ⟨u, hsteps, hcond, herror⟩ := Loop.exhaust_error h
      have hone : Scans cfg .data p _ p.nextToken :=
        Scans.one hend (name_not_reserved hname) (by
          rw [hat, scanToken, if_pos ⟨htype, by rw [hd]; rfl⟩]
          rfl)
      rw [Section.next, hat, Section.after, if_neg htype, hd] at hone
      exact .of_scans (hone.trans (elementSteps_scans hsteps)) (elementTurn_error hcond herror)
    · exact nomatch h

theorem firstTurn_error {e : Thrown} (hend : p.notEof = true) (h : firstTurn cfg p = .error e) :
    FailsAt cfg .outer p := by
  unfold firstTurn at h
  split at h
  · exact nomatch h
  split at h
  · rename_i hdata
    obtain ⟨hvalue, htype⟩ := atDirective_iff.mp hdata
    obtain ⟨u, hsteps, hcond, herror⟩ := Loop.exhaust_error h
    have hreserved : ¬ p.currentToken.Reserved := fun h => by
      rw [h.1] at htype
      exact nomatch htype
    have henter : Section.enter p.currentToken = some .data := by
      simp [Section.enter, hvalue, htype]
    exact .of_scans ((scans_enter hend hreserved henter).trans (dataSteps_scans hsteps))
      (dataTurn_error hcond herror)
  split at h
  · exact nomatch h
  split at h
  · exact nomatch h
  · exact nomatch h

end Parser

end RiscvSim
