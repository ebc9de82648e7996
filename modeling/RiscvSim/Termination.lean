import RiscvSim.Sections

/-! When the parser comes to an end. Every round of its loops consumes a token, except at a label
whose name is also the name of a section: the text loop of the first pass stops there, and the
outer loop enters the text loop again. -/

namespace RiscvSim

namespace Parser

variable {cfg : ParserConfig} {p q : Parser} {tokens : List Token}

/-- The parser returns or throws. -/
def Terminates (cfg : ParserConfig) (tokens : List Token) : Prop :=
  ∃ turns, (∃ q, parse cfg turns tokens = .ok (.done q)) ∨ ∃ e, parse cfg turns tokens = .error e

/-- Every round of an outer loop consumes a token: of the first pass, in a data section, of the
second pass and in a text section. -/
structure RoundsConsume (cfg : ParserConfig) (tokens : List Token) : Prop where
  first : ∀ p q, Loop.Steps notEof (firstTurn cfg) (initial tokens) p → p.notEof = true →
    firstTurn cfg p = .ok q → p.Consumed q.rest
  data : ∀ p q, p.rest <:+ tokens → p.inData = true → dataTurn cfg p = .ok q → p.Consumed q.rest
  second : ∀ p q, p.rest <:+ tokens → p.notEof = true → secondTurn cfg p = .ok q →
    p.Consumed q.rest
  text : ∀ p q, p.rest <:+ tokens → p.inText = true → textTurn cfg p = .ok q → p.Consumed q.rest

/-- Before every reserved label there is an element that cannot be converted. -/
def ReservedUnreached (cfg : ParserConfig) (tokens : List Token) : Prop :=
  ∀ l t r, tokens = l ++ t :: r → (∀ u ∈ l, u.type ≠ .EOF_) → t.Reserved →
    ¬ ElementsConvert cfg .outer l

theorem Scans.scanned {s s' : Section} (h : Scans cfg s p s' q) :
    ∃ s₁ tokens, Scanned cfg s p s₁ q tokens := by
  obtain ⟨s₁, hscan, -⟩ := h
  exact ⟨s₁, hscan.scanned⟩

theorem Scans.suffix {s s' : Section} (h : Scans cfg s p s' q) : q.rest <:+ p.rest := by
  obtain ⟨s₁, l, hl⟩ := h.scanned
  exact ⟨l, hl.rest.symm⟩

theorem not_reserved_of_unreached {s : Section} (hu : ReservedUnreached cfg tokens)
    (h : Scans cfg .outer (initial tokens) s p) : ¬ p.currentToken.Reserved := by
  intro hreserved
  obtain ⟨s₁, l, hl⟩ := h.scanned
  have hrest := rest_of_notEof (notEof_of_reserved hreserved)
  refine hu l p.currentToken p.rest.tail ?_ (fun u hu => (hl.scanning u hu).1) hreserved hl.convert
  rw [← hrest]
  exact hl.rest

/-- Where no reserved label is reached, the first pass is a scan up to each of its rounds. -/
theorem firstSteps_scans_of_unreached (hlexed : LexedTokens tokens)
    (hu : ReservedUnreached cfg tokens) (hp : Scans cfg .outer (initial tokens) .outer p)
    (h : Loop.Steps notEof (firstTurn cfg) p q) :
    Scans cfg .outer (initial tokens) .outer q := by
  induction h with
  | refl p => exact hp
  | step hcond hbody _ ih =>
    have hcurrent := lexed_currentToken (lexed_suffix (p := initial tokens) hlexed hp.suffix)
    have hreserved := not_reserved_of_unreached hu hp
    exact ih (hp.trans (firstTurn_scans hcond hcurrent hreserved hbody).1)

theorem firstTurn_consumed_of_unreached (hlexed : LexedTokens tokens)
    (hu : ReservedUnreached cfg tokens)
    (h : Loop.Steps notEof (firstTurn cfg) (initial tokens) p) (hend : p.notEof = true)
    (hturn : firstTurn cfg p = .ok q) : p.Consumed q.rest := by
  have hscans := firstSteps_scans_of_unreached hlexed hu (.refl _ _) h
  have hcurrent := lexed_currentToken (lexed_suffix (p := initial tokens) hlexed hscans.suffix)
  exact (firstTurn_scans hend hcurrent (not_reserved_of_unreached hu hscans) hturn).2

theorem roundsConsume_of_unreached (hlexed : LexedTokens tokens)
    (hu : ReservedUnreached cfg tokens) : RoundsConsume cfg tokens where
  first _ _ h hend hturn := firstTurn_consumed_of_unreached hlexed hu h hend hturn
  data _ _ _ hin hturn := dataTurn_consumed (inData_iff.mp hin).2 hturn
  second _ _ hsuffix hend hturn :=
    secondTurn_consumed (lexed_suffix (p := initial tokens) hlexed hsuffix) hend hturn
  text _ _ hsuffix hin hturn :=
    (textTurn_step (lexed_suffix (p := initial tokens) hlexed hsuffix) hin hturn).consumed
      (inText_notEof hin)

theorem terminates_of_roundsConsume (h : RoundsConsume cfg tokens) : Terminates cfg tokens := by
  refine ⟨tokens.length + 1, ?_⟩
  have hyield : ∀ p, firstPass cfg (tokens.length + 1) (initial tokens) ≠ .ok (.yield p) :=
    Loop.run_while_ne_yield (fun p => p.rest.length)
    (fun p q hsteps hend hturn => (h.first p q hsteps hend hturn).shorter) (Nat.lt_succ_self _)
  cases hfirst : firstPass cfg (tokens.length + 1) (initial tokens) with
  | error e => exact .inr ⟨e, by rw [parse, hfirst]; rfl⟩
  | ok r =>
    cases r with
    | yield p => exact absurd hfirst (hyield p)
    | done p =>
      cases hsecond : secondPass cfg p.restart with
      | error e => exact .inr ⟨e, by rw [parse, hfirst, Loop.bind_ok]; simp only [hsecond]; rfl⟩
      | ok q => exact .inl ⟨_, by rw [parse, hfirst, Loop.bind_ok]; simp only [hsecond]; rfl⟩

/-- How the first pass of a parse ended. -/
theorem firstPass_of_terminates (h : Terminates cfg tokens) :
    ∃ p, Loop.Steps notEof (firstTurn cfg) (initial tokens) p ∧
      (p.notEof = false ∨ p.notEof = true ∧ ∃ e, firstTurn cfg p = .error e) := by
  obtain ⟨turns, h⟩ := h
  cases hfirst : firstPass cfg turns (initial tokens) with
  | error e =>
    obtain ⟨p, hsteps, hcond, hturn⟩ := Loop.run_steps.2.2 e hfirst
    exact ⟨p, hsteps, .inr ⟨hcond, e, hturn⟩⟩
  | ok r =>
    cases r with
    | done p =>
      obtain ⟨hsteps, hend⟩ := Loop.run_steps.1 p hfirst
      exact ⟨p, hsteps, .inl hend⟩
    | yield p =>
      rw [parse, hfirst, Loop.bind_ok] at h
      rcases h with ⟨q, h⟩ | ⟨e, h⟩ <;> exact nomatch h

/-- A scan does not get past a reserved label. -/
theorem Scanned.before {s s' : Section} {l r tokens : List Token} {t : Token}
    (h : Scanned cfg s p s' q tokens) (hrest : p.rest = l ++ t :: r) (ht : t.Reserved) :
    ∃ m, l = tokens ++ m ∧ q.rest = m ++ t :: r := by
  rcases List.append_eq_append_iff.mp (hrest.symm.trans h.rest) with ⟨m, hm, hq⟩ | h
  · cases m with
    | nil => exact ⟨[], by simpa using hm.symm, hq.symm⟩
    | cons u m =>
      obtain ⟨rfl, -⟩ := List.cons.inj hq
      exact absurd ht (h.scanning t (by simp [hm])).2
  · exact h

theorem unreached_of_terminates (hlexed : LexedTokens tokens) (h : Terminates cfg tokens) :
    ReservedUnreached cfg tokens := by
  intro l t r hsplit hl ht hconvert
  obtain ⟨p, hsteps, hend | ⟨hend, e, hturn⟩⟩ := firstPass_of_terminates h
  · obtain ⟨s, tokens', hscanned⟩ :=
      (firstSteps_scans (p := initial tokens) hlexed hsteps (not_reserved_of_end hend)).scanned
    obtain ⟨m, rfl, hrest⟩ := hscanned.before hsplit ht
    have hstop : p.currentToken.type ≠ .EOF_ := by
      rw [currentToken, hrest]
      cases m with
      | nil => simp [ht.1]
      | cons u m => exact hl u (by simp)
    rw [notEof_iff.mpr hstop] at hend
    cases hend
  · have hreserved : ¬ p.currentToken.Reserved := fun h => by
      rw [firstTurn_reserved h] at hturn
      cases hturn
    obtain ⟨s, u, d, e, hscan, hend, hat, htype, hitems⟩ := FailsAt.of_scans
      (firstSteps_scans (p := initial tokens) hlexed hsteps hreserved) (firstTurn_error hend hturn)
    obtain ⟨tokens', hscanned⟩ := hscan.scanned
    obtain ⟨m, rfl, hrest⟩ := hscanned.before hsplit ht
    rw [rest_of_notEof hend] at hrest
    cases m with
    | nil =>
      obtain ⟨hu, -⟩ := List.cons.inj hrest
      rw [hu, ht.1] at htype
      cases d <;> cases htype
    | cons v m =>
      obtain ⟨rfl, -⟩ := List.cons.inj hrest
      rw [hscanned.run] at hat
      obtain ⟨items, hok⟩ := hconvert tokens' _ m rfl d hat htype
      rw [hok] at hitems
      cases hitems

/-- The parser comes to an end, and all its rounds consume a token, if and only if it reaches no
label named like a section. -/
theorem parse_terminates_iff (hlexed : LexedTokens tokens) :
    Terminates cfg tokens ∧ RoundsConsume cfg tokens ↔ ReservedUnreached cfg tokens := by
  refine ⟨fun h => unreached_of_terminates hlexed h.1, fun hu => ?_⟩
  have hrounds := roundsConsume_of_unreached hlexed hu
  exact ⟨terminates_of_roundsConsume hrounds, hrounds⟩

/-- A label in the text section that is not the name of a section. -/
theorem parse_terminates_iff_label :
    Terminates ParserConfig.default [⟨.LABEL, "text", 1, 1⟩, ⟨.OPCODE, "nop", 2, 1⟩] ∧
      RoundsConsume ParserConfig.default [⟨.LABEL, "text", 1, 1⟩, ⟨.OPCODE, "nop", 2, 1⟩] := by
  have hmem (t : Token) (ht : t ∈ [⟨.LABEL, "text", 1, 1⟩, ⟨.OPCODE, "nop", 2, 1⟩]) :
      t = ⟨.LABEL, "text", 1, 1⟩ ∨ t = ⟨.OPCODE, "nop", 2, 1⟩ := by simpa using ht
  refine (parse_terminates_iff fun t ht => ?_).mpr fun l t r heq _ ht => ?_
  · rcases hmem t ht with rfl | rfl
    · simp [Token.Lexed]
    · change InstructionSet.isValidInstruction "nop" = true
      decide +kernel
  · rcases hmem t (by rw [heq]; simp) with rfl | rfl <;> exact absurd ht (by decide)

/-- `data:` on a line of its own. -/
def sectionLabel : List Token := [⟨.LABEL, "data", 1, 1⟩, ⟨.EOF_, "", 1, 6⟩]

theorem not_terminates_sectionLabel :
    LexedTokens sectionLabel ∧ ¬ Terminates ParserConfig.default sectionLabel := by
  have hlexed : LexedTokens sectionLabel := by
    intro t ht
    simp only [sectionLabel, List.mem_cons, List.not_mem_nil, or_false] at ht
    rcases ht with rfl | rfl <;> simp [Token.Lexed]
  refine ⟨hlexed, fun h => ?_⟩
  exact unreached_of_terminates hlexed h [] _ _ rfl (by simp) (by decide) fun l t r heq =>
    absurd heq (by simp)

end Parser

end RiscvSim
