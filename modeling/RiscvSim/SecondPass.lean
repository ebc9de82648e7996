import RiscvSim.Procedures
import RiscvSim.SourceLines
import RiscvSim.StatementLines
import RiscvSim.Templates

/-! The second pass between two statements: the units, their lines and those that are still to be
patched are in step, and every statement leaves the parser at the beginning of a line. -/

namespace RiscvSim

namespace Parser

variable {cfg : ParserConfig} {floatText : String → Except Thrown String}
  {source : List (List Char)} {tokens : List Token} {p q v w p₀ : Parser}

/-- What the second pass keeps about the indices of the units. -/
structure Tracked (p : Parser) : Prop where
  index : p.instructionIndex = p.intermediateCode.length
  lines : ∀ i, p.instructionNumberLineNumberMapping i =
    p.intermediateCode[i]?.map fun e => e.1.lineNumber
  increasing : p.backPatch.Pairwise (· < ·)
  pending : ∀ i, i ∈ p.backPatch ↔ ∃ u, p.intermediateCode[i]? = some (u, false)

theorem enterLines_eq {lines : Nat → Option Nat} {code units : List (ICUnit × Bool)}
    (h : ∀ i, lines i = code[i]?.map fun e => e.1.lineNumber) (i : Nat) :
    enterLines lines code.length units i = (code ++ units)[i]?.map fun e => e.1.lineNumber := by
  induction units generalizing lines code with
  | nil => rw [enterLines, h, List.append_nil]
  | cons e units ih =>
    have hlength : code.length + 1 = (code ++ [e]).length := by simp
    have hcode : code ++ e :: units = code ++ [e] ++ units := by simp
    rw [enterLines, hlength, hcode]
    refine ih fun j => ?_
    rcases Nat.lt_trichotomy j code.length with hj | hj | hj
    · rw [if_neg (by omega), h, List.getElem?_append_left hj]
    · rw [if_pos hj, hj, List.getElem?_concat_length]
      rfl
    · rw [if_neg (by omega), h, List.getElem?_eq_none (by omega),
        List.getElem?_eq_none (by simp; omega)]

/-- A statement leaves its unit to be patched exactly if its flag is false. -/
theorem Emission.pending {units : List (ICUnit × Bool)} {back : List Nat}
    (h : Emission p units back) (i : Nat) :
    p.instructionIndex + i ∈ back ↔ ∃ u, units[i]? = some (u, false) := by
  cases h with
  | plain h =>
    refine ⟨fun hi => absurd hi List.not_mem_nil, ?_⟩
    rintro ⟨u, hu⟩
    exact absurd (h u false (List.mem_of_getElem? hu)).1 (by decide)
  | linked h hgood hsymbol htext himm =>
    refine ⟨fun hi => absurd hi List.not_mem_nil, ?_⟩
    rintro ⟨u, hu⟩
    cases i with
    | zero => cases hu
    | succ i => cases hu
  | deferred h =>
    cases i with
    | zero => simp
    | succ i => simp

theorem Emission.back {units : List (ICUnit × Bool)} {back : List Nat}
    (h : Emission p units back) : back = [] ∨ back = [p.instructionIndex] := by
  cases h with
  | plain h => exact .inl rfl
  | linked h hgood hsymbol htext himm => exact .inl rfl
  | deferred h => exact .inr rfl

theorem Tracked.lt (h : p.Tracked) {i : Nat} (hi : i ∈ p.backPatch) : i < p.instructionIndex := by
  obtain ⟨u, hu⟩ := (h.pending i).mp hi
  rw [h.index]
  exact (List.getElem?_eq_some_iff.mp hu).1

theorem Tracked.after (h : p.Tracked) {r : List Token} {units : List (ICUnit × Bool)}
    {back : List Nat} (hemission : Emission p units back) : (p.after r units back).Tracked where
  index := by
    show p.instructionIndex + units.length = (p.intermediateCode ++ units).length
    rw [h.index, List.length_append]
  lines i := by
    show enterLines _ p.instructionIndex units i = _
    rw [h.index]
    exact enterLines_eq h.lines i
  increasing := by
    show (p.backPatch ++ back).Pairwise (· < ·)
    rcases hemission.back with hback | hback
    · rw [hback, List.append_nil]
      exact h.increasing
    · rw [hback, List.pairwise_append]
      refine ⟨h.increasing, List.pairwise_singleton _ _, fun i hi j hj => ?_⟩
      obtain rfl := List.mem_singleton.mp hj
      exact h.lt hi
  pending i := by
    show i ∈ p.backPatch ++ back ↔ ∃ u, (p.intermediateCode ++ units)[i]? = some (u, false)
    rw [List.mem_append]
    rcases Nat.lt_or_ge i p.intermediateCode.length with hi | hi
    · have hnew : i ∉ back := by
        rcases hemission.back with hback | hback
        · simp [hback]
        · rw [hback, List.mem_singleton, h.index]
          omega
      rw [List.getElem?_append_left hi, ← h.pending i]
      simp [hnew]
    · have hold : i ∉ p.backPatch := fun hmem => by
        have := h.lt hmem
        rw [h.index] at this
        omega
      have hunit := hemission.pending (i - p.intermediateCode.length)
      rw [h.index, Nat.add_sub_cancel' hi] at hunit
      rw [List.getElem?_append_right hi, ← hunit]
      simp [hold]

theorem textInvariant_tracked (p₀ : Parser) : TextInvariant cfg p₀ Tracked where
  skip _ _ _ h _ := ⟨h.index, h.lines, h.increasing, h.pending⟩
  step p q _ h hstep := by
    cases hstep with
    | label htype hnew => exact ⟨h.index, h.lines, h.increasing, h.pending⟩
    | failed hr herrors => exact ⟨h.index, h.lines, h.increasing, h.pending⟩
    | emitted hr hemission => exact h.after hemission

/-- The heads of the loops of the second pass: between two sections, and in front of a label or a
statement. -/
inductive PassPoint (cfg : ParserConfig) (p₀ v : Parser) : Prop
  | outside (h : Loop.Steps notEof (secondTurn cfg) p₀ v)
  | inside (h : TextVisit cfg p₀ v)

theorem PassPoint.invariant {P : Parser → Prop} (hv : PassPoint cfg p₀ v)
    (h₀ : LexedTokens p₀.rest) (hP : TextInvariant cfg p₀ P) (hs : P p₀) : P v := by
  cases hv with
  | outside h => exact hP.secondSteps h₀ (.refl p₀) h hs
  | inside h => exact hP.visit h₀ h hs

theorem entersText_suffix (hend : w.notEof = true) (h : w.entersText = some v) :
    v.rest <:+ w.rest ∧ v.intermediateCode = w.intermediateCode := by
  unfold entersText at h
  split at h
  · obtain rfl := Option.some.inj h
    exact ⟨(consumed_tail hend).suffix, rfl⟩
  · split at h
    · obtain rfl := Option.some.inj h
      exact ⟨List.suffix_rfl, rfl⟩
    · cases h

theorem PassPoint.suffix (hv : PassPoint cfg p₀ v) (h₀ : LexedTokens p₀.rest) :
    v.rest <:+ p₀.rest := by
  cases hv with
  | outside h => exact secondSteps_suffix h₀ h
  | inside h =>
    obtain ⟨s, s', hsteps, hend, henter, htext⟩ := h
    have hs := secondSteps_suffix h₀ hsteps
    have hs' := (entersText_suffix hend henter).1.trans hs
    exact (textSteps_suffix (lexed_suffix h₀ hs') htext).trans hs'

theorem PassPoint.ordered (hv : PassPoint cfg p₀ v) (h₀ : LexedTokens p₀.rest)
    (hstart : p₀.CodeOrdered) : v.CodeOrdered := by
  cases hv with
  | outside h => exact hstart.secondSteps h₀ h
  | inside h =>
    obtain ⟨s, s', hsteps, hend, henter, htext⟩ := h
    obtain ⟨hsuffix, hcode⟩ := entersText_suffix hend henter
    have hs' := hsuffix.trans (secondSteps_suffix h₀ hsteps)
    exact ((hstart.secondSteps h₀ hsteps).skip hcode hsuffix).textSteps (lexed_suffix h₀ hs') htext

/-- What holds between two statements. -/
structure BetweenStatements (p : Parser) : Prop where
  index : p.instructionIndex = p.intermediateCode.length
  mapped : ∀ i, (p.instructionNumberLineNumberMapping i).isSome = true ↔ i < p.instructionIndex
  ordered : ∀ i j m n, i ≤ j → p.instructionNumberLineNumberMapping i = some m →
    p.instructionNumberLineNumberMapping j = some n → m ≤ n
  increasing : p.backPatch.Pairwise (· < ·)
  pending : ∀ i, i ∈ p.backPatch ↔ ∃ u, p.intermediateCode[i]? = some (u, false)

theorem Tracked.between (h : p.Tracked) (hordered : p.CodeOrdered) : p.BetweenStatements where
  index := h.index
  mapped i := by
    rw [h.lines, h.index, Option.isSome_map]
    simp
  ordered i j m n hij hm hn := by
    rw [h.lines] at hm hn
    obtain ⟨e, he, rfl⟩ := Option.map_eq_some_iff.mp hm
    obtain ⟨f, hf, rfl⟩ := Option.map_eq_some_iff.mp hn
    rcases Nat.lt_or_eq_of_le hij with hlt | rfl
    · obtain ⟨hi, rfl⟩ := List.getElem?_eq_some_iff.mp he
      obtain ⟨hj, rfl⟩ := List.getElem?_eq_some_iff.mp hf
      exact List.pairwise_iff_getElem.mp hordered.code i j hi hj hlt
    · rw [he] at hf
      rw [Option.some.inj hf]
  increasing := h.increasing
  pending := h.pending

theorem BeginsSecond.start (hlexed : LexedTokens tokens) (h : BeginsSecond cfg tokens p) :
    Untouched (initial tokens) p ∧ p.rest = tokens := by
  obtain ⟨turns, u, hfirst, rfl⟩ := h
  obtain ⟨hsteps, hstop⟩ := Loop.run_steps.1 u hfirst
  obtain ⟨s, hscan, -⟩ := firstSteps_scans (p := initial tokens) hlexed hsteps
    (not_reserved_of_end hstop)
  have huntouched := hscan.untouched
  exact ⟨⟨huntouched.tokens, rfl, huntouched.backPatch, huntouched.intermediateCode,
    huntouched.lines⟩, huntouched.tokens⟩

theorem Untouched.tracked (h : Untouched (initial tokens) p) : p.Tracked where
  index := by
    rw [h.instructionIndex, h.intermediateCode]
    rfl
  lines i := by
    rw [h.lines, h.intermediateCode]
    rfl
  increasing := by
    rw [h.backPatch]
    exact List.Pairwise.nil
  pending i := by
    rw [h.backPatch, h.intermediateCode]
    simp [initial]

/-- The position is at the end, or at the first token of a line after the given one. -/
def AtLaterLine (tokens : List Token) (line : Nat) (q : Parser) : Prop :=
  q.notEof = true → line < q.currentToken.lineNumber ∧
    ∃ before, tokens = before ++ q.rest ∧ ∀ t ∈ before, t.lineNumber < q.currentToken.lineNumber

theorem skipCurrentLine_later (hordered : LinesOrdered tokens) (hsuffix : v.rest <:+ tokens)
    (hend : v.notEof = true) (hrest : q.rest = v.skipCurrentLine.rest) :
    q.AtLaterLine tokens v.currentToken.lineNumber := by
  intro hq
  obtain ⟨before, htokens⟩ := hsuffix
  generalize hline : v.rest.takeWhile (fun t =>
    t.lineNumber == v.currentToken.lineNumber && t.type != .EOF_) = taken
  have hsplit : v.rest = taken ++ q.rest := by
    rw [hrest, ← hline]
    exact List.takeWhile_append_dropWhile.symm
  have hcurrent : v.currentToken ∈ taken := by
    have hhead := notEof_iff.mp hend
    rw [← hline, rest_of_notEof hend, List.takeWhile_cons_of_pos (by simpa using hhead)]
    exact List.mem_cons_self
  have hnext := rest_of_notEof hq
  have hother : q.currentToken.lineNumber ≠ v.currentToken.lineNumber := by
    have hstop : ¬ ((q.currentToken.lineNumber == v.currentToken.lineNumber &&
        q.currentToken.type != .EOF_) = true) := by
      have hdrop := List.head?_dropWhile_not
        (fun t : Token => t.lineNumber == v.currentToken.lineNumber && t.type != .EOF_) v.rest
      rw [show v.rest.dropWhile _ = q.rest from hrest.symm, hnext] at hdrop
      simpa using hdrop
    have hqend := notEof_iff.mp hq
    simpa [hqend] using hstop
  rw [← htokens, hsplit, ← List.append_assoc] at hordered
  obtain ⟨-, -, hbefore⟩ := List.pairwise_append.mp hordered
  have hmem : q.currentToken ∈ q.rest := by
    rw [hnext]
    exact List.mem_cons_self
  have hlater : v.currentToken.lineNumber < q.currentToken.lineNumber :=
    Nat.lt_of_le_of_ne (hbefore _ (List.mem_append_right _ hcurrent) _ hmem) hother.symm
  refine ⟨hlater, before ++ taken, by rw [← htokens, hsplit, List.append_assoc], fun t ht => ?_⟩
  rcases List.mem_append.mp ht with ht | ht
  · rw [List.append_assoc] at hordered
    have hle := (List.pairwise_append.mp hordered).2.2 t ht _ (List.mem_append_left _ hcurrent)
    exact Nat.lt_of_le_of_lt hle hlater
  · have hsame := List.mem_takeWhile_imp (hline ▸ ht)
    simp only [Bool.and_eq_true, beq_iff_eq] at hsame
    rw [hsame.1]
    exact hlater

/-- The units that are not resolved are at the given indices. -/
def Unresolved (p : Parser) (back : List Nat) : Prop :=
  ∀ i u, p.intermediateCode[i]? = some (u, false) → i ∈ back

theorem Unresolved.setUnit {i : Nat} {back : List Nat} (h : p.Unresolved (i :: back)) (u : ICUnit) :
    (p.setUnit i (u, true)).Unresolved back := by
  intro j v hv
  rw [setUnit_get] at hv
  split at hv
  · obtain ⟨e, -, he⟩ := Option.map_eq_some_iff.mp hv
    cases he
  · rename_i hne
    exact (List.mem_cons.mp (h j v hv)).resolve_left fun heq => hne heq.symm

theorem patchOffset_resolves {i : Nat} {back : List Nat} {u : ICUnit} {address : Word}
    {low high : Int} {expected : String} (h : p.Unresolved (i :: back))
    (hcount : (p.patchOffset i u address low high expected).errors.count = p.errors.count) :
    (p.patchOffset i u address low high expected).Unresolved back := by
  unfold patchOffset at hcount ⊢
  dsimp only at hcount ⊢
  split
  · exact h.setUnit _
  · rename_i hrange
    rw [if_neg hrange] at hcount
    simp only [failWith, recordError] at hcount
    omega

/-- A patch that records no error resolves the unit at its index. -/
theorem patch_resolves {i : Nat} {back : List Nat} (h : p.Unresolved (i :: back))
    (hcount : (p.patch i).errors.count = p.errors.count) : (p.patch i).Unresolved back := by
  have herror (u : ICUnit) (message subMessage : String) :
      p.errors.count < (p.invalidReference u message subMessage).errors.count := by
    simp only [invalidReference, failWith, recordError]
    omega
  unfold patch at hcount ⊢
  cases hunit : p.intermediateCode[i]? with
  | none =>
    intro j v hv
    refine (List.mem_cons.mp (h j v hv)).resolve_left fun heq => ?_
    rw [heq, hunit] at hv
    cases hv
  | some entry =>
    obtain ⟨u, b⟩ := entry
    rw [hunit] at hcount
    dsimp only at hcount ⊢
    cases hsymbol : p.symbolTable u.label with
    | none =>
      rw [hsymbol] at hcount
      exact absurd hcount (Nat.ne_of_gt (herror _ _ _))
    | some symbol =>
      rw [hsymbol] at hcount
      dsimp only at hcount ⊢
      split at hcount
      · rename_i hbranch
        rw [if_pos hbranch]
        split at hcount
        · rename_i hdata
          rw [if_pos hdata]
          exact patchOffset_resolves h hcount
        · exact absurd hcount (Nat.ne_of_gt (herror _ _ _))
      · rename_i hbranch
        rw [if_neg hbranch]
        split at hcount
        · rename_i hjump
          rw [if_pos hjump]
          exact patchOffset_resolves h hcount
        · exact absurd hcount (Nat.ne_of_gt (herror _ _ _))

theorem patches_resolve {back : List Nat} (h : p.Unresolved back)
    (hcount : (back.foldl patch p).errors.count = p.errors.count) :
    (back.foldl patch p).Unresolved [] := by
  induction back generalizing p with
  | nil => exact h
  | cons i back ih =>
    have hfirst : (p.patch i).errors.count = p.errors.count := by
      have hone := patch_count (p := p) i
      have hrest := patches_count (p := p.patch i) back
      rw [List.foldl_cons] at hcount
      omega
    exact ih (patch_resolves h hfirst) (by rw [hfirst]; exact hcount)

theorem patch_mapping (i : Nat) :
    (p.patch i).instructionNumberLineNumberMapping = p.instructionNumberLineNumberMapping := by
  have hoffset (u : ICUnit) (address : Word) (low high : Int) (expected : String) :
      (p.patchOffset i u address low high expected).instructionNumberLineNumberMapping =
        p.instructionNumberLineNumberMapping := by
    unfold patchOffset
    dsimp only
    split
    · rfl
    · rfl
  unfold patch
  split
  · rfl
  · split
    · split
      · split
        · exact hoffset _ _ _ _ _
        · rfl
      · split
        · exact hoffset _ _ _ _ _
        · rfl
    · rfl

theorem patches_mapping (back : List Nat) :
    (back.foldl patch p).instructionNumberLineNumberMapping =
      p.instructionNumberLineNumberMapping := by
  induction back generalizing p with
  | nil => rfl
  | cons i back ih => exact ih.trans (patch_mapping i)

theorem Accepted.tracked {r : Parser} (hlexed : LexedTokens tokens)
    (h : Accepted cfg tokens p r q) : r.Tracked := by
  obtain ⟨s, hscan⟩ := h.scan
  have huntouched := hscan.untouched
  exact h.text hlexed (textInvariant_tracked _) (Untouched.tracked ⟨huntouched.tokens, rfl,
    huntouched.backPatch, huntouched.intermediateCode, huntouched.lines⟩)

/-- The map from which the map of the lines is made: each instruction with its line. -/
theorem Accepts.mapping (hlexed : LexedTokens tokens) (h : Accepts cfg tokens q) (i : Nat) :
    q.instructionNumberLineNumberMapping i = q.instructionLines[i]? := by
  obtain ⟨p, r, haccepted⟩ := accepted_of_accepts hlexed h
  rw [haccepted.patched, patches_mapping, patches_lines, (haccepted.tracked hlexed).lines,
    instructionLines, List.getElem?_map]

theorem Accepts.resolved (hlexed : LexedTokens tokens) (h : Accepts cfg tokens q) :
    ∀ e ∈ q.intermediateCode, e.2 = true := by
  obtain ⟨p, r, haccepted⟩ := accepted_of_accepts hlexed h
  have htracked := haccepted.tracked hlexed
  have hunresolved : r.Unresolved r.backPatch := fun i u hu => (htracked.pending i).mpr ⟨u, hu⟩
  have hpatches := patches_resolve hunresolved
    (by rw [← haccepted.patched, haccepted.count, haccepted.errors])
  rw [← haccepted.patched] at hpatches
  rintro ⟨u, b⟩ he
  obtain ⟨i, hi⟩ := List.mem_iff_getElem?.mp he
  cases b with
  | true => rfl
  | false => exact absurd (hpatches i u hi) List.not_mem_nil

theorem Procedure.parseSyntax_false {s : InstructionSet.SyntaxType}
    (h : (Procedure.parseSyntax cfg s).run v = .ok (false, q)) : q = v := by
  rw [Procedure.parseSyntax_computes s] at h
  obtain ⟨o, -, h⟩ := Loop.bind_eq_ok h
  cases o with
  | none => exact (congrArg Prod.snd (Except.ok.inj h)).symm
  | some r => cases h

theorem Procedure.parseSyntax_true {s : InstructionSet.SyntaxType} (hend : v.notEof = true)
    (h : (Procedure.parseSyntax cfg s).run v = .ok (true, q)) :
    q.rest = v.skipCurrentLine.rest := by
  rw [Procedure.parseSyntax_computes s] at h
  obtain ⟨o, ho, h⟩ := Loop.bind_eq_ok h
  cases o with
  | none => cases h
  | some r =>
    obtain rfl : r = q := congrArg Prod.snd (Except.ok.inj h)
    exact (parseSyntax_line s _ ho r rfl).1.rest_eq hend

/-- Between two statements the units, their lines and the list of those to be patched are in
step. A syntax that does not fit leaves the parser as it was, any other leaves it at the beginning
of a later line, and without an error all units are resolved in the end. -/
theorem secondPass_between (htokens : Lexer.getTokenList floatText source = .ok tokens) :
    (∀ p v, BeginsSecond cfg tokens p → PassPoint cfg p v →
      v.BetweenStatements ∧
      (∀ s q, (Procedure.parseSyntax cfg s).run v = .ok (false, q) → q = v) ∧
      ∀ s q, v.currentToken.type = .OPCODE →
        (Procedure.parseSyntax cfg s).run v = .ok (true, q) →
          q.AtLaterLine tokens v.currentToken.lineNumber) ∧
    ∀ q, Accepts cfg tokens q → ∀ e ∈ q.intermediateCode, e.2 = true := by
  have hlexed := Lexer.getTokenList_lexed htokens
  have hordered := Lexer.getTokenList_ordered htokens
  refine ⟨fun p v hbegins hv => ?_, fun q h => h.resolved hlexed⟩
  obtain ⟨huntouched, hrest⟩ := hbegins.start hlexed
  have h₀ : LexedTokens p.rest := hrest ▸ hlexed
  have hstart : p.CodeOrdered :=
    ⟨huntouched.intermediateCode ▸ List.Pairwise.nil, hrest ▸ hordered,
      by rw [huntouched.intermediateCode]; simp [initial]⟩
  have htracked := hv.invariant h₀ (textInvariant_tracked p) huntouched.tracked
  refine ⟨htracked.between (hv.ordered h₀ hstart), fun s q h => Procedure.parseSyntax_false h, ?_⟩
  intro s q hop h
  have hend : v.notEof = true := notEof_iff.mpr (by rw [hop]; decide)
  have hsuffix : v.rest <:+ tokens := hrest ▸ hv.suffix h₀
  exact skipCurrentLine_later hordered hsuffix hend (Procedure.parseSyntax_true hend h)

/-- A branch over an instruction. -/
def branchSource : List (List Char) :=
  ["beq x1,x2,done", "nop", "done: nop"].map String.toList

theorem exists_begins (h : Accepts cfg tokens q) : ∃ p, BeginsSecond cfg tokens p := by
  obtain ⟨⟨turns, hparse⟩, -⟩ := h
  obtain ⟨result, hfirst, hparse⟩ := Loop.bind_eq_ok hparse
  cases result with
  | yield p => cases hparse
  | done p => exact ⟨p.restart, turns, p, hfirst, rfl⟩

theorem secondPass_between_branch : ∃ tokens p q,
    Lexer.getTokenList noFloat branchSource = .ok tokens ∧
    BeginsSecond .default tokens p ∧ p.BetweenStatements ∧
    Accepts .default tokens q ∧ ∀ e ∈ q.intermediateCode, e.2 = true := by
  obtain ⟨tokens, hlist⟩ : ∃ tokens : List Token, tokens =
    [⟨.OPCODE, "beq", 1, 1⟩, ⟨.GP_REGISTER, "x1", 1, 5⟩, ⟨.COMMA, ",", 1, 7⟩,
      ⟨.GP_REGISTER, "x2", 1, 8⟩, ⟨.COMMA, ",", 1, 10⟩, ⟨.LABEL_REF, "done", 1, 11⟩,
      ⟨.OPCODE, "nop", 2, 1⟩, ⟨.LABEL, "done", 3, 1⟩, ⟨.OPCODE, "nop", 3, 7⟩, ⟨.EOF_, "", 3, 10⟩] :=
    ⟨_, rfl⟩
  obtain ⟨q, hq⟩ : ∃ q, Accepts .default tokens q := accepts_of_parse (n := 9) (by
    rw [hlist]
    decide +kernel)
  have htokens : Lexer.getTokenList noFloat branchSource = .ok tokens := by
    rw [hlist]
    decide +kernel
  obtain ⟨p, hp⟩ := exists_begins hq
  have hbetween := (secondPass_between htokens).1 p p hp (.outside (.refl p))
  exact ⟨tokens, p, q, htokens, hp, hbetween.1, hq, (secondPass_between htokens).2 q hq⟩

/-- The function that is not called returns true without having read anything. -/
theorem parseOGprCGprCDl_stays : ∃ tokens p,
    Lexer.getTokenList noFloat ["nop".toList] = .ok tokens ∧
    BeginsSecond .default tokens p ∧ PassPoint .default p p ∧ p.currentToken.type = .OPCODE ∧
    Procedure.parseOGprCGprCDl.run p = .ok (true, p) ∧
    ¬ p.AtLaterLine tokens p.currentToken.lineNumber := by
  have htokens : Lexer.getTokenList noFloat ["nop".toList] =
      .ok [⟨.OPCODE, "nop", 1, 1⟩, ⟨.EOF_, "", 1, 4⟩] := by decide +kernel
  have hlexed := Lexer.getTokenList_lexed htokens
  obtain ⟨q, hq⟩ : ∃ q, Accepts .default [⟨.OPCODE, "nop", 1, 1⟩, ⟨.EOF_, "", 1, 4⟩] q :=
    accepts_of_parse (n := 9) (by decide +kernel)
  obtain ⟨p, hp⟩ := exists_begins hq
  obtain ⟨-, hrest⟩ := hp.start hlexed
  have htype : p.currentToken.type = .OPCODE := by
    rw [currentToken, hrest]
    rfl
  refine ⟨_, p, htokens, hp, .outside (.refl p), htype, rfl, fun h => ?_⟩
  exact absurd (h (notEof_iff.mpr (by rw [htype]; decide))).1 (Nat.lt_irrefl _)

end Parser

end RiscvSim
