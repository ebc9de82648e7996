import RiscvSim.ParallelParses
import RiscvSim.StatementLines
import RiscvSim.Termination

/-! Programs that differ in the contents of the literals of their `.string` directives. The skip
loops of both passes compare the values of the tokens without a look at their types, so a literal
that is named like a section can end one. -/

namespace RiscvSim

/-- Whether the next token, if it is a literal, is given to a `.string` directive. -/
def Token.gives (given : Bool) (t : Token) : Bool :=
  (t.type == .DIRECTIVE && t.value == "string") ||
    (given && (t.type == .STRING || t.type == .COMMA))

/-- The token is a literal of a `.string` directive. -/
def Token.isLiteral (given : Bool) (t : Token) : Bool := given && t.type == .STRING

theorem Token.isLiteral_iff {given : Bool} {t : Token} :
    t.isLiteral given = true ↔ given = true ∧ t.type = .STRING := by
  simp [Token.isLiteral]

/-- The tokens without their columns and without the contents of the literals. -/
def blanked (given : Bool) : List Token → List Token
  | [] => []
  | t :: rest =>
    if t.type = .EOF_ then (t :: rest).map fun t => { t with columnNumber := 0 }
    else { t with value := if t.isLiteral given then "" else t.value, columnNumber := 0 } ::
      blanked (t.gives given) rest

/-- Two programs that differ only in the contents of their literals. -/
def DifferInLiterals (tokens tokens' : List Token) : Prop :=
  blanked false tokens' = blanked false tokens

instance (tokens tokens' : List Token) : Decidable (DifferInLiterals tokens tokens') :=
  inferInstanceAs (Decidable (_ = _))

/-- The numbers of bytes of the literals. -/
def literalSizes (given : Bool) : List Token → List Nat
  | [] => []
  | t :: rest =>
    (if t.isLiteral given then [(parseEscapedString t.value.toList).length] else []) ++
      literalSizes (t.gives given) rest

/-- No literal ends the part of the program that the first pass is in before the tokens, and none
is the name of the text section. -/
def LiteralsPassed (s : Section) (given : Bool) : List Token → Prop
  | [] => True
  | t :: rest => t.type ≠ .EOF_ →
    (t.isLiteral given = true → t.value ≠ "text" ∧
      (s ≠ .elements .string → t.value ∉ ["data", "section", "bss"])) ∧
    LiteralsPassed (s.next t) (t.gives given) rest

instance decideLiteralsPassed : (s : Section) → (given : Bool) → (tokens : List Token) →
    Decidable (LiteralsPassed s given tokens)
  | _, _, [] => .isTrue trivial
  | s, given, t :: rest =>
    have := decideLiteralsPassed (s.next t) (t.gives given) rest
    inferInstanceAs (Decidable (t.type ≠ .EOF_ → _ ∧ _))

/-- After a `.string` directive and its literals the first pass is in its elements, or in a part of
the program that it skips. -/
def Section.Steady (s : Section) (given : Bool) : Prop :=
  given = true → s ≠ .data ∧ ∀ d, s = .elements d → d = .string

/-- A literal or a comma begins no section. -/
theorem Section.after_outer {t : Token} (h : t.type = .STRING ∨ t.type = .COMMA) :
    Section.after .outer t = .outer := by
  rcases h with h | h <;> simp [Section.after, Section.enter, h]

theorem Section.Steady.next {s : Section} {given : Bool} (h : s.Steady given) (t : Token) :
    (s.next t).Steady (t.gives given) := by
  intro hgives
  simp only [Token.gives, Bool.or_eq_true, Bool.and_eq_true, beq_iff_eq] at hgives
  rcases hgives with ⟨htype, hvalue⟩ | ⟨hgiven, htype⟩
  · -- the directive itself
    have hname : DataDirective.ofName "string" = some .string := rfl
    cases s with
    | outer => simp [Section.next, Section.at_, Section.after, Section.enter, htype, hvalue]
    | text => simp [Section.next, Section.at_, Section.after, hvalue]
    | bss => simp [Section.next, Section.at_, Section.after, Parser.sectionNames, hvalue]
    | data =>
      simp [Section.next, Section.at_, Section.after, Parser.sectionNames, htype, hvalue, hname]
    | elements d =>
      have hother : ¬ (t.type = d.tokenType ∨ t.type = .COMMA) := by
        rw [htype]
        cases d <;> simp [DataDirective.tokenType]
      simp only [Section.next, Section.at_, if_neg hother, Parser.sectionNames, hvalue]
      simp [Section.after, htype, hname, hvalue]
  · obtain ⟨hdata, helements⟩ := h hgiven
    have houter := Section.after_outer htype
    cases s with
    | outer => simp [Section.next, Section.at_, houter]
    | text =>
      simp only [Section.next, Section.at_]
      split
      · simp [houter]
      · simp [Section.after]
    | bss =>
      simp only [Section.next, Section.at_]
      split
      · simp [houter]
      · simp [Section.after]
    | data => exact absurd rfl hdata
    | elements d =>
      obtain rfl := helements d rfl
      have hat : t.type = DataDirective.string.tokenType ∨ t.type = .COMMA := htype
      simp only [Section.next, Section.at_, if_pos hat]
      simp [Section.after]

/-- Tokens in the same place of two programs that differ in their literals. -/
structure Token.SameButLiteral (given : Bool) (t t' : Token) : Prop where
  type : t'.type = t.type
  line : t'.lineNumber = t.lineNumber
  value : t.isLiteral given = false → t'.value = t.value

theorem Token.SameButLiteral.isLiteral {given : Bool} {t t' : Token}
    (h : t.SameButLiteral given t') : t'.isLiteral given = t.isLiteral given := by
  rw [Token.isLiteral, Token.isLiteral, h.type]

theorem Token.SameButLiteral.gives {given : Bool} {t t' : Token} (h : t.SameButLiteral given t') :
    t'.gives given = t.gives given := by
  unfold Token.gives
  rw [h.type]
  by_cases hliteral : t.isLiteral given = true
  · have htype := (Token.isLiteral_iff.mp hliteral).2
    rw [htype, show (TokenType.STRING == .DIRECTIVE) = false from rfl, Bool.false_and,
      Bool.false_and]
  · rw [h.value (by simpa using hliteral)]

section

variable {given : Bool} {t t' : Token} {l l' : List Token}

theorem blanked_cons (h : blanked given (t' :: l') = blanked given (t :: l)) :
    t.SameButLiteral given t' ∧
      (t.type ≠ .EOF_ → blanked (t.gives given) l' = blanked (t.gives given) l) ∧
      (t.type = .EOF_ → (l'.map fun t => { t with columnNumber := 0 }) =
        l.map fun t => { t with columnNumber := 0 }) := by
  have htype : t'.type = t.type := by
    have hfirst (u : Token) (r : List Token) :
        ((blanked given (u :: r)).head?.map Token.type) = some u.type := by
      unfold blanked
      split <;> rfl
    have heq := hfirst t' l'
    rw [h, hfirst] at heq
    exact (Option.some.inj heq).symm
  unfold blanked at h
  by_cases hend : t.type = .EOF_
  · rw [if_pos hend, if_pos (htype.trans hend)] at h
    obtain ⟨hhead, htail⟩ := List.cons.inj h
    have hline := congrArg Token.lineNumber hhead
    have hvalue := congrArg Token.value hhead
    exact ⟨⟨htype, hline, fun _ => hvalue⟩, fun hne => absurd hend hne, fun _ => htail⟩
  · rw [if_neg hend, if_neg (by rw [htype]; exact hend)] at h
    obtain ⟨hhead, htail⟩ := List.cons.inj h
    have hsame : t.SameButLiteral given t' := by
      have hline := congrArg Token.lineNumber hhead
      refine ⟨htype, hline, fun hliteral => ?_⟩
      have hvalue := congrArg Token.value hhead
      have hliteral' : t'.isLiteral given = false := by
        rw [← hliteral, Token.isLiteral, Token.isLiteral, htype]
      simpa only [hliteral, hliteral', Bool.false_eq_true, if_false] using hvalue
    rw [hsame.gives] at htail
    exact ⟨hsame, fun _ => htail, fun heof => absurd heof hend⟩

theorem blanked_length (given : Bool) (l : List Token) : (blanked given l).length = l.length := by
  induction l generalizing given with
  | nil => rfl
  | cons t l ih =>
    unfold blanked
    split
    · simp
    · simp [ih]

theorem nil_iff_of_blanked (h : blanked given l' = blanked given l) : l' = [] ↔ l = [] := by
  have hlength := congrArg List.length h
  rw [blanked_length, blanked_length] at hlength
  rw [← List.length_eq_zero_iff, ← List.length_eq_zero_iff, hlength]

end

/-- What is left of two programs that differ in their literals, none of which ends the part that
the first pass is in. -/
structure Abreast (sized : Prop) (s : Section) (given : Bool) (l l' : List Token) : Prop where
  blanked : blanked given l' = blanked given l
  passed : LiteralsPassed s given l
  passed' : LiteralsPassed s given l'
  steady : s.Steady given
  sizes : sized → literalSizes given l' = literalSizes given l

namespace Abreast

variable {sized : Prop} {s : Section} {given : Bool} {t t' : Token} {l l' : List Token}

theorem nil_iff (h : Abreast sized s given l l') : l' = [] ↔ l = [] :=
  nil_iff_of_blanked h.blanked

theorem same (h : Abreast sized s given (t :: l) (t' :: l')) : t.SameButLiteral given t' :=
  (blanked_cons h.blanked).1

/-- The same loop of the first pass consumes the tokens. -/
theorem at_eq (h : Abreast sized s given (t :: l) (t' :: l')) (hend : t.type ≠ .EOF_) :
    s.at_ t' = s.at_ t := by
  have htype := h.same.type
  by_cases hliteral : t.isLiteral given = true
  · have hliteral' := h.same.isLiteral.trans hliteral
    have hstring := Token.isLiteral_iff.mp hliteral
    obtain ⟨htext, hother⟩ := (h.passed hend).1 hliteral
    obtain ⟨htext', hother'⟩ := (h.passed' (by rw [htype]; exact hend)).1 hliteral'
    obtain ⟨hdata, helements⟩ := h.steady hstring.1
    cases s with
    | outer => rfl
    | text =>
      have hno := hother (by simp)
      have hno' := hother' (by simp)
      simp only [Section.at_, List.contains_eq_mem, hno, hno', decide_false]
    | bss =>
      have hno := hother (by simp)
      have hno' := hother' (by simp)
      simp only [List.mem_cons, not_or] at hno hno'
      simp [Section.at_, Parser.sectionNames, htext, htext', hno, hno']
    | data => exact absurd rfl hdata
    | elements d =>
      obtain rfl := helements d rfl
      have hat : t.type = DataDirective.string.tokenType := hstring.2
      simp only [Section.at_, htype, hat, true_or, if_true]
  · have hvalue := h.same.value (by simpa using hliteral)
    unfold Section.at_
    rw [htype, hvalue]

/-- Only the elements of a `.string` directive have a literal, and what is skipped. -/
theorem not_literal_in_data (h : Abreast sized s given (t :: l) (t' :: l'))
    (hat : s.at_ t = .data ∨ ∃ d ≠ .string, s.at_ t = .elements d) : t.isLiteral given = false := by
  by_contra hliteral
  have hstring := Token.isLiteral_iff.mp (Bool.not_eq_false _ ▸ hliteral)
  obtain ⟨hdata, helements⟩ := h.steady hstring.1
  cases s with
  | outer => simp [Section.at_] at hat
  | text =>
    simp only [Section.at_] at hat
    split at hat <;> simp at hat
  | bss =>
    simp only [Section.at_] at hat
    split at hat <;> simp at hat
  | data => exact hdata rfl
  | elements d =>
    obtain rfl := helements d rfl
    have htype : t.type = DataDirective.string.tokenType := hstring.2
    simp [Section.at_, htype] at hat

theorem enter_eq (h : Abreast sized s given (t :: l) (t' :: l')) :
    Section.enter t' = Section.enter t := by
  by_cases hliteral : t.isLiteral given = true
  · have htype := (Token.isLiteral_iff.mp hliteral).2
    simp [Section.enter, h.same.type, htype]
  · unfold Section.enter
    rw [h.same.type, h.same.value (by simpa using hliteral)]

theorem next_eq (h : Abreast sized s given (t :: l) (t' :: l')) (hend : t.type ≠ .EOF_) :
    s.next t' = s.next t := by
  unfold Section.next
  rw [h.at_eq hend]
  cases hat : s.at_ t with
  | outer => rw [Section.after, Section.after, h.enter_eq]
  | data =>
    have hvalue := h.same.value (h.not_literal_in_data (.inl hat))
    rw [Section.after, Section.after, h.same.type, hvalue]
  | text => rfl
  | bss => rfl
  | elements d => rfl

theorem tail (h : Abreast sized s given (t :: l) (t' :: l')) (hend : t.type ≠ .EOF_) :
    Abreast sized (s.next t) (t.gives given) l l' := by
  have hgives := h.same.gives
  have hpassed := (h.passed' (by rw [h.same.type]; exact hend)).2
  rw [h.next_eq hend, hgives] at hpassed
  refine ⟨(blanked_cons h.blanked).2.1 hend, (h.passed hend).2, hpassed, h.steady.next t,
    fun hsized => ?_⟩
  have hsizes := h.sizes hsized
  rw [literalSizes, literalSizes, hgives, h.same.isLiteral] at hsizes
  split at hsizes
  · exact (List.cons.inj hsizes).2
  · exact hsizes

/-- The literals have the same sizes. -/
theorem size_eq (h : Abreast sized s given (t :: l) (t' :: l')) (hsized : sized)
    (hliteral : t.isLiteral given = true) : (parseEscapedString t'.value.toList).length =
      (parseEscapedString t.value.toList).length := by
  have hsizes := h.sizes hsized
  rw [literalSizes, literalSizes, if_pos hliteral, if_pos (h.same.isLiteral.trans hliteral)]
    at hsizes
  exact (List.cons.inj hsizes).1

end Abreast

namespace Parser

variable {cfg : ParserConfig} {p q p' q' : Parser} {sized : Prop} {s : Section} {given : Bool}

/-- A token that begins no section is an error outside of one. -/
theorem firstTurn_fails (hnone : Section.enter p.currentToken = none)
    (h : firstTurn cfg p = .ok q) : p.errors.count < q.errors.count := by
  cases firstTurn_step h with
  | failed _ _ herrors => exact herrors
  | next henter => rw [hnone] at henter; cases henter
  | data henter => rw [hnone] at henter; cases henter
  | bss henter => rw [hnone] at henter; cases henter
  | text henter => rw [hnone] at henter; cases henter

/-- A data label of the one program and of the other. -/
def Moved (sized : Prop) (a b : SymbolData) : Prop :=
  b = { a with address := b.address } ∧ (sized → b.address = a.address)

/-- The first passes of the two programs have come to the same place. -/
structure Level (sized : Prop) (s : Section) (given : Bool) (p q : Parser) : Prop where
  rest : Abreast sized s given p.rest q.rest
  count : q.errors.count = p.errors.count
  index : sized → q.dataIndex = p.dataIndex
  symbols : ∀ n, Option.Rel (Moved sized) (p.symbolTable n) (q.symbolTable n)

namespace Level

theorem cons (h : Level sized s given p q) (hend : p.notEof = true) :
    Abreast sized s given (p.currentToken :: p.rest.tail) (q.currentToken :: q.rest.tail) := by
  have hp := rest_of_notEof hend
  have hq : q.rest = q.currentToken :: q.rest.tail := by
    cases hrest : q.rest with
    | nil =>
      rw [h.rest.nil_iff.mp hrest] at hp
      cases hp
    | cons t l => simp [currentToken, hrest]
  rw [← hp, ← hq]
  exact h.rest

theorem scanning (h : Level sized s given p q) (hscanning : p.scanning = true) :
    q.scanning = true := by
  obtain ⟨hend, hreserved⟩ := scanning_iff.mp hscanning
  have hsame := (h.cons hend).same
  refine scanning_iff.mpr ⟨?_, ?_⟩
  · rw [notEof_iff, hsame.type]
    exact notEof_iff.mp hend
  · rintro ⟨htype, hvalue⟩
    rw [hsame.type] at htype
    have hliteral : p.currentToken.isLiteral given = false := by
      simp [Token.isLiteral, htype]
    rw [hsame.value hliteral] at hvalue
    exact hreserved ⟨htype, hvalue⟩

theorem notEof (h : Level sized s given p q) (hend : p.notEof = false) : q.notEof = false := by
  cases hp : p.rest with
  | nil =>
    have hq := h.rest.nil_iff.mpr hp
    simp [Parser.notEof, currentToken, hq, eofToken]
  | cons t l =>
    cases hq : q.rest with
    | nil => simp [Parser.notEof, currentToken, hq, eofToken]
    | cons t' l' =>
      have hpair := h.rest
      rw [hp, hq] at hpair
      simp only [Parser.notEof, currentToken, hp, hq, List.headD_cons] at hend ⊢
      rw [hpair.same.type]
      exact hend

/-- The parsers after one more token. -/
theorem next (h : Level sized s given p q) (hend : p.notEof = true)
    (hp : p'.rest = p.rest.tail) (hq : q'.rest = q.rest.tail)
    (hcount : q'.errors.count = p'.errors.count) (hindex : sized → q'.dataIndex = p'.dataIndex)
    (hsymbols : ∀ n, Option.Rel (Moved sized) (p'.symbolTable n) (q'.symbolTable n)) :
    Level sized (s.next p.currentToken) (p.currentToken.gives given) p' q' := by
  refine ⟨?_, hcount, hindex, hsymbols⟩
  rw [hp, hq]
  exact (h.cons hend).tail (notEof_iff.mp hend)

theorem skip (h : Level sized s given p q) (hend : p.notEof = true) :
    Level sized (s.next p.currentToken) (p.currentToken.gives given) p.nextToken q.nextToken :=
  h.next hend rfl rfl h.count h.index h.symbols

theorem align (h : Level sized s given p q) (a : Word) :
    Level sized s given (p.align a) (q.align a) := by
  obtain ⟨i, hi⟩ := align_eq (p := p) a
  obtain ⟨j, hj⟩ := align_eq (p := q) a
  have hindex (hsized : sized) : (q.align a).dataIndex = (p.align a).dataIndex := by
    unfold Parser.align
    rw [h.index hsized]
    split
    · rfl
    · exact h.index hsized
  rw [hi, hj] at hindex ⊢
  exact ⟨h.rest, h.count, hindex, h.symbols⟩

theorem define (h : Level sized s given p q) (n : String) (line : Nat) :
    Level sized s given (p.define n ⟨p.dataIndex, line, true⟩)
      (q.define n ⟨q.dataIndex, line, true⟩) := by
  refine ⟨h.rest, h.count, h.index, fun m => ?_⟩
  simp only [Parser.define]
  split
  · exact .some ⟨rfl, h.index⟩
  · exact h.symbols m

/-- Elements of the same size are placed. -/
theorem place (h : Level sized s given p q) {items items' : List DataItem}
    (hitems : sized → (items'.map DataItem.size).sum = (items.map DataItem.size).sum) :
    Level sized s given (p.place items) (q.place items') := by
  refine ⟨h.rest, h.count, fun hsized => ?_, h.symbols⟩
  simp only [Parser.place, hitems hsized, h.index hsized]

/-- After a label comes no literal. -/
theorem peek_value (h : Level sized s given p q) (hend : p.notEof = true)
    (htype : p.currentToken.type = .LABEL) : (q.peekToken 1).value = (p.peekToken 1).value := by
  have htail := (h.cons hend).tail (notEof_iff.mp hend)
  have hgives : p.currentToken.gives given = false := by simp [Token.gives, htype]
  rw [hgives] at htail
  simp only [peekToken, List.drop_one]
  cases hp : p.rest.tail with
  | nil => rw [htail.nil_iff.mpr hp]
  | cons t l =>
    cases hq : q.rest.tail with
    | nil => rw [htail.nil_iff.mp hq] at hp; cases hp
    | cons t' l' =>
      rw [hp, hq] at htail
      exact htail.same.value rfl

theorem defineDataLabel (h : Level sized s given p q) (hend : p.notEof = true)
    (htype : p.currentToken.type = .LABEL)
    (hcount : p.defineDataLabel.errors.count = p.errors.count) :
    Level sized s given p.defineDataLabel q.defineDataLabel := by
  have hsame := (h.cons hend).same
  have hvalue := hsame.value (by simp [Token.isLiteral, htype])
  unfold Parser.defineDataLabel at hcount ⊢
  rw [h.peek_value hend htype, hvalue, hsame.line]
  cases hd : DataDirective.ofName (p.peekToken 1).value with
  | some d => exact (h.align d.alignment).define _ _
  | none =>
    rw [hd] at hcount
    exact absurd hcount (Nat.ne_of_gt (fail_count _ _ _ _ _))

/-- The elements of a directive in the two programs. -/
theorem elementItems (h : Level sized s given p q) (hend : p.notEof = true) {d : DataDirective}
    (hat : s.at_ p.currentToken = .elements d) {items : List DataItem}
    (hitems : Parser.elementItems cfg d p.currentToken.value = .ok (some items)) :
    ∃ items', Parser.elementItems cfg d q.currentToken.value = .ok (some items') ∧
      (sized → (items'.map DataItem.size).sum = (items.map DataItem.size).sum) := by
  by_cases hliteral : p.currentToken.isLiteral given = true
  · have hd : d = .string := by
      by_contra hd
      rw [(h.cons hend).not_literal_in_data (.inr ⟨d, hd, hat⟩)] at hliteral
      cases hliteral
    subst hd
    refine ⟨_, rfl, fun hsized => ?_⟩
    obtain rfl := Option.some.inj (Except.ok.inj hitems)
    have hsize := (h.cons hend).size_eq hsized hliteral
    simpa [DataItem.size] using hsize
  · rw [(h.cons hend).same.value (by simpa using hliteral)]
    exact ⟨items, hitems, fun _ => rfl⟩

/-- The same turn of the second program, if the first records no error in its turn. -/
theorem step (h : Level sized s given p q) (hscanning : p.scanning = true)
    (hp : scanToken cfg (s.at_ p.currentToken) p = .ok p')
    (hcount : p'.errors.count = p.errors.count) :
    ∃ q', scanToken cfg (s.at_ q.currentToken) q = .ok q' ∧
      Level sized (s.next p.currentToken) (p.currentToken.gives given) p' q' := by
  have hend := (scanning_iff.mp hscanning).1
  have hpair := h.cons hend
  have hsame := hpair.same
  rw [hpair.at_eq (notEof_iff.mp hend)]
  cases hat : s.at_ p.currentToken with
  | outer =>
    rw [hat, scanToken] at hp
    rw [scanToken, hpair.enter_eq]
    cases henter : Section.enter p.currentToken with
    | some _ =>
      rw [henter] at hp
      obtain rfl := Except.ok.inj hp
      exact ⟨_, rfl, h.skip hend⟩
    | none =>
      rw [henter] at hp
      exact absurd hcount (Nat.ne_of_gt (firstTurn_fails henter hp))
  | text =>
    rw [hat] at hp
    obtain rfl := Except.ok.inj hp
    exact ⟨_, rfl, h.skip hend⟩
  | bss =>
    rw [hat] at hp
    obtain rfl := Except.ok.inj hp
    exact ⟨_, rfl, h.skip hend⟩
  | data =>
    have hvalue := hsame.value (hpair.not_literal_in_data (.inl hat))
    rw [hat, scanToken] at hp
    rw [scanToken, hsame.type, hvalue]
    split at hp
    · rename_i hdirective
      obtain rfl := Except.ok.inj hp
      rw [if_pos hdirective]
      exact ⟨_, rfl, h.skip hend⟩
    · rename_i hother
      rw [if_neg hother]
      rcases dataTurn_cases hp with ⟨htype, rfl⟩ | ⟨htype, ⟨d, hd, -⟩ | ⟨-, errors, rfl, herrors⟩⟩
      · refine ⟨q.defineDataLabel.nextToken, ?_, ?_⟩
        · unfold dataTurn
          rw [if_pos (hsame.type.trans htype)]
          rfl
        · have hdefine := h.defineDataLabel hend htype hcount
          exact h.next hend (by simp [nextToken]) (by simp [nextToken]) hdefine.count
            hdefine.index hdefine.symbols
      · exact absurd ⟨htype, by rw [hd]; rfl⟩ hother
      · exact absurd hcount (Nat.ne_of_gt herrors)
  | elements d =>
    rw [hat, scanToken] at hp
    rw [scanToken]
    unfold elementTurn
    rw [hsame.type]
    rcases elementTurn_cases hp with ⟨htype, ⟨items, hitems, rfl⟩ | ⟨-, errors, rfl, herrors⟩⟩ |
      ⟨htype, rfl⟩
    · obtain ⟨items', hitems', hsize⟩ := h.elementItems hend hat hitems
      rw [if_pos htype, hitems']
      refine ⟨_, rfl, ?_⟩
      have hplace := (h.align d.alignment).place hsize
      exact h.next hend (by simp [nextToken, Parser.place]) (by simp [nextToken, Parser.place])
        hplace.count hplace.index hplace.symbols
    · exact absurd hcount (Nat.ne_of_gt herrors)
    · rw [if_neg htype]
      exact ⟨_, rfl, h.skip hend⟩

end Level

/-- Errors of a scan are never taken back. -/
theorem scan_count {x y : Section × Parser} (h : Scan cfg x y) :
    x.2.errors.count ≤ y.2.errors.count := Scan.count (s := x.1) (p := x.2) h

/-- A scan of the one program without an error is one of the other. -/
theorem Level.scan {x y : Section × Parser} (hscan : Scan cfg x y)
    (hcount : y.2.errors.count = x.2.errors.count) (h : Level sized x.1 given x.2 q) :
    ∃ q' given', Scan cfg (x.1, q) (y.1, q') ∧ Level sized y.1 given' y.2 q' := by
  induction hscan generalizing q given with
  | refl x => exact ⟨q, given, .refl _, h⟩
  | @step x y z hcond hbody rest ih =>
    obtain ⟨s, p⟩ := x
    obtain ⟨t, p'⟩ := y
    obtain ⟨ht, htoken⟩ := scanTurn_eq_ok hbody
    obtain rfl : t = s.next p.currentToken := ht
    have hfirst : p.errors.count ≤ p'.errors.count := scan_count (.step hcond hbody (.refl _))
    have hrest : p'.errors.count ≤ z.2.errors.count := scan_count rest
    change z.2.errors.count = p.errors.count at hcount
    change Level sized s given p q at h
    change scanToken cfg (s.at_ p.currentToken) p = .ok p' at htoken
    obtain ⟨q', hq', hlevel⟩ := h.step hcond htoken (by omega)
    have hnext := (h.cons (scanning_iff.mp hcond).1).next_eq
      (notEof_iff.mp (scanning_iff.mp hcond).1)
    have hz : z.2.errors.count = p'.errors.count := by omega
    obtain ⟨r, given', hscan, hr⟩ := ih hz hlevel
    refine ⟨r, given', .step (h.scanning hcond) ?_ hscan, hr⟩
    rw [scanTurn, hq', Loop.bind_ok, ← hnext]
    rfl

section

variable {tokens : List Token} {s' : Section}

/-- A scan to the end of a program has met no reserved label. -/
theorem unreached_of_scan (h : Scan cfg (.outer, initial tokens) (s, q))
    (hstop : q.notEof = false) : ReservedUnreached cfg tokens := by
  intro l t r hsplit hl ht _
  obtain ⟨scanned, hscanned⟩ := h.scanned
  obtain ⟨m, rfl, hrest⟩ := hscanned.before hsplit ht
  have hcurrent : q.currentToken.type ≠ .EOF_ := by
    rw [currentToken, hrest]
    cases m with
    | nil => simp [ht.1]
    | cons u m => exact hl u (by simp)
  rw [notEof_iff.mpr hcurrent] at hstop
  cases hstop

/-- A scan to the end converts all elements. -/
theorem not_failsAt_of_scan (h : Scan cfg (s, p) (s', q)) (hstop : q.notEof = false) :
    ¬ FailsAt cfg s p := by
  rintro ⟨t, u, d, e, hscan, hend, hat, htype, hitems⟩
  have hrest := Loop.Steps.compare hscan h (by simp [Parser.scanning, hstop])
  cases hrest with
  | refl => rw [hend] at hstop; cases hstop
  | step _ hbody _ =>
    obtain ⟨-, htoken⟩ := scanTurn_eq_ok hbody
    rw [hat, scanToken, elementTurn, if_pos htype, hitems] at htoken
    cases htoken

/-- A scan to the end is the first pass. -/
theorem firstPass_of_scan (hlexed : LexedTokens tokens)
    (h : Scan cfg (.outer, initial tokens) (s, q)) (hstop : q.notEof = false) :
    ∃ turns, firstPass cfg turns (initial tokens) = .ok (.done q) := by
  obtain ⟨turns, hturns⟩ := ((parse_terminates_iff hlexed).mpr (unreached_of_scan h hstop)).1
  refine ⟨turns, ?_⟩
  cases hfirst : firstPass cfg turns (initial tokens) with
  | error e =>
    obtain ⟨u, hsteps, hcond, hturn⟩ := Loop.run_steps.2.2 e hfirst
    have hreserved : ¬ u.currentToken.Reserved := fun hu => by
      rw [firstTurn_reserved hu] at hturn
      cases hturn
    exact absurd (.of_scans (firstSteps_scans (p := initial tokens) hlexed hsteps hreserved)
      (firstTurn_error hcond hturn)) (not_failsAt_of_scan h hstop)
  | ok result =>
    cases result with
    | yield u =>
      rw [parse, hfirst, Loop.bind_ok] at hturns
      rcases hturns with ⟨v, hv⟩ | ⟨e, he⟩
      · cases hv
      · cases he
    | done u =>
      obtain ⟨hsteps, hend⟩ := Loop.run_steps.1 u hfirst
      obtain ⟨t, hscan, -⟩ := firstSteps_scans (p := initial tokens) hlexed hsteps
        (not_reserved_of_end hend)
      have heq := Loop.Steps.end_unique hscan h (by simp [Parser.scanning, hend])
        (by simp [Parser.scanning, hstop])
      obtain ⟨-, rfl⟩ := Prod.mk.inj heq
      rfl

/-- In a scan without an error no literal ends the part of the program that it is in. -/
theorem literalsPassed_of_scan {x y : Section × Parser} (hscan : Scan cfg x y)
    (hstop : y.2.notEof = false) (hcount : y.2.errors.count = x.2.errors.count)
    (hsteady : x.1.Steady given)
    (htext : ∀ t ∈ x.2.rest.takeWhile (fun t => t.type != .EOF_), NoTextLiteral t) :
    LiteralsPassed x.1 given x.2.rest := by
  induction hscan generalizing given with
  | refl x =>
    cases hrest : x.2.rest with
    | nil => trivial
    | cons t l =>
      intro hend
      simp only [Parser.notEof, currentToken, hrest, List.headD_cons] at hstop
      simp [hend] at hstop
  | @step x y z hcond hbody rest ih =>
    obtain ⟨s, p⟩ := x
    obtain ⟨t, p'⟩ := y
    obtain ⟨hend, -⟩ := scanning_iff.mp hcond
    obtain ⟨ht, htoken⟩ := scanTurn_eq_ok hbody
    obtain rfl : t = s.next p.currentToken := ht
    change scanToken cfg (s.at_ p.currentToken) p = .ok p' at htoken
    have hfirst : p.errors.count ≤ p'.errors.count := scan_count (.step hcond hbody (.refl _))
    have hrest : p'.errors.count ≤ z.2.errors.count := scan_count rest
    change z.2.errors.count = p.errors.count at hcount
    change ∀ t ∈ p.rest.takeWhile (fun t => t.type != .EOF_), NoTextLiteral t at htext
    change LiteralsPassed s given p.rest
    have hcons := rest_of_notEof hend
    have htype := notEof_iff.mp hend
    have htail : p'.rest = p.rest.tail := scanToken_rest htoken
    rw [hcons, List.takeWhile_cons_of_pos (by simpa using htype)] at htext
    rw [hcons]
    intro _
    refine ⟨fun hliteral => ?_, ?_⟩
    · have hstring := Token.isLiteral_iff.mp hliteral
      obtain ⟨hdata, helements⟩ := hsteady hstring.1
      refine ⟨htext _ List.mem_cons_self hstring.2, fun hs hname => ?_⟩
      -- outside of a section a literal is an error
      have houter : s.at_ p.currentToken = .outer := by
        cases s with
        | outer => rfl
        | text => simp only [Section.at_, List.contains_eq_mem, hname, decide_true, if_true]
        | bss =>
          have hmem : p.currentToken.value ∈ sectionNames := by
            simp only [sectionNames, List.mem_cons] at hname ⊢
            tauto
          simp only [Section.at_, List.contains_eq_mem, hmem, decide_true, if_true]
        | data => exact absurd rfl hdata
        | elements d => exact absurd (congrArg Section.elements (helements d rfl)) hs
      have hnone : Section.enter p.currentToken = none := by simp [Section.enter, hstring.2]
      rw [houter, scanToken, hnone] at htoken
      have := firstTurn_fails hnone htoken
      omega
    · have hz : z.2.errors.count = p'.errors.count := by omega
      have hclean : ∀ t ∈ p'.rest.takeWhile (fun t => t.type != .EOF_), NoTextLiteral t := by
        rw [htail]
        exact fun t ht => htext t (List.mem_cons_of_mem _ ht)
      have hpassed := ih hstop hz (hsteady.next p.currentToken) hclean
      change LiteralsPassed (s.next p.currentToken) _ p'.rest at hpassed
      rwa [htail] at hpassed

end

/-- A jump at an index whose label is a data label reaches its address. -/
def DataJumpReaches (p : Parser) (i : Nat) : Prop :=
  ∀ u symbol, p.operands[i]? = some u → InstructionSet.isValidJTypeInstruction u.opcode = true →
    p.symbolTable u.label = some symbol → symbol.isData = true → JumpReaches i symbol.address

theorem patch_reaches_iff (i j : Nat) : (p.patch j).DataJumpReaches i ↔ p.DataJumpReaches i := by
  obtain ⟨hunits, hsymbols⟩ := patch_keeps (p := p) j
  unfold DataJumpReaches
  rw [hunits, hsymbols]

/-- A patch that records no error has found the target in range. -/
theorem reaches_of_patch {i : Nat} (h : (p.patch i).errors.count = p.errors.count) :
    p.DataJumpReaches i := by
  intro v symbol hv hjump hsymbol hdata
  rw [operands_getElem?] at hv
  obtain ⟨⟨u, b⟩, hunit, rfl⟩ := Option.map_eq_some_iff.mp hv
  dsimp only at hjump hsymbol
  unfold patch at h
  rw [hunit] at h
  dsimp only at h
  rw [hsymbol] at h
  dsimp only at h
  by_cases hbranch : InstructionSet.isValidBTypeInstruction u.opcode = true
  · rw [if_pos hbranch, hdata, if_neg (by simp)] at h
    simp only [invalidReference, failWith, recordError, Parser.setUnit] at h
    omega
  · rw [if_neg hbranch, if_pos hjump] at h
    unfold patchOffset at h
    dsimp only at h
    split at h
    · assumption
    · simp only [failWith, recordError] at h
      omega

/-- The patches of a program, when none of them records an error. -/
theorem reaches_of_patches {back : List Nat}
    (h : (back.foldl patch p).errors.count = p.errors.count) : ∀ i ∈ back, p.DataJumpReaches i := by
  induction back generalizing p with
  | nil => simp
  | cons j back ih =>
    have hfirst := patch_count (p := p) j
    have hrest := patches_count (p := p.patch j) back
    rw [List.foldl_cons] at h
    intro i hi
    rcases List.mem_cons.mp hi with rfl | hi
    · exact reaches_of_patch (by omega)
    · exact (patch_reaches_iff i j).mp (ih (by omega) i hi)

/-- Patches of two programs of which neither has a jump that leaves its range for a data label. -/
theorem Parallel.patches {D : Difference} (h : Parallel D cfg p q) {back : List Nat}
    (hp : ∀ i ∈ back, p.DataJumpReaches i) (hq : ∀ i ∈ back, q.DataJumpReaches i) :
    Parallel D cfg (back.foldl Parser.patch p) (back.foldl Parser.patch q) := by
  induction back generalizing p q with
  | nil => exact h
  | cons i back ih =>
    refine ih (h.patch i ?_) (fun j hj => ?_) fun j hj => ?_
    · intro u b s s' hu hjump hs hs' hss hdata
      have hunit : p.operands[i]? = some { u with imm := "" } := by
        rw [operands_getElem?, hu]
        rfl
      obtain ⟨y, hy, hxy⟩ : ∃ y, q.intermediateCode[i]? = some y ∧ D.Units cfg i (u, b) y := by
        have hrel := h.code.getElem? i
        rw [hu] at hrel
        generalize q.intermediateCode[i]? = z at hrel
        cases hrel with
        | some hxy => exact ⟨_, rfl, hxy⟩
      have hunit' : q.operands[i]? = some { u with label := D.ρ u.label, imm := "" } := by
        rw [operands_getElem?, hy, hxy.unit]
        rfl
      exact iff_of_true (hp i List.mem_cons_self _ s hunit hjump hs hdata)
        (hq i List.mem_cons_self _ s' hunit' hjump hs' (hss.isData.trans hdata))
    · exact (patch_reaches_iff j i).mpr (hp j (List.mem_cons_of_mem i hj))
    · exact (patch_reaches_iff j i).mpr (hq j (List.mem_cons_of_mem i hj))

/-! The two programs in the second pass. -/

/-- The contents of literals that are not the name of the text section, and the addresses of the
data labels. -/
def literalDifference (symbols symbols' : String → Option SymbolData) : Difference where
  names := Set.univ
  ρ := id
  Tokens t t' := t'.type = t.type ∧ t'.lineNumber = t.lineNumber ∧
    (t.type ≠ .STRING → t'.value = t.value) ∧ (t'.value = "text" ↔ t.value = "text")
  Addresses a a' := ∃ n s s', symbols n = some s ∧ symbols' n = some s' ∧
    a = s.address ∧ a' = s'.address
  Inputs _ _ := True
  injOn := Function.injective_id.injOn
  empty := ⟨trivial, rfl⟩
  eof := ⟨rfl, rfl, fun _ => rfl, .rfl⟩
  alike t t' h := by
    obtain ⟨htype, hline, hvalue, htext⟩ := h
    refine ⟨htype, hline, fun hlabel => ⟨trivial, hvalue ?_⟩, fun _ => hvalue, htext⟩
    rcases hlabel with hlabel | hlabel
    · simp [hlabel]
    · simp [hlabel]

section

variable {symbols symbols' : String → Option SymbolData}

theorem forall₂_of_columns {l l' : List Token}
    (h : (l'.map fun t => { t with columnNumber := 0 }) =
      l.map fun t => { t with columnNumber := 0 }) :
    List.Forall₂ (literalDifference symbols symbols').Tokens l l' := by
  induction l generalizing l' with
  | nil =>
    rw [List.map_eq_nil_iff.mp h]
    exact .nil
  | cons t l ih =>
    cases l' with
    | nil => cases h
    | cons t' l' =>
      obtain ⟨hhead, htail⟩ := List.cons.inj h
      have htype := congrArg Token.type hhead
      have hline := congrArg Token.lineNumber hhead
      have hvalue := congrArg Token.value hhead
      change t'.value = t.value at hvalue
      exact .cons ⟨htype, hline, fun _ => hvalue, by rw [hvalue]⟩ (ih htail)

theorem forall₂_of_abreast {l l' : List Token} (h : Abreast sized s given l l') :
    List.Forall₂ (literalDifference symbols symbols').Tokens l l' := by
  induction l generalizing s given l' with
  | nil =>
    rw [h.nil_iff.mpr rfl]
    exact .nil
  | cons t l ih =>
    cases l' with
    | nil => cases h.nil_iff.mp rfl
    | cons t' l' =>
      have hsame := h.same
      by_cases hend : t.type = .EOF_
      · have hvalue := hsame.value (by simp [Token.isLiteral, hend])
        exact .cons ⟨hsame.type, hsame.line, fun _ => hvalue, by rw [hvalue]⟩
          (forall₂_of_columns ((blanked_cons h.blanked).2.2 hend))
      · refine .cons ⟨hsame.type, hsame.line, fun htype => hsame.value ?_, ?_⟩ (ih (h.tail hend))
        · simp [Token.isLiteral, htype]
        · by_cases hliteral : t.isLiteral given = true
          · have hliteral' := hsame.isLiteral.trans hliteral
            have htext := ((h.passed hend).1 hliteral).1
            have htext' := ((h.passed' (by rw [hsame.type]; exact hend)).1 hliteral').1
            exact iff_of_false htext' htext
          · rw [hsame.value (by simpa using hliteral)]

end

/-- Every jump to a data label that the second pass leaves to be resolved is in its range. -/
def JumpsReach (cfg : ParserConfig) (tokens : List Token) : Prop :=
  ∀ p r, BeginsSecond cfg tokens p → secondPass cfg p = .ok r →
    ∀ i ∈ r.backPatch, r.DataJumpReaches i

/-- What the contents of the literals must not do. -/
structure LiteralsHarmless (cfg : ParserConfig) (tokens : List Token) : Prop where
  passed : LiteralsPassed .outer false tokens
  reach : JumpsReach cfg tokens

/-- Two units at an index are the same but for an immediate that depends on the address of the
same data label in both programs. -/
structure SameUnit (cfg : ParserConfig) (symbols symbols' : String → Option SymbolData) (i : Nat)
    (x y : ICUnit × Bool) : Prop where
  unit : y = ({ x.1 with imm := y.1.imm }, x.2)
  imm : y.1.imm = x.1.imm ∨ ∃ f label s s', DataImmediate cfg i f ∧
    symbols label = some s ∧ symbols' label = some s' ∧ s.isData = true ∧ s'.isData = true ∧
    x.1.imm = f s.address ∧ y.1.imm = f s'.address

/-- The intermediate code of two programs is the same up to the offsets of their data labels, and
so are these if the literals have the same sizes. -/
structure SameCode (cfg : ParserConfig) (tokens tokens' : List Token) (q q' : Parser) : Prop where
  code : Indexed (SameUnit cfg q.symbolTable q'.symbolTable) q.intermediateCode q'.intermediateCode
  offsets : literalSizes false tokens' = literalSizes false tokens →
    q'.symbolTable = q.symbolTable

/-- Both programs have an error or neither has, and then their code is the same. -/
def TreatedAlike (cfg : ParserConfig) (tokens tokens' : List Token) : Prop :=
  ((∃ q, Accepts cfg tokens q) ↔ ∃ q, Accepts cfg tokens' q) ∧
    ∀ q q', Accepts cfg tokens q → Accepts cfg tokens' q' → SameCode cfg tokens tokens' q q'

section

variable {tokens tokens' : List Token}

theorem harmless_of_accepts (hlexed : LexedTokens tokens) (h : Accepts cfg tokens q) :
    LiteralsHarmless cfg tokens := by
  obtain ⟨p, r, haccepted⟩ := accepted_of_accepts hlexed h
  obtain ⟨s, hscan⟩ := haccepted.scan
  constructor
  · exact literalsPassed_of_scan hscan haccepted.stop haccepted.first (by simp [Section.Steady])
      (haccepted.no_text_literal hlexed)
  · intro u v hu hv
    obtain rfl := haccepted.begins u hu
    obtain rfl : r = v := Except.ok.inj (haccepted.second.symm.trans hv)
    have hcount := haccepted.count
    rw [haccepted.patched, ← haccepted.errors] at hcount
    exact reaches_of_patches hcount

theorem symbol_kept (hlexed : LexedTokens p.rest) (h : secondPass cfg p = .ok q) {label : String}
    {symbol : SymbolData} (hsymbol : p.symbolTable label = some symbol) :
    q.symbolTable label = some symbol :=
  (textInvariant_symbol p label symbol).secondSteps hlexed (.refl _)
    (secondPass_steps hlexed h).1 hsymbol

/-- The second pass of the one program and of the other begin alike. -/
theorem Level.parallel (hscan : Scan cfg (.outer, initial tokens) (s, p))
    (hscan' : Scan cfg (.outer, initial tokens') (s, q)) (h : Level sized s given p q)
    (htokens : Abreast sized .outer false tokens tokens') :
    Parallel (literalDifference p.symbolTable q.symbolTable) cfg p.restart q.restart := by
  have hp := hscan.untouched
  have hq := hscan'.untouched
  refine ⟨trivial, ?_, rfl, h.count, fun n _ => ?_, ?_, ?_, fun _ => ?_⟩
  · change List.Forall₂ _ p.tokens q.tokens
    rw [hp.tokens, hq.tokens]
    exact forall₂_of_abreast htokens
  · have hmoved := h.symbols n
    change Option.Rel _ (p.symbolTable n) (q.symbolTable n)
    cases hs : p.symbolTable n with
    | none =>
      rw [hs] at hmoved
      cases hs' : q.symbolTable n with
      | none => exact .none
      | some s' => rw [hs'] at hmoved; cases hmoved
    | some a =>
      cases hs' : q.symbolTable n with
      | none => rw [hs, hs'] at hmoved; cases hmoved
      | some b =>
        have hdata := hscan.symbols hs
        refine .some ⟨?_, ?_, fun htext => ?_, fun _ => ⟨n, a, b, hs, hs', rfl, rfl⟩⟩
        · rw [hs, hs'] at hmoved
          cases hmoved with
          | some hab => rw [hab.1]
        · rw [hscan'.symbols hs', hdata]
        · rw [hdata] at htext
          cases htext
  · exact hq.backPatch.trans hp.backPatch.symm
  · change Indexed _ p.intermediateCode q.intermediateCode
    rw [hp.intermediateCode, hq.intermediateCode]
    exact .nil
  · change 0 = p.intermediateCode.length
    rw [hp.intermediateCode]
    rfl

/-- With harmless literals the other program is accepted too, and has the same code. -/
theorem accepts_of_harmless (hlexed : LexedTokens tokens) (hlexed' : LexedTokens tokens')
    (hdiffer : DifferInLiterals tokens tokens') (h : Accepts cfg tokens q)
    (hharmless : LiteralsHarmless cfg tokens') :
    ∃ q', Accepts cfg tokens' q' ∧ SameCode cfg tokens tokens' q q' := by
  obtain ⟨p, r, haccepted⟩ := accepted_of_accepts hlexed h
  obtain ⟨s, hscan⟩ := haccepted.scan
  have habreast : Abreast (literalSizes false tokens' = literalSizes false tokens) .outer false
      tokens tokens' :=
    ⟨hdiffer, (harmless_of_accepts hlexed h).passed, hharmless.passed, by simp [Section.Steady], id⟩
  have hstart : Level (literalSizes false tokens' = literalSizes false tokens) .outer false
      (initial tokens) (initial tokens') := ⟨habreast, rfl, fun _ => rfl, fun _ => .none⟩
  obtain ⟨p', given, hscan', hlevel⟩ := hstart.scan hscan haccepted.first
  have hstop' := hlevel.notEof haccepted.stop
  obtain ⟨turns, hfirst'⟩ := firstPass_of_scan hlexed' hscan' hstop'
  have hparallel := Level.parallel hscan hscan' hlevel habreast
  obtain ⟨r', hsecond', hpar⟩ := hparallel.secondPass.ok_left haccepted.second
  have hback : r'.backPatch = r.backPatch := hpar.backPatch
  have hreach : ∀ i ∈ r.backPatch, r.DataJumpReaches i := by
    refine reaches_of_patches ?_
    rw [← haccepted.patched, haccepted.count, haccepted.errors]
  have hreach' : ∀ i ∈ r.backPatch, r'.DataJumpReaches i := by
    rw [← hback]
    exact hharmless.reach p'.restart r' ⟨turns, p', hfirst', rfl⟩ hsecond'
  have hend := hpar.patches hreach hreach'
  rw [← haccepted.patched] at hend
  refine ⟨r.backPatch.foldl patch r', ⟨⟨turns, ?_⟩, hend.count.trans haccepted.count⟩, ?_, ?_⟩
  · rw [parse, hfirst', Loop.bind_ok]
    simp only [hsecond', Loop.bind_ok, hback]
    rfl
  · -- the addresses are those of a data label at the end of the first pass
    have hkept {n : String} {a : SymbolData} (ha : p.symbolTable n = some a) :
        q.symbolTable n = some a := by
      rw [haccepted.patched, (patches_keep _).2]
      exact symbol_kept (haccepted.lexed hlexed) haccepted.second ha
    have hkept' {n : String} {a : SymbolData} (ha : p'.symbolTable n = some a) :
        (r.backPatch.foldl patch r').symbolTable n = some a := by
      rw [(patches_keep _).2]
      refine symbol_kept ?_ hsecond' ha
      change LexedTokens p'.tokens
      rw [hscan'.untouched.tokens]
      exact hlexed'
    refine ⟨hend.code.length, fun i x y hx hy => ?_⟩
    obtain ⟨-, hunit, himm⟩ := hend.code.entries i x y hx hy
    refine ⟨hunit, himm.imp_right ?_⟩
    rintro ⟨f, a, a', hf, ⟨n, b, b', hb, hb', rfl, rfl⟩, hxf, hyf⟩
    exact ⟨f, n, b, b', hf, hkept hb, hkept' hb', hscan.symbols hb, hscan'.symbols hb', hxf, hyf⟩
  · intro hsizes
    funext n
    have hsymbol := hend.symbols n trivial
    change Option.Rel _ (q.symbolTable n) ((r.backPatch.foldl patch r').symbolTable n) at hsymbol
    generalize q.symbolTable n = x at hsymbol ⊢
    generalize (r.backPatch.foldl patch r').symbolTable n = y at hsymbol ⊢
    cases hsymbol with
    | none => rfl
    | @some a b hab =>
      have haddress : b.address = a.address := by
        cases hdata : a.isData with
        | false => exact hab.text hdata
        | true =>
          obtain ⟨m, c, c', hc, hc', ha, hb⟩ := hab.data hdata
          have hmoved := hlevel.symbols m
          rw [hc, hc'] at hmoved
          cases hmoved with
          | some hcc => rw [ha, hb, hcc.2 hsizes]
      obtain ⟨address, line, isData⟩ := a
      obtain ⟨address', line', isData'⟩ := b
      obtain rfl : address' = address := haddress
      obtain rfl : line' = line := hab.line
      obtain rfl : isData' = isData := hab.isData
      rfl

theorem accepts_unique {q' : Parser} (hlexed : LexedTokens tokens) (h : Accepts cfg tokens q)
    (h' : Accepts cfg tokens q') : q = q' := by
  obtain ⟨p, r, haccepted⟩ := accepted_of_accepts hlexed h
  obtain ⟨p', r', haccepted'⟩ := accepted_of_accepts hlexed h'
  obtain ⟨s, hscan⟩ := haccepted.scan
  obtain ⟨s', hscan'⟩ := haccepted'.scan
  have hend := Loop.Steps.end_unique hscan hscan' (by simp [Parser.scanning, haccepted.stop])
    (by simp [Parser.scanning, haccepted'.stop])
  obtain ⟨-, rfl⟩ := Prod.mk.inj hend
  obtain rfl : r = r' := Except.ok.inj (haccepted.second.symm.trans haccepted'.second)
  rw [haccepted.patched, haccepted'.patched]

end

theorem forall₂_of_blanked {l l' : List Token} (h : blanked given l' = blanked given l) :
    List.Forall₂ (fun t t' => t'.type = t.type ∧ (t.type ≠ .STRING → t'.value = t.value)) l l' := by
  induction l generalizing given l' with
  | nil =>
    rw [(nil_iff_of_blanked h).mpr rfl]
    exact .nil
  | cons t l ih =>
    cases l' with
    | nil => cases (nil_iff_of_blanked h).mp rfl
    | cons t' l' =>
      obtain ⟨hsame, hrest, hcolumns⟩ := blanked_cons h
      refine .cons ⟨hsame.type, fun htype => hsame.value (by simp [Token.isLiteral, htype])⟩ ?_
      by_cases hend : t.type = .EOF_
      · have htokens : List.Forall₂ (literalDifference (fun _ => none) fun _ => none).Tokens l l' :=
          forall₂_of_columns (hcolumns hend)
        exact htokens.imp fun u u' hu => ⟨hu.1, hu.2.2.1⟩
      · exact ih (hrest hend)

/-- The tokens of the other program are those of a lexer too. -/
theorem lexed_of_blanked {l l' : List Token} (h : blanked given l' = blanked given l)
    (hlexed : LexedTokens l) : LexedTokens l' := by
  have htokens := forall₂_of_blanked h
  clear h
  induction htokens with
  | nil => exact hlexed
  | @cons t t' l l' htt' _ ih =>
    intro u hu
    rcases List.mem_cons.mp hu with rfl | hu
    · have ht := hlexed t List.mem_cons_self
      unfold Token.Lexed at ht ⊢
      rw [htt'.1]
      by_cases htype : t.type = .STRING
      · simp [htype]
      · rw [htt'.2 htype]
        exact ht
    · exact ih (fun v hv => hlexed v (List.mem_cons_of_mem t hv)) u hu

section

variable {tokens tokens' : List Token}

/-- The two programs are treated alike if and only if their literals are both harmless or both
not, or no choice of the contents is accepted. -/
theorem literals_alike_iff (hlexed : LexedTokens tokens)
    (hdiffer : DifferInLiterals tokens tokens') :
    TreatedAlike cfg tokens tokens' ↔
      ((∃ u q, DifferInLiterals tokens u ∧ Accepts cfg u q) →
        (LiteralsHarmless cfg tokens ↔ LiteralsHarmless cfg tokens')) := by
  have hlexed' := lexed_of_blanked hdiffer hlexed
  constructor
  · rintro ⟨halike, -⟩ ⟨u, q, hu, hq⟩
    have haccepted {w : List Token} (hw : LexedTokens w) (hdiffer : DifferInLiterals u w) :
        (∃ q, Accepts cfg w q) ↔ LiteralsHarmless cfg w := by
      refine ⟨fun ⟨v, hv⟩ => harmless_of_accepts hw hv, fun hharmless => ?_⟩
      obtain ⟨v, hv, -⟩ := accepts_of_harmless (lexed_of_blanked hu hlexed) hw hdiffer hq hharmless
      exact ⟨v, hv⟩
    rw [← haccepted hlexed hu.symm, ← haccepted hlexed' (hdiffer.trans hu.symm)]
    exact halike
  · intro h
    have hcode {q : Parser} (hq : Accepts cfg tokens q) :
        ∃ q', Accepts cfg tokens' q' ∧ SameCode cfg tokens tokens' q q' :=
      accepts_of_harmless hlexed hlexed' hdiffer hq
        ((h ⟨tokens, q, rfl, hq⟩).mp (harmless_of_accepts hlexed hq))
    refine ⟨⟨fun ⟨q, hq⟩ => ?_, fun ⟨q', hq'⟩ => ?_⟩, fun q q' hq hq' => ?_⟩
    · obtain ⟨q', hq', -⟩ := hcode hq
      exact ⟨q', hq'⟩
    · have hharmless := (h ⟨tokens', q', hdiffer, hq'⟩).mpr (harmless_of_accepts hlexed' hq')
      obtain ⟨q, hq, -⟩ := accepts_of_harmless hlexed' hlexed hdiffer.symm hq' hharmless
      exact ⟨q, hq⟩
    · obtain ⟨v, hv, hsame⟩ := hcode hq
      rw [accepts_unique hlexed' hq' hv]
      exact hsame

end

/-- `.data`, `s: .string`, the literal, `.text` and `la x5, s` -/
def greeting (contents : String) : List Token :=
  [⟨.DIRECTIVE, "data", 1, 1⟩, ⟨.LABEL, "s", 2, 1⟩, ⟨.DIRECTIVE, "string", 2, 4⟩,
   ⟨.STRING, contents, 2, 12⟩, ⟨.DIRECTIVE, "text", 3, 1⟩, ⟨.OPCODE, "la", 4, 1⟩,
   ⟨.GP_REGISTER, "x5", 4, 4⟩, ⟨.COMMA, ",", 4, 6⟩, ⟨.LABEL_REF, "s", 4, 8⟩, ⟨.EOF_, "", 4, 9⟩]

theorem greeting_lexed (contents : String) : LexedTokens (greeting contents) := by
  intro t ht
  simp only [greeting, List.mem_cons, List.not_mem_nil, or_false] at ht
  rcases ht with rfl | rfl | rfl | rfl | rfl | rfl | rfl | rfl | rfl | rfl
  case inr.inr.inr.inr.inr.inl => exact (by decide : InstructionSet.isValidInstruction "la" = true)
  case inr.inr.inr.inr.inr.inr.inl =>
    exact (by decide : isValidGeneralPurposeRegister "x5" = true)
  all_goals simp [Token.Lexed]

theorem literals_alike_iff_greeting :
    TreatedAlike ParserConfig.default (greeting "abc") (greeting "data") ↔
      ((∃ u q, DifferInLiterals (greeting "abc") u ∧ Accepts ParserConfig.default u q) →
        (LiteralsHarmless ParserConfig.default (greeting "abc") ↔
          LiteralsHarmless ParserConfig.default (greeting "data"))) :=
  literals_alike_iff (greeting_lexed "abc") rfl

theorem not_treatedAlike_text : ¬ ∀ cfg tokens tokens', LexedTokens tokens →
    DifferInLiterals tokens tokens' → TreatedAlike cfg tokens tokens' := by
  intro hall
  obtain ⟨q, hq⟩ : ∃ q, Accepts ParserConfig.default (greeting "abc") q :=
    accepts_of_parse (n := 8) (by decide +kernel)
  obtain ⟨q', hq'⟩ := (hall _ _ (greeting "text") (greeting_lexed "abc") rfl).1.mp ⟨q, hq⟩
  have hpassed := (harmless_of_accepts (greeting_lexed "text") hq').passed
  exact absurd hpassed (by decide)

end Parser

end RiscvSim
