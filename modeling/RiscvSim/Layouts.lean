import RiscvSim.Lexemes

/-! Sources that are laid out as lines of lexemes, with white space and comments where they like, and
what the lexer makes of them. -/

namespace RiscvSim

/-- The tokens of a line: each has the type and the text that are given for it. -/
structure OnLine (number : Nat) (items : List (TokenType × String)) (ts : List Token) : Prop where
  items : ts.map (fun t => (t.type, t.value)) = items
  line : ∀ t ∈ ts, t.lineNumber = number

/-- The tokens of the lines behind line `number`. -/
inductive OnLines : Nat → List (List (TokenType × String)) → List Token → Prop
  | nil {number : Nat} : OnLines number [] []
  | cons {number : Nat} {items : List (TokenType × String)} {lines : List (List (TokenType × String))}
      {ts us : List Token} (h : OnLine (number + 1) items ts) (rest : OnLines (number + 1) lines us) :
      OnLines number (items :: lines) (ts ++ us)

namespace OnLine

variable {number : Nat} {item : TokenType × String} {items : List (TokenType × String)} {t : Token}
  {ts : List Token}

theorem nil : OnLine number [] [] := ⟨rfl, by simp⟩

theorem cons (hitem : (t.type, t.value) = item) (hline : t.lineNumber = number)
    (h : OnLine number items ts) : OnLine number (item :: items) (t :: ts) :=
  ⟨by simp [hitem, h.items], by simpa [hline] using h.line⟩

end OnLine

namespace Lexer

variable {floatText : String → Except Thrown String} {comma : Bool} {l : Lexer} {line : List Char}
  {items : List (TokenType × String)}

/-- A line of lexemes. `comma` says that the token in front of it is a comma. -/
inductive Lays (floatText : String → Except Thrown String) :
    Bool → List Char → List (TokenType × String) → Prop
  | stop {comma : Bool} {blanks c : List Char} (hblanks : ∀ x ∈ blanks, Decimal.isSpace x = true)
      (h : Lexeme floatText comma c [] none) : Lays floatText comma (blanks ++ c) []
  | lexeme {comma : Bool} {blanks c r : List Char} {item : TokenType × String}
      {items : List (TokenType × String)} (hblanks : ∀ x ∈ blanks, Decimal.isSpace x = true)
      (hc : c ≠ []) (h : Lexeme floatText comma c r (some item))
      (rest : Lays floatText (item.1 == .COMMA) r items) :
      Lays floatText comma (blanks ++ (c ++ r)) (item :: items)

/-- White space and a comment are no tokens. -/
theorem lexLine_of_stop {blanks c : List Char} (hblanks : ∀ x ∈ blanks, Decimal.isSpace x = true)
    (h : Lexeme floatText l.afterComma c [] none) (hrest : l.rest = blanks ++ c) :
    ∃ l', l.lexLine floatText = .ok l' ∧ l'.lineNumber = l.lineNumber ∧ l'.tokens = l.tokens := by
  by_cases hin : l.inLine = true
  · rw [← List.append_nil c] at hrest
    obtain ⟨u, m, hm, hmrest, hmap⟩ := getNextToken_of_lexeme hblanks h hrest
    obtain ⟨_, _, hreads⟩ := getNextToken_reads hm
    have hu : u = none := by simpa using hmap
    have hturn : l.lineTurn floatText = .ok (m.push none) := by
      rw [lineTurn, hm, hu]
      rfl
    refine ⟨m.push none, ?_, hreads.lineNumber, by simp [push, hreads.tokens]⟩
    rw [lexLine_eq, if_pos hin, hturn]
    exact lexLine_end hmrest
  · exact ⟨l, by rw [lexLine_eq, if_neg hin], rfl, rfl⟩

/-- The tokens of a line are its lexemes. -/
theorem Lays.lexLine (h : Lays floatText comma line items) (hrest : l.rest = line)
    (hcomma : l.afterComma = comma) : ∃ l' ts, l.lexLine floatText = .ok l' ∧
      l'.lineNumber = l.lineNumber ∧ l'.tokens = l.tokens ++ ts ∧ OnLine l.lineNumber items ts := by
  induction h generalizing l with
  | stop hblanks h =>
    rw [← hcomma] at h
    obtain ⟨l', hl', hnumber, htokens⟩ := lexLine_of_stop hblanks h hrest
    exact ⟨l', [], hl', hnumber, by simp [htokens], .nil⟩
  | @lexeme comma blanks c r item items hblanks hc h _ ih =>
    rw [← hcomma] at h
    obtain ⟨m, column, hm, hmrest, hmnumber, hmtokens⟩ := lexLine_of_lexeme blanks hblanks hc h hrest
    obtain ⟨l', ts, hl', hnumber, htokens, hts⟩ :=
      ih hmrest (by simp [afterComma, hmtokens])
    rw [hmnumber] at hnumber hts
    refine ⟨l', ⟨item.1, item.2, l.lineNumber, column⟩ :: ts, hm.trans hl', hnumber, ?_,
      .cons rfl rfl hts⟩
    simp [htokens, hmtokens]

/-- The next line does not begin behind a comma. -/
def Closed (items : List (TokenType × String)) : Prop :=
  items.getLast?.any (fun item => item.1 == .COMMA) = false

theorem afterComma_of_closed {l' : Lexer} {number : Nat} {ts : List Token}
    (hcomma : l.afterComma = false) (htokens : l'.tokens = l.tokens ++ ts)
    (hts : OnLine number items ts) (hclosed : Closed items) : l'.afterComma = false := by
  rw [afterComma, htokens]
  cases hlast : ts.getLast? with
  | none =>
    rw [List.getLast?_eq_none_iff] at hlast
    simpa [hlast, afterComma] using hcomma
  | some t => simpa [Closed, ← hts.items, hlast] using hclosed

theorem lexLines_of_lays {source : List (List Char)} {lines : List (List (TokenType × String))}
    (h : List.Forall₂ (Lays floatText false) source lines) (hclosed : ∀ items ∈ lines, Closed items)
    (hcomma : l.afterComma = false) : ∃ l' ts, lexLines floatText l source = .ok l' ∧
      l'.tokens = l.tokens ++ ts ∧ OnLines l.lineNumber lines ts := by
  induction h generalizing l with
  | nil => exact ⟨l, [], rfl, by simp, .nil⟩
  | @cons line items source lines hline _ ih =>
    obtain ⟨m, ts, hm, hnumber, htokens, hts⟩ := hline.lexLine (l := l.readLine line) rfl hcomma
    have hmcomma : m.afterComma = false :=
      afterComma_of_closed hcomma htokens hts (hclosed items (by simp))
    obtain ⟨l', us, hl', htokens', hus⟩ := ih (fun items h => hclosed items (by simp [h])) hmcomma
    rw [hnumber] at hus
    refine ⟨l', ts ++ us, ?_, ?_, .cons hts hus⟩
    · rw [lexLines, hm]
      exact hl'
    · rw [htokens', htokens, List.append_assoc]
      rfl

/-- The tokens of a source are the lexemes of its lines, and the end. -/
theorem getTokenList_of_lays {source : List (List Char)} {lines : List (List (TokenType × String))}
    (h : List.Forall₂ (Lays floatText false) source lines)
    (hclosed : ∀ items ∈ lines, Closed items) : ∃ ts last,
      getTokenList floatText source = .ok (ts ++ [last]) ∧ last.type = .EOF_ ∧ OnLines 0 lines ts := by
  obtain ⟨l, ts, hl, htokens, hts⟩ := lexLines_of_lays (l := {}) h hclosed rfl
  refine ⟨ts, ⟨.EOF_, "", l.lineNumber, l.columnNumber⟩, ?_, rfl, hts⟩
  rw [getTokenList, hl, Loop.bind_ok, htokens]
  rfl

end Lexer

end RiscvSim
