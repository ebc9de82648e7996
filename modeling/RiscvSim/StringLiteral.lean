import RiscvSim.Lexemes
import RiscvSim.Sections

/-! The contents of a string: escaped in a literal of the source, read by the lexer and decoded
by the parser. -/

namespace RiscvSim

def charOf (b : Byte) : Char := Char.ofNat b.toNat

def escapeChar (c : Char) : List Char :=
  if c = '\\' then ['\\', '\\']
  else if c = '"' then ['\\', '"']
  else if c = '\n' then ['\\', 'n']
  else if c = '\t' then ['\\', 't']
  else [c]

def escaped (cs : List Char) : List Char := cs.flatMap escapeChar

/-- The directive and, behind some spaces, the bytes of `s` in double quotes. -/
def stringLine (spaces : Nat) (s : List Byte) : List Char :=
  ".string".toList ++ (List.replicate spaces ' ' ++ '"' :: (escaped (s.map charOf) ++ ['"']))

/-- From the token `t` the parser stores the bytes of `s` and a NUL. -/
def StoresFrom (cfg : ParserConfig) (t : Token) (s : List Byte) : Prop :=
  ∀ p : Parser, p.currentToken = t →
    ∃ q, p.elementTurn cfg .string = .ok q ∧ q.dataBuffer = p.dataBuffer ++ [.string (s ++ [0])]

/-- The line for `s` becomes a directive and a single string token, and from that the parser
stores `s`. -/
def RoundTrips (cfg : ParserConfig) (floatText : String → Except Thrown String) (l : Lexer)
    (spaces : Nat) (s : List Byte) : Prop :=
  ∃ l' d t, (l.readLine (stringLine spaces s)).lexLine floatText = .ok l' ∧
    l'.tokens = l.tokens ++ [d, t] ∧ d.type = .DIRECTIVE ∧ d.value = "string" ∧
    t.type = .STRING ∧ StoresFrom cfg t s

variable {cfg : ParserConfig} {floatText : String → Except Thrown String} {l : Lexer} {spaces : Nat}
  {s : List Byte} {cs ds : List Char}

theorem charOf_toNat (b : Byte) : (charOf b).toNat = b.toNat := by
  have h : b.toNat.isValidChar := Or.inl (Nat.lt_trans b.isLt (by decide))
  rw [charOf, Char.ofNat, dif_pos h]
  rfl

theorem charOf_eq_quote {b : Byte} : charOf b = '"' ↔ b = 34#8 := by
  constructor
  · intro h
    apply BitVec.eq_of_toNat_eq
    rw [← charOf_toNat, h]
    rfl
  · rintro rfl
    rfl

/-- The parser turns characters into bytes again. -/
theorem bytes_charOf (s : List Byte) :
    (s.map charOf).map (fun c => BitVec.ofNat 8 c.toNat) = s := by
  rw [List.map_map]
  refine (List.map_congr_left fun b _ => ?_).trans s.map_id
  simp [charOf_toNat]

theorem parseEscapedString_cons {c : Char} (hc : c ≠ '\\') :
    parseEscapedString (c :: cs) = c :: parseEscapedString cs := by
  rw [parseEscapedString]
  simp [hc]

/-- Decoding an escaped text gives the text back, whatever follows it. -/
theorem parseEscapedString_escaped (cs ds : List Char) :
    parseEscapedString (escaped cs ++ ds) = cs ++ parseEscapedString ds := by
  induction cs with
  | nil => rfl
  | cons c cs ih =>
    have hcons : escaped (c :: cs) ++ ds = escapeChar c ++ (escaped cs ++ ds) := by
      simp [escaped]
    rw [hcons, List.cons_append, ← ih, escapeChar]
    split
    · rename_i h
      subst h
      rfl
    split
    · rename_i h
      subst h
      rfl
    split
    · rename_i h
      subst h
      rfl
    split
    · rename_i h
      subst h
      rfl
    · rename_i hbackslash _ _ _
      exact parseEscapedString_cons hbackslash

theorem quote_not_mem_escapeChar {c : Char} (hc : c ≠ '"') : '"' ∉ escapeChar c := by
  rw [escapeChar, if_neg hc]
  split
  · decide
  split
  · decide
  split
  · decide
  · simpa using hc.symm

theorem quote_not_mem_escaped (h : '"' ∉ cs) : '"' ∉ escaped cs := by
  intro hmem
  obtain ⟨c, hc, hquote⟩ := List.mem_flatMap.mp hmem
  refine quote_not_mem_escapeChar ?_ hquote
  rintro rfl
  exact h hc

/-- The lexer is at the literal after the directive. -/
theorem lexLine_string (floatText : String → Except Thrown String) (l : Lexer) (spaces : Nat)
    (s : List Byte) :
    ∃ (m : Lexer) (column : Nat),
      (l.readLine (stringLine spaces s)).lexLine floatText = m.lexLine floatText ∧
      m.rest = List.replicate spaces ' ' ++ '"' :: (escaped (s.map charOf) ++ ['"']) ∧
      m.tokens = l.tokens ++ [⟨.DIRECTIVE, "string", l.lineNumber + 1, column⟩] := by
  have hends : Ends Char.isAlpha
      (List.replicate spaces ' ' ++ '"' :: (escaped (s.map charOf) ++ ['"'])) := by
    cases spaces with
    | zero => rintro c ⟨⟩; decide
    | succ n => rintro c ⟨⟩; decide
  have hlexeme : Lexer.Lexeme floatText (l.readLine (stringLine spaces s)).afterComma
      ('.' :: ['s', 't', 'r', 'i', 'n', 'g']) _
      (some (.DIRECTIVE, String.ofList ['s', 't', 'r', 'i', 'n', 'g'])) :=
    .directive (List.all_eq_true.mp rfl) hends
  obtain ⟨m, column, hline, hrest, -, htokens⟩ :=
    Lexer.lexLine_of_lexeme [] (by simp) (List.cons_ne_nil _ _) hlexeme rfl
  exact ⟨m, column, hline, hrest, htokens⟩

/-- A literal ends at its first quote, escaped or not. -/
theorem lexLine_literal (floatText : String → Except Thrown String) {m : Lexer} (hds : '"' ∉ ds)
    (hrest : m.rest = List.replicate spaces ' ' ++ '"' :: (ds ++ '"' :: cs)) :
    ∃ (m' : Lexer) (line column : Nat), m.lexLine floatText = m'.lexLine floatText ∧
      m'.rest = cs ∧
      m'.tokens = m.tokens ++ [⟨.STRING, String.ofList ds, line, column⟩] := by
  have hspaces : ∀ x ∈ List.replicate spaces ' ', Decimal.isSpace x = true := by
    intro x hx
    rw [List.eq_of_mem_replicate hx]
    decide
  have hlexeme : Lexer.Lexeme floatText m.afterComma ('"' :: (ds ++ ['"'])) cs _ := .string cs hds
  obtain ⟨m', column, hline, hrest', -, htokens⟩ :=
    Lexer.lexLine_of_lexeme (List.replicate spaces ' ') hspaces (List.cons_ne_nil _ _) hlexeme
      (by rw [hrest]; simp)
  exact ⟨m', _, column, hline, hrest', htokens⟩

/-- What the parser stores from a string token. -/
theorem elementTurn_string (cfg : ParserConfig) {p : Parser}
    (htype : p.currentToken.type = .STRING) :
    ∃ q, p.elementTurn cfg .string = .ok q ∧ q.dataBuffer = p.dataBuffer ++
      [.string ((parseEscapedString p.currentToken.value.toList).map
        (fun c => BitVec.ofNat 8 c.toNat) ++ [0])] := by
  have htype' : p.currentToken.type = DataDirective.string.tokenType := htype
  have halign : (p.align DataDirective.string.alignment).dataBuffer = p.dataBuffer := by
    unfold Parser.align
    split <;> rfl
  rw [Parser.elementTurn, if_pos htype']
  refine ⟨_, rfl, ?_⟩
  simp [Parser.nextToken, Parser.place, halign]

theorem storesFrom_iff {t : Token} (htype : t.type = .STRING) : StoresFrom cfg t s ↔
    (parseEscapedString t.value.toList).map (fun c => BitVec.ofNat 8 c.toNat) = s := by
  constructor
  · intro h
    have htoken : (Parser.initial [t]).currentToken = t := rfl
    obtain ⟨q, hq, hbuffer⟩ := h (.initial [t]) htoken
    obtain ⟨q', hq', hbuffer'⟩ := elementTurn_string cfg (p := .initial [t]) htype
    obtain rfl : q' = q := Except.ok.inj (hq'.symm.trans hq)
    rw [hbuffer', htoken] at hbuffer
    simpa using hbuffer
  · rintro rfl p rfl
    exact elementTurn_string cfg htype

/-- Without a quote in it a string survives. -/
theorem roundTrips_of_no_quote (h : 34#8 ∉ s) : RoundTrips cfg floatText l spaces s := by
  have hquote : '"' ∉ s.map charOf := by
    intro hmem
    obtain ⟨b, hb, hchar⟩ := List.mem_map.mp hmem
    exact h (charOf_eq_quote.mp hchar ▸ hb)
  obtain ⟨m, column, hline, hrest, htokens⟩ := lexLine_string floatText l spaces s
  obtain ⟨m', line, column', hline', hrest', htokens'⟩ :=
    lexLine_literal floatText (quote_not_mem_escaped hquote) hrest
  refine ⟨m', ⟨.DIRECTIVE, "string", l.lineNumber + 1, column⟩,
    ⟨.STRING, String.ofList (escaped (s.map charOf)), line, column'⟩, ?_, ?_, rfl, rfl, rfl,
    (storesFrom_iff rfl).mpr ?_⟩
  · rw [hline, hline', Lexer.lexLine_end hrest']
  · rw [htokens', htokens, List.append_assoc]
    rfl
  · have hdecode := parseEscapedString_escaped (s.map charOf) []
    rw [List.append_nil] at hdecode
    rw [String.toList_ofList, hdecode]
    simpa [parseEscapedString] using bytes_charOf s

/-- A quote in it ends the literal early: what the parser stores goes on with a backslash where
the string has its quote. -/
theorem not_roundTrips_of_quote (h : 34#8 ∈ s) : ¬ RoundTrips cfg floatText l spaces s := by
  rintro ⟨l', d, t, hlex, htokens, -, -, htype, hstores⟩
  obtain ⟨u, v, rfl, hu⟩ := List.eq_append_cons_of_mem h
  have hquote : '"' ∉ u.map charOf := by
    intro hmem
    obtain ⟨b, hb, hchar⟩ := List.mem_map.mp hmem
    exact hu (charOf_eq_quote.mp hchar ▸ hb)
  have hbefore : '"' ∉ escaped (u.map charOf) ++ ['\\'] := by
    simpa using quote_not_mem_escaped hquote
  have hsplit : escaped ((u ++ 34#8 :: v).map charOf) ++ ['"'] =
      (escaped (u.map charOf) ++ ['\\']) ++ '"' :: (escaped (v.map charOf) ++ ['"']) := by
    have hchar : charOf 34#8 = '"' := rfl
    simp [escaped, hchar, escapeChar]
  obtain ⟨m, column, hline, hrest, hm⟩ := lexLine_string floatText l spaces
    (u ++ 34#8 :: v)
  rw [hsplit] at hrest
  obtain ⟨m', line, column', hline', -, hm'⟩ := lexLine_literal floatText hbefore hrest
  rw [hline, hline'] at hlex
  have hprefix := Lexer.lexLine_append hlex
  rw [hm', hm, htokens, List.append_assoc, List.prefix_append_right_inj] at hprefix
  have ht : t.value = String.ofList (escaped (u.map charOf) ++ ['\\']) := by
    have hsame := hprefix.eq_of_length rfl
    rw [← (List.cons.inj (List.cons.inj hsame).2).1]
  have hvalue := (storesFrom_iff htype).mp hstores
  rw [ht, String.toList_ofList, parseEscapedString_escaped, List.map_append, bytes_charOf] at hvalue
  exact absurd (List.append_cancel_left hvalue) (by simp [parseEscapedString])

/-- A string survives exactly if it has no quote in it. -/
theorem roundTrips_iff (cfg : ParserConfig) (floatText : String → Except Thrown String) (l : Lexer)
    (spaces : Nat) (s : List Byte) : RoundTrips cfg floatText l spaces s ↔ 34#8 ∉ s :=
  ⟨fun h hs => not_roundTrips_of_quote hs h, roundTrips_of_no_quote⟩

/-- One quote between two letters. -/
theorem not_roundTrips_quote :
    ¬ RoundTrips .default (fun _ => .error .invalidArgument) {} 1 [97#8, 34#8, 98#8] :=
  not_roundTrips_of_quote (by decide)

end RiscvSim
