import Mathlib
import RiscvSim.Lexer

/-! What one call of the lexer reads: white space and a lexeme, whose end is a matter of the
next character only. -/

namespace RiscvSim

/-- A run of characters of a kind ends in front of `r`. -/
def Ends (f : Char → Bool) (r : List Char) : Prop := ∀ c, r.head? = some c → f c = false

section

variable {f : Char → Bool} {a r : List Char}

theorem takeWhile_of_ends (ha : ∀ c ∈ a, f c = true) (hr : Ends f r) :
    (a ++ r).takeWhile f = a := by
  rw [List.takeWhile_append_of_pos ha]
  cases r with
  | nil => simp
  | cons c r => simp [hr c rfl]

theorem dropWhile_of_ends (ha : ∀ c ∈ a, f c = true) (hr : Ends f r) :
    (a ++ r).dropWhile f = r := by
  rw [List.dropWhile_append_of_pos ha]
  cases r with
  | nil => rfl
  | cons c r => simp [hr c rfl]

theorem ends_dropWhile : Ends f (r.dropWhile f) := by
  intro c hc
  induction r with
  | nil => exact nomatch hc
  | cons d r ih =>
    by_cases hd : f d = true
    · rw [List.dropWhile_cons_of_pos hd] at hc
      exact ih hc
    · rw [List.dropWhile_cons_of_neg hd] at hc
      obtain rfl := Option.some.inj hc
      simpa using hd

theorem ends_nil : Ends f [] := nofun

theorem mem_takeWhile {c : Char} (h : c ∈ r.takeWhile f) : f c = true :=
  List.mem_takeWhile_imp h

end

namespace Lexer

/-- The characters of a name. -/
def IsName (name : List Char) : Prop :=
  ∃ c cs, name = c :: cs ∧ (c.isAlpha = true ∨ c = '_') ∧ ∀ x ∈ cs, isIdentifierChar x = true

def signs : List (Char × TokenType) := [(',', .COMMA), ('(', .LPAREN), (')', .RPAREN)]

/-- The lexer knows no lexeme that begins with `c`. -/
structure Unknown (c : Char) : Prop where
  space : Decimal.isSpace c = false
  name : ¬ (c.isAlpha = true ∨ c = '_')
  number : ¬ (c.isDigit = true ∨ c = '-')
  sign : c ∉ [',', '"', '(', ')', '.']
  comment : ¬ (c = '#' ∨ c = ';')

variable {floatText : String → Except Thrown String}

/-- `c`, in front of `r` and perhaps after a comma, is read as a token of the given type and
text, or as the end of its line. -/
inductive Lexeme (floatText : String → Except Thrown String) (comma : Bool) :
    List Char → List Char → Option (TokenType × String) → Prop
  | lineEnd : Lexeme floatText comma [] [] none
  | comment {c : Char} (cs : List Char) (hc : c = '#' ∨ c = ';') :
      Lexeme floatText comma (c :: cs) [] none
  | label {name : List Char} (r : List Char) (hname : IsName name) :
      Lexeme floatText comma (name ++ [':']) r
        (some (if name.contains '.' then .INVALID else .LABEL, String.ofList name))
  | name {name r : List Char} (hname : IsName name) (hr : Ends isIdentifierChar r)
      (hcolon : r.head? ≠ some ':') :
      Lexeme floatText comma name r
        (some ((nameType (String.ofList name)).getD (if comma then .LABEL_REF else .INVALID),
          String.ofList name))
  | number {c : Char} {cs r : List Char} {t : TokenType × String}
      (hc : c.isDigit = true ∨ c = '-') (hcs : ∀ x ∈ cs, isNumberChar x = true)
      (hr : Ends isNumberChar r) (hread : readNumber floatText (c :: cs) = .ok t) :
      Lexeme floatText comma (c :: cs) r (some t)
  | sign {c : Char} {type : TokenType} (r : List Char) (hc : (c, type) ∈ signs) :
      Lexeme floatText comma [c] r (some (type, String.ofList [c]))
  | directive {cs r : List Char} (hcs : ∀ x ∈ cs, x.isAlpha = true) (hr : Ends Char.isAlpha r) :
      Lexeme floatText comma ('.' :: cs) r (some (.DIRECTIVE, String.ofList cs))
  | string {cs : List Char} (r : List Char) (hcs : '"' ∉ cs) :
      Lexeme floatText comma ('"' :: (cs ++ ['"'])) r (some (.STRING, String.ofList cs))
  | unterminated {cs : List Char} (hcs : '"' ∉ cs) :
      Lexeme floatText comma ('"' :: cs) [] (some (.INVALID, ""))
  | other {c : Char} (cs : List Char) (hc : Unknown c) :
      Lexeme floatText comma (c :: cs) [] (some (.INVALID, ""))

/-- `l'` is the lexer after the lexeme `c`, which it reads as `t`. -/
structure Reads (floatText : String → Except Thrown String) (l : Lexer) (blanks c : List Char)
    (t : Option Token) (l' : Lexer) : Prop where
  rest : l.rest = blanks ++ (c ++ l'.rest)
  spaces : ∀ x ∈ blanks, Decimal.isSpace x = true
  lexeme : Lexeme floatText l.afterComma c l'.rest (t.map fun u => (u.type, u.value))
  line : t.map Token.lineNumber = t.map fun _ => l.lineNumber
  lineNumber : l'.lineNumber = l.lineNumber
  tokens : l'.tokens = l.tokens

variable {l l' : Lexer} {t : Option Token} {c r : List Char} {f : Char → Bool}

@[simp] theorem advance_rest (n : Nat) : (l.advance n).rest = l.rest.drop n := rfl

@[simp] theorem advance_lineNumber (n : Nat) : (l.advance n).lineNumber = l.lineNumber := rfl

@[simp] theorem advance_tokens (n : Nat) : (l.advance n).tokens = l.tokens := rfl

@[simp] theorem skipWhile_rest : (l.skipWhile f).rest = l.rest.dropWhile f := by
  have h : (l.rest.takeWhile f ++ l.rest.dropWhile f).drop (l.rest.takeWhile f).length =
      l.rest.dropWhile f := List.drop_left
  rwa [List.takeWhile_append_dropWhile] at h

@[simp] theorem skipWhile_lineNumber : (l.skipWhile f).lineNumber = l.lineNumber := rfl

@[simp] theorem skipWhile_tokens : (l.skipWhile f).tokens = l.tokens := rfl

@[simp] theorem skipWhile_afterComma : (l.skipWhile f).afterComma = l.afterComma := rfl

theorem Reads.of_skipWhitespace (h : Reads floatText l.skipWhitespace [] c t l') :
    Reads floatText l (l.rest.takeWhile Decimal.isSpace) c t l' where
  rest := by
    have hrest := h.rest
    rw [List.nil_append, skipWhitespace, skipWhile_rest] at hrest
    rw [← hrest, List.takeWhile_append_dropWhile]
  spaces _ := mem_takeWhile
  lexeme := h.lexeme
  line := h.line
  lineNumber := h.lineNumber
  tokens := h.tokens

theorem identifier_reads {x : Char} (hrest : l.rest = x :: r) (hx : x.isAlpha = true ∨ x = '_') :
    ∃ c, Reads floatText l [] c (some l.identifier.1) l.identifier.2 := by
  have hchar : isIdentifierChar x = true := by
    rcases hx with hx | rfl
    · simp [isIdentifierChar, Char.isAlphanum, hx]
    · decide
  have hname : IsName (l.rest.takeWhile isIdentifierChar) := by
    refine ⟨x, r.takeWhile isIdentifierChar, ?_, hx, fun _ => mem_takeWhile⟩
    rw [hrest, List.takeWhile_cons_of_pos hchar]
  have hsplit := List.takeWhile_append_dropWhile (p := isIdentifierChar) (l := l.rest)
  unfold identifier
  dsimp only
  split
  · rename_i hcolon
    rw [skipWhile_rest] at hcolon
    refine ⟨l.rest.takeWhile isIdentifierChar ++ [':'], ?_, nofun, .label _ hname, rfl, rfl, rfl⟩
    · obtain ⟨r', hr'⟩ := List.head?_eq_some_iff.mp hcolon
      rw [advance_rest, skipWhile_rest, hr', List.drop_one, List.tail_cons, List.nil_append,
        List.append_assoc, List.singleton_append, ← hr', hsplit]
  · rename_i hcolon
    rw [skipWhile_rest] at hcolon
    refine ⟨l.rest.takeWhile isIdentifierChar, ?_, nofun, .name hname ?_ ?_, rfl, rfl, rfl⟩
    · rw [skipWhile_rest, List.nil_append, hsplit]
    · rw [skipWhile_rest]
      exact ends_dropWhile
    · rw [skipWhile_rest]
      exact hcolon

theorem number_reads {x : Char} {u : Token} (hrest : l.rest = x :: r)
    (hx : x.isDigit = true ∨ x = '-') (h : l.number floatText = .ok (u, l')) :
    ∃ c, Reads floatText l [] c (some u) l' := by
  have hchar : isNumberChar x = true := by
    rcases hx with hx | rfl
    · simp [isNumberChar, Char.isAlphanum, hx]
    · decide
  obtain ⟨⟨type, text⟩, hread, h⟩ := Loop.bind_eq_ok h
  obtain ⟨rfl, rfl⟩ := Prod.mk.inj (Except.ok.inj h)
  have htext : l.rest.takeWhile isNumberChar = x :: r.takeWhile isNumberChar := by
    rw [hrest, List.takeWhile_cons_of_pos hchar]
  have hsplit := List.takeWhile_append_dropWhile (p := isNumberChar) (l := l.rest)
  rw [htext] at hread hsplit
  refine ⟨x :: r.takeWhile isNumberChar, ?_, nofun, .number hx (fun _ => mem_takeWhile) ?_ hread,
    rfl, rfl, rfl⟩
  · rw [skipWhile_rest, List.nil_append, hsplit]
  · rw [skipWhile_rest]
    exact ends_dropWhile

theorem directive_reads (hrest : l.rest = '.' :: r) :
    ∃ c, Reads floatText l [] c (some l.directive.1) l.directive.2 := by
  have htail : l.rest.tail = r := by rw [hrest]; rfl
  refine ⟨'.' :: r.takeWhile Char.isAlpha, ?_, nofun, ?_, rfl, rfl, rfl⟩
  · simp only [directive, skipWhile_rest, htail, List.nil_append, List.cons_append,
      List.takeWhile_append_dropWhile]
    exact hrest
  · simp only [directive, skipWhile_rest, htail]
    exact .directive (fun _ => mem_takeWhile) ends_dropWhile

theorem stringLiteral_reads (hrest : l.rest = '"' :: r) :
    ∃ c, Reads floatText l [] c (some l.stringLiteral.1) l.stringLiteral.2 := by
  have htail : l.rest.drop 1 = r := by rw [hrest]; rfl
  have hsplit := List.takeWhile_append_dropWhile (p := (· != '"')) (l := r)
  have hquote : '"' ∉ r.takeWhile (· != '"') := fun hmem => absurd (mem_takeWhile hmem) (by decide)
  unfold stringLiteral
  dsimp only
  rw [skipWhile_rest, advance_rest, htail]
  split
  · rename_i hend
    rw [List.isEmpty_iff] at hend
    refine ⟨'"' :: r.takeWhile (· != '"'), ?_, nofun, ?_, rfl, rfl, rfl⟩
    · rw [skipWhile_rest, advance_rest, htail, List.nil_append, List.cons_append, hsplit, hrest]
    · rw [skipWhile_rest, advance_rest, htail, hend]
      exact .unterminated hquote
  · rename_i hend
    rw [List.isEmpty_iff] at hend
    obtain ⟨q, r', hr'⟩ := List.exists_cons_of_ne_nil hend
    obtain rfl : q = '"' := by
      have hstop := ends_dropWhile (f := (· != '"')) (r := r) q (by rw [hr']; rfl)
      simpa using hstop
    refine ⟨'"' :: (r.takeWhile (· != '"') ++ ['"']), ?_, nofun, .string _ hquote, rfl, rfl, rfl⟩
    · rw [advance_rest, skipWhile_rest, advance_rest, htail, hr', List.drop_one, List.tail_cons,
        List.nil_append, List.cons_append, List.append_assoc, List.singleton_append, ← hr', hsplit,
        hrest]

theorem sign_reads {x : Char} {type : TokenType} (hrest : l.rest = x :: r)
    (hx : (x, type) ∈ signs) : Reads floatText l [] [x] (some (l.token type [x])) (l.advance 1) :=
  ⟨by rw [hrest]; simp [hrest], nofun, .sign _ hx, rfl, rfl, rfl⟩

theorem tokenAt_reads {x : Char} (hrest : l.rest = x :: r) (hspace : Decimal.isSpace x = false)
    (h : l.tokenAt floatText x = .ok (t, l')) : ∃ c, Reads floatText l [] c t l' := by
  have hall : l.rest.drop l.rest.length = [] := List.drop_length
  unfold tokenAt at h
  by_cases hname : x.isAlpha = true ∨ x = '_'
  · rw [if_pos hname] at h
    obtain ⟨rfl, rfl⟩ := Prod.mk.inj (Except.ok.inj h)
    exact identifier_reads hrest hname
  rw [if_neg hname] at h
  by_cases hnumber : x.isDigit = true ∨ x = '-'
  · rw [if_pos hnumber] at h
    obtain ⟨⟨u, m'⟩, hm, h⟩ := Loop.bind_eq_ok h
    obtain ⟨rfl, rfl⟩ := Prod.mk.inj (Except.ok.inj h)
    exact number_reads hrest hnumber hm
  rw [if_neg hnumber] at h
  by_cases hcomma : x = ','
  · rw [if_pos hcomma] at h
    obtain ⟨rfl, rfl⟩ := Prod.mk.inj (Except.ok.inj h)
    exact ⟨_, sign_reads hrest (by simp [hcomma, signs])⟩
  rw [if_neg hcomma] at h
  by_cases hquote : x = '"'
  · rw [if_pos hquote] at h
    obtain ⟨rfl, rfl⟩ := Prod.mk.inj (Except.ok.inj h)
    exact stringLiteral_reads (hquote ▸ hrest)
  rw [if_neg hquote] at h
  by_cases hopen : x = '('
  · rw [if_pos hopen] at h
    obtain ⟨rfl, rfl⟩ := Prod.mk.inj (Except.ok.inj h)
    exact ⟨_, sign_reads hrest (by simp [hopen, signs])⟩
  rw [if_neg hopen] at h
  by_cases hclose : x = ')'
  · rw [if_pos hclose] at h
    obtain ⟨rfl, rfl⟩ := Prod.mk.inj (Except.ok.inj h)
    exact ⟨_, sign_reads hrest (by simp [hclose, signs])⟩
  rw [if_neg hclose] at h
  by_cases hdot : x = '.'
  · rw [if_pos hdot] at h
    obtain ⟨rfl, rfl⟩ := Prod.mk.inj (Except.ok.inj h)
    exact directive_reads (hdot ▸ hrest)
  rw [if_neg hdot] at h
  by_cases hcomment : x = '#' ∨ x = ';'
  · rw [if_pos hcomment] at h
    obtain ⟨rfl, rfl⟩ := Prod.mk.inj (Except.ok.inj h)
    refine ⟨x :: r, ?_, nofun, ?_, rfl, rfl, rfl⟩
    · rw [skipComment, advance_rest, hall, hrest, List.append_nil, List.nil_append]
    · rw [skipComment, advance_rest, hall]
      exact .comment r hcomment
  · rw [if_neg hcomment] at h
    obtain ⟨rfl, rfl⟩ := Prod.mk.inj (Except.ok.inj h)
    refine ⟨x :: r, ?_, nofun, ?_, rfl, rfl, rfl⟩
    · rw [skipLine, advance_rest, hall, hrest, List.append_nil, List.nil_append]
    · rw [skipLine, advance_rest, hall]
      exact .other r ⟨hspace, hname, hnumber, by simp [*], hcomment⟩

theorem getNextToken_reads (h : l.getNextToken floatText = .ok (t, l')) :
    ∃ blanks c, Reads floatText l blanks c t l' := by
  suffices hreads : ∃ c, Reads floatText l.skipWhitespace [] c t l' by
    obtain ⟨c, hc⟩ := hreads
    exact ⟨_, c, hc.of_skipWhitespace⟩
  have hstart : Ends Decimal.isSpace l.skipWhitespace.rest := by
    rw [skipWhitespace, skipWhile_rest]
    exact ends_dropWhile
  unfold getNextToken at h
  cases hrest : l.skipWhitespace.rest with
  | nil =>
    rw [hrest] at h
    obtain ⟨rfl, rfl⟩ := Prod.mk.inj (Except.ok.inj h)
    exact ⟨[], by rw [hrest]; rfl, nofun, by rw [hrest]; exact .lineEnd, rfl, rfl, rfl⟩
  | cons c r =>
    rw [hrest] at h hstart
    exact tokenAt_reads hrest (hstart c rfl) h

/-- A character of one of the kinds that begin a lexeme is not white space. -/
theorem not_space {x : Char} {P : Char → Prop} [DecidablePred P] (hx : P x)
    (hP : [' ', '\t', '\n', '\x0b', '\x0c', '\r'].all fun y => !decide (P y)) :
    Decimal.isSpace x = false := by
  by_contra hspace
  simp only [Decimal.isSpace, Bool.not_eq_false, Bool.or_eq_true, beq_iff_eq] at hspace
  have hnot := List.all_eq_true.mp hP x (by simp only [List.mem_cons]; tauto)
  simp [hx] at hnot

theorem Lexeme.start {comma : Bool} {t : Option (TokenType × String)}
    (h : Lexeme floatText comma c r t) : Ends Decimal.isSpace (c ++ r) := by
  have hname {name : List Char} (hname : IsName name) (r : List Char) :
      Ends Decimal.isSpace (name ++ r) := by
    obtain ⟨x, cs, rfl, hx, -⟩ := hname
    rintro y ⟨⟩
    exact not_space (P := fun x => x.isAlpha = true ∨ x = '_') hx (by decide)
  cases h with
  | lineEnd => exact ends_nil
  | comment cs hc =>
    rintro y ⟨⟩
    exact not_space (P := fun x => x = '#' ∨ x = ';') hc (by decide)
  | label r h =>
    rw [List.append_assoc]
    exact hname h _
  | name h hr hcolon => exact hname h _
  | number hc hcs hr hread =>
    rintro y ⟨⟩
    exact not_space (P := fun x => x.isDigit = true ∨ x = '-') hc (by decide)
  | sign r hc =>
    rintro y ⟨⟩
    simp only [signs, List.mem_cons, List.not_mem_nil, Prod.mk.injEq, or_false] at hc
    rcases hc with ⟨rfl, -⟩ | ⟨rfl, -⟩ | ⟨rfl, -⟩ <;> decide
  | directive hcs hr =>
    rintro y ⟨⟩
    decide
  | string r hcs =>
    rintro y ⟨⟩
    decide
  | unterminated hcs =>
    rintro y ⟨⟩
    decide
  | other cs hc =>
    rintro y ⟨⟩
    exact hc.space

theorem name_chars {name : List Char} (h : IsName name) :
    ∀ x ∈ name, isIdentifierChar x = true := by
  obtain ⟨x, cs, rfl, hx, hcs⟩ := h
  intro y hy
  rcases List.mem_cons.mp hy with rfl | hy
  · rcases hx with hx | rfl
    · simp [isIdentifierChar, Char.isAlphanum, hx]
    · decide
  · exact hcs y hy

theorem identifier_label {name : List Char} (h : IsName name)
    (hrest : l.rest = name ++ ':' :: r) :
    l.identifier.2.rest = r ∧ l.identifier.1.value = String.ofList name ∧
      l.identifier.1.type = if name.contains '.' then .INVALID else .LABEL := by
  have hstop : Ends isIdentifierChar (':' :: r) := by
    rintro x ⟨⟩
    decide
  have htake := takeWhile_of_ends (name_chars h) hstop
  have hdrop := dropWhile_of_ends (name_chars h) hstop
  unfold identifier
  dsimp only
  rw [skipWhile_rest, hrest, hdrop, if_pos (by rfl), htake]
  exact ⟨by rw [advance_rest, skipWhile_rest, hrest, hdrop]; rfl, rfl, rfl⟩

theorem identifier_name {name : List Char} (h : IsName name) (hr : Ends isIdentifierChar r)
    (hcolon : r.head? ≠ some ':') (hrest : l.rest = name ++ r) :
    l.identifier.2.rest = r ∧ l.identifier.1.value = String.ofList name ∧
      l.identifier.1.type = (nameType (String.ofList name)).getD
        (if l.afterComma then .LABEL_REF else .INVALID) := by
  have htake := takeWhile_of_ends (name_chars h) hr
  have hdrop := dropWhile_of_ends (name_chars h) hr
  unfold identifier
  dsimp only
  rw [skipWhile_rest, hrest, hdrop, if_neg hcolon, htake]
  exact ⟨by rw [skipWhile_rest, hrest, hdrop], rfl, rfl⟩

theorem tokenAt_name {x : Char} (hx : x.isAlpha = true ∨ x = '_') :
    l.tokenAt floatText x = .ok (some l.identifier.1, l.identifier.2) := if_pos hx

theorem tokenAt_number {x : Char} (hx : x.isDigit = true ∨ x = '-') :
    l.tokenAt floatText x = l.number floatText >>= fun a => .ok (some a.1, a.2) := by
  have hname : ¬ (x.isAlpha = true ∨ x = '_') := by
    rcases hx with hx | rfl
    · rintro (h | rfl)
      · simp only [Char.isAlpha, Char.isUpper, Char.isLower, Char.isDigit, Bool.or_eq_true,
          Bool.and_eq_true, decide_eq_true_eq] at h hx
        grind
      · exact absurd hx (by decide)
    · decide
  unfold tokenAt
  rw [if_neg hname, if_pos hx]
  rfl

theorem tokenAt_unknown {x : Char} (hx : Unknown x) : l.tokenAt floatText x =
    .ok (some ⟨.INVALID, "", l.lineNumber, l.skipLine.columnNumber - 1⟩, l.skipLine) := by
  have hsign := hx.sign
  simp only [List.mem_cons, List.not_mem_nil, or_false, not_or] at hsign
  obtain ⟨hcomma, hquote, hopen, hclose, hdot⟩ := hsign
  unfold tokenAt
  rw [if_neg hx.name, if_neg hx.number, if_neg hcomma, if_neg hquote, if_neg hopen, if_neg hclose,
    if_neg hdot, if_neg hx.comment]

theorem number_eq {x : Char} {cs : List Char} {t : TokenType × String}
    (hx : x.isDigit = true ∨ x = '-') (hcs : ∀ y ∈ cs, isNumberChar y = true)
    (hr : Ends isNumberChar r) (hread : readNumber floatText (x :: cs) = .ok t)
    (hrest : l.rest = x :: cs ++ r) : l.number floatText =
        .ok (⟨t.1, t.2, l.lineNumber, l.columnNumber⟩, l.skipWhile isNumberChar) ∧
      (l.skipWhile isNumberChar).rest = r := by
  have hall : ∀ y ∈ x :: cs, isNumberChar y = true := by
    intro y hy
    rcases List.mem_cons.mp hy with rfl | hy
    · rcases hx with hx | rfl
      · simp [isNumberChar, Char.isAlphanum, hx]
      · decide
    · exact hcs y hy
  unfold number
  rw [skipWhile_rest, hrest, takeWhile_of_ends hall hr, dropWhile_of_ends hall hr, hread]
  exact ⟨rfl, rfl⟩

theorem stringLiteral_closed {cs : List Char} (hcs : '"' ∉ cs)
    (hrest : l.rest = '"' :: (cs ++ '"' :: r)) : l.stringLiteral.2.rest = r ∧
      l.stringLiteral.1.type = .STRING ∧ l.stringLiteral.1.value = String.ofList cs := by
  have hall : ∀ x ∈ cs, (x != '"') = true := fun x hx => by
    rw [bne_iff_ne]
    rintro rfl
    exact hcs hx
  have hstop : Ends (· != '"') ('"' :: r) := by
    rintro x ⟨⟩
    decide
  have htail : (l.advance 1).rest = cs ++ '"' :: r := by rw [advance_rest, hrest]; rfl
  have hdrop := dropWhile_of_ends hall hstop
  unfold stringLiteral
  dsimp only
  rw [skipWhile_rest, htail, hdrop, if_neg (by simp), takeWhile_of_ends hall hstop]
  exact ⟨by rw [advance_rest, skipWhile_rest, htail, hdrop]; rfl, rfl, rfl⟩

theorem stringLiteral_open {cs : List Char} (hcs : '"' ∉ cs) (hrest : l.rest = '"' :: cs) :
    l.stringLiteral.2.rest = [] ∧ l.stringLiteral.1.type = .INVALID ∧
      l.stringLiteral.1.value = "" := by
  have hall : ∀ x ∈ cs, (x != '"') = true := fun x hx => by
    rw [bne_iff_ne]
    rintro rfl
    exact hcs hx
  have htail : (l.advance 1).rest = cs := by rw [advance_rest, hrest]; rfl
  have hdrop := dropWhile_of_ends hall (ends_nil (f := (· != '"')))
  rw [List.append_nil] at hdrop
  unfold stringLiteral
  dsimp only
  rw [skipWhile_rest, htail, hdrop, if_pos (by rfl)]
  exact ⟨by rw [skipWhile_rest, htail, hdrop], rfl, rfl⟩

/-- What is read at a position is the lexeme there. -/
theorem getNextToken_of_lexeme {blanks : List Char} {t : Option (TokenType × String)}
    (hblanks : ∀ x ∈ blanks, Decimal.isSpace x = true)
    (h : Lexeme floatText l.afterComma c r t) (hrest : l.rest = blanks ++ (c ++ r)) :
    ∃ u l', l.getNextToken floatText = .ok (u, l') ∧ l'.rest = r ∧
      u.map (fun u => (u.type, u.value)) = t := by
  have hskip : l.skipWhitespace.rest = c ++ r := by
    rw [skipWhitespace, skipWhile_rest, hrest, dropWhile_of_ends hblanks h.start]
  have hcomma : l.skipWhitespace.afterComma = l.afterComma := rfl
  unfold getNextToken
  rw [hskip]
  generalize l.skipWhitespace = m at hskip hcomma
  rw [← hcomma] at h
  have hall : m.rest.drop m.rest.length = [] := List.drop_length
  cases h with
  | lineEnd => exact ⟨none, m, rfl, hskip, rfl⟩
  | @comment x cs hc =>
    have hat : m.tokenAt floatText x = .ok (none, m.skipComment) := by
      rcases hc with rfl | rfl <;> rfl
    exact ⟨none, m.skipComment, hat, hall, rfl⟩
  | label r hname =>
    obtain ⟨x, cs, rfl, hx, hcs⟩ := hname
    rw [List.append_assoc] at hskip
    obtain ⟨hr, hvalue, htype⟩ := identifier_label ⟨x, cs, rfl, hx, hcs⟩ hskip
    exact ⟨_, _, tokenAt_name hx, hr, by rw [Option.map_some, hvalue, htype]⟩
  | name hname hr hcolon =>
    obtain ⟨x, cs, rfl, hx, hcs⟩ := hname
    obtain ⟨hr, hvalue, htype⟩ := identifier_name ⟨x, cs, rfl, hx, hcs⟩ hr hcolon hskip
    exact ⟨_, _, tokenAt_name hx, hr, by rw [Option.map_some, hvalue, htype]⟩
  | @number x cs r t hc hcs hr hread =>
    obtain ⟨hnumber, hskip'⟩ := number_eq hc hcs hr hread hskip
    have hat : m.tokenAt floatText x =
        .ok (some ⟨t.1, t.2, m.lineNumber, m.columnNumber⟩, m.skipWhile isNumberChar) := by
      rw [tokenAt_number hc, hnumber]
      rfl
    exact ⟨_, _, hat, hskip', rfl⟩
  | @sign x type r hc =>
    have hat : m.tokenAt floatText x = .ok (some (m.token type [x]), m.advance 1) := by
      simp only [signs, List.mem_cons, List.not_mem_nil, Prod.mk.injEq, or_false] at hc
      rcases hc with ⟨rfl, rfl⟩ | ⟨rfl, rfl⟩ | ⟨rfl, rfl⟩ <;> rfl
    exact ⟨_, _, hat, by rw [advance_rest, hskip]; rfl, rfl⟩
  | @directive cs r hcs hr =>
    have htail : m.rest.tail = cs ++ r := by rw [hskip]; rfl
    refine ⟨some m.directive.1, m.directive.2, rfl, ?_, ?_⟩
    · simp only [directive, skipWhile_rest, htail, dropWhile_of_ends hcs hr]
    · simp only [directive, htail, takeWhile_of_ends hcs hr]
      rfl
  | string r hcs =>
    rw [List.cons_append, List.append_assoc] at hskip
    obtain ⟨hr, htype, hvalue⟩ := stringLiteral_closed hcs hskip
    exact ⟨_, _, rfl, hr, by rw [Option.map_some, hvalue, htype]⟩
  | unterminated hcs =>
    rw [List.append_nil] at hskip
    obtain ⟨hr, htype, hvalue⟩ := stringLiteral_open hcs hskip
    exact ⟨_, _, rfl, hr, by rw [Option.map_some, hvalue, htype]⟩
  | other cs hc => exact ⟨_, _, tokenAt_unknown hc, hall, rfl⟩

theorem Lexeme.end_of_nil {comma : Bool} {t : Option (TokenType × String)}
    (h : Lexeme floatText comma c r t) (hc : c = []) : r = [] := by
  cases h with
  | name hname hr hcolon =>
    obtain ⟨x, cs, rfl, -⟩ := hname
    exact nomatch hc
  | label r hname => simp at hc
  | lineEnd => rfl
  | comment | number | sign | directive | string | unterminated | other => exact nomatch hc

theorem inLine_iff : l.inLine = true ↔ l.rest ≠ [] := by simp [inLine]

/-- Every call inside a line reads on. -/
theorem Reads.shorter {blanks : List Char} (h : Reads floatText l blanks c t l')
    (hin : l.inLine = true) : l'.rest.length < l.rest.length := by
  by_cases hc : c = []
  · rw [h.lexeme.end_of_nil hc]
    exact List.length_pos_iff.mpr (inLine_iff.mp hin)
  · have hlength := congrArg List.length h.rest
    have hpos := List.length_pos_iff.mpr hc
    simp only [List.length_append] at hlength
    omega

/-! The tokens of a source. -/

theorem nameType_lexed {type : TokenType} {value : String} (line column : Nat)
    (h : nameType value = some type) : Token.Lexed ⟨type, value, line, column⟩ := by
  unfold nameType at h
  split at h
  · obtain rfl := Option.some.inj h
    assumption
  split at h
  · obtain rfl := Option.some.inj h
    assumption
  split at h
  · obtain rfl := Option.some.inj h
    assumption
  split at h
  · obtain rfl := Option.some.inj h
    assumption
  split at h
  · obtain rfl := Option.some.inj h
    assumption
  · exact nomatch h

theorem ofSigned_text {base skipped : Nat} {cs : List Char} {text : String}
    (h : NumberText.ofSigned base skipped cs = .ok text) :
    ∃ n : Int, text = toString n ∧ -2 ^ 63 ≤ n ∧ n < 2 ^ 64 := by
  unfold NumberText.ofSigned at h
  dsimp only at h
  split at h
  · rename_i hrange
    exact ⟨_, (Except.ok.inj h).symm, hrange.1, by omega⟩
  · exact nomatch h

theorem readNumber_lexed {cs : List Char} {type : TokenType} {value : String} (line column : Nat)
    (h : readNumber floatText cs = .ok (type, value)) :
    Token.Lexed ⟨type, value, line, column⟩ := by
  have hnum {x : Except Thrown String} (hx : ∀ text, x = .ok text →
      ∃ n : Int, text = toString n ∧ -2 ^ 63 ≤ n ∧ n < 2 ^ 64)
      (h : (x >>= fun text => .ok (TokenType.NUM, text)) = .ok (type, value)) :
      Token.Lexed ⟨type, value, line, column⟩ := by
    obtain ⟨text, htext, h⟩ := Loop.bind_eq_ok h
    obtain ⟨rfl, rfl⟩ := Prod.mk.inj (Except.ok.inj h)
    exact hx _ htext
  unfold readNumber at h
  split at h
  · refine hnum (fun text htext => ?_) h
    unfold NumberText.ofUnsignedHex at htext
    dsimp only at htext
    split at htext
    · obtain rfl := Except.ok.inj htext
      exact ⟨_, rfl, by omega, by omega⟩
    · exact nomatch htext
  split at h
  · exact hnum (fun _ => ofSigned_text) h
  split at h
  · exact hnum (fun _ => ofSigned_text) h
  split at h
  · exact hnum (fun _ => ofSigned_text) h
  split at h
  · exact hnum (fun _ => ofSigned_text) h
  split at h
  · obtain ⟨text, -, h⟩ := Loop.bind_eq_ok h
    obtain ⟨rfl, rfl⟩ := Prod.mk.inj (Except.ok.inj h)
    trivial
  · obtain ⟨rfl, rfl⟩ := Prod.mk.inj (Except.ok.inj h)
    trivial

theorem Lexeme.lexed {comma : Bool} {type : TokenType} {value : String}
    (h : Lexeme floatText comma c r (some (type, value))) (line column : Nat) :
    Token.Lexed ⟨type, value, line, column⟩ := by
  have hne {name : List Char} (hname : IsName name) : String.ofList name ≠ "" := by
    obtain ⟨x, cs, rfl, -⟩ := hname
    simp
  cases h with
  | @label cs r hname =>
    cases cs.contains '.' with
    | true => trivial
    | false => exact hne hname
  | name hname hr hcolon =>
    cases htype : nameType (String.ofList c) with
    | some type => exact nameType_lexed line column htype
    | none => cases comma with
      | true => exact hne hname
      | false => trivial
  | number hc hcs hr hread => exact readNumber_lexed line column hread
  | sign r hc =>
    simp only [signs, List.mem_cons, List.not_mem_nil, Prod.mk.injEq, or_false] at hc
    rcases hc with ⟨-, rfl⟩ | ⟨-, rfl⟩ | ⟨-, rfl⟩ <;> trivial
  | directive hcs hr => trivial
  | string r hcs => trivial
  | unterminated hcs => trivial
  | other cs hc => trivial

theorem readNumber_type {cs : List Char} {t : TokenType × String}
    (h : readNumber floatText cs = .ok t) : t.1 ∈ [TokenType.NUM, .FLOAT, .INVALID] := by
  have hbind {type : TokenType} {x : Except Thrown String}
      (hx : (x >>= fun text => .ok (type, text)) = .ok t) : t.1 = type := by
    obtain ⟨text, -, hx⟩ := Loop.bind_eq_ok hx
    rw [← Except.ok.inj hx]
  unfold readNumber at h
  split at h
  · simp [hbind h]
  split at h
  · simp [hbind h]
  split at h
  · simp [hbind h]
  split at h
  · simp [hbind h]
  split at h
  · simp [hbind h]
  split at h
  · simp [hbind h]
  · rw [← Except.ok.inj h]
    decide

theorem Lexeme.label_chars {comma : Bool} {value : String}
    (h : Lexeme floatText comma c r (some (.LABEL, value))) :
    ∀ x ∈ value.toList, isIdentifierChar x = true := by
  generalize htype : TokenType.LABEL = type at h
  cases h with
  | label r hname =>
    rw [String.toList_ofList]
    exact name_chars hname
  | name hname hr hcolon =>
    rw [String.toList_ofList]
    exact name_chars hname
  | number hc hcs hr hread =>
    subst htype
    exact absurd (readNumber_type hread) (by simp)
  | sign r hc =>
    subst htype
    simp [signs] at hc
  | directive hcs hr => cases htype
  | string r hcs => cases htype
  | unterminated hcs => cases htype
  | other cs hc => cases htype

theorem Reads.lexed {blanks : List Char} (h : Reads floatText l blanks c t l') :
    ∀ u ∈ t, u.Lexed := by
  rintro u ⟨⟩
  exact h.lexeme.lexed u.lineNumber u.columnNumber

theorem lineTurn_reads (h : l.lineTurn floatText = .ok l') :
    ∃ blanks c t m, Reads floatText l blanks c t m ∧ l' = m.push t := by
  obtain ⟨⟨t, m⟩, hm, h⟩ := Loop.bind_eq_ok h
  obtain rfl := Except.ok.inj h
  obtain ⟨blanks, c, hreads⟩ := getNextToken_reads hm
  exact ⟨blanks, c, t, m, hreads, rfl⟩

theorem lineTurn_shorter (hin : l.inLine = true) (h : l.lineTurn floatText = .ok l') :
    l'.rest.length < l.rest.length := by
  obtain ⟨blanks, c, t, m, hreads, rfl⟩ := lineTurn_reads h
  exact hreads.shorter hin

/-- The loop over a line ends at the end of the line. -/
theorem lexLine_steps (h : l.lexLine floatText = .ok l') :
    Loop.Steps inLine (lineTurn floatText) l l' ∧ l'.inLine = false :=
  Loop.exhaust_steps (fun _ _ _ => lineTurn_shorter) h

theorem lexLine_eq : l.lexLine floatText =
    if l.inLine then l.lineTurn floatText >>= lexLine floatText else .ok l :=
  Loop.exhaust_eq (fun _ _ => lineTurn_shorter) l

/-- The loop over a line goes on behind the lexeme at its beginning. -/
theorem lexLine_of_lexeme (blanks : List Char) {t : TokenType × String}
    (hblanks : ∀ x ∈ blanks, Decimal.isSpace x = true) (hc : c ≠ [])
    (h : Lexeme floatText l.afterComma c r (some t)) (hrest : l.rest = blanks ++ (c ++ r)) :
    ∃ (l' : Lexer) (column : Nat), l.lexLine floatText = l'.lexLine floatText ∧ l'.rest = r ∧
      l'.lineNumber = l.lineNumber ∧
      l'.tokens = l.tokens ++ [⟨t.1, t.2, l.lineNumber, column⟩] := by
  obtain ⟨u, m, hm, rfl, hmap⟩ := getNextToken_of_lexeme hblanks h hrest
  obtain ⟨_, _, hreads⟩ := getNextToken_reads hm
  have hin : l.inLine = true := by
    rw [inLine_iff, hrest]
    simp [hc]
  have hline := hreads.line
  cases u with
  | none => exact nomatch hmap
  | some u =>
    simp only [Option.map_some, Option.some.injEq] at hmap hline
    refine ⟨m.push (some u), u.columnNumber, ?_, rfl, hreads.lineNumber, ?_⟩
    · rw [lexLine_eq, if_pos hin, lineTurn, hm]
      rfl
    · rw [push, hreads.tokens, ← hmap, ← hline]
      rfl

theorem lexLine_end (h : l.rest = []) : l.lexLine floatText = .ok l := by
  rw [lexLine_eq, if_neg (by simp [inLine, h])]

/-- The loops only append. -/
theorem lexLine_append (h : l.lexLine floatText = .ok l') : l.tokens <+: l'.tokens := by
  refine (lexLine_steps h).1.invariant (fun m => l.tokens <+: m.tokens)
    (fun m m' hm _ hturn => ?_) List.prefix_rfl
  obtain ⟨blanks, c, t, n, hreads, rfl⟩ := lineTurn_reads hturn
  rw [push, hreads.tokens]
  exact hm.trans (List.prefix_append _ _)

/-- What holds of every lexeme that is read holds of the tokens of a source. -/
theorem lexLine_all {Q : Token → Prop}
    (hQ : ∀ l blanks c t l', Reads floatText l blanks c (some t) l' → Q t)
    (h : l.lexLine floatText = .ok l') (hl : ∀ t ∈ l.tokens, Q t) : ∀ t ∈ l'.tokens, Q t := by
  refine (lexLine_steps h).1.invariant (fun m => ∀ t ∈ m.tokens, Q t) (fun m m' hm _ hturn => ?_) hl
  obtain ⟨blanks, c, t, n, hreads, rfl⟩ := lineTurn_reads hturn
  intro u hu
  rcases List.mem_append.mp hu with hu | hu
  · exact hm u (hreads.tokens ▸ hu)
  · obtain rfl := Option.mem_toList.mp hu
    exact hQ m blanks c u n hreads

theorem lexLines_all {Q : Token → Prop}
    (hQ : ∀ l blanks c t l', Reads floatText l blanks c (some t) l' → Q t)
    {lines : List (List Char)} (h : lexLines floatText l lines = .ok l')
    (hl : ∀ t ∈ l.tokens, Q t) : ∀ t ∈ l'.tokens, Q t := by
  induction lines generalizing l with
  | nil => exact Except.ok.inj h ▸ hl
  | cons line lines ih =>
    obtain ⟨m, hm, h⟩ := Loop.bind_eq_ok h
    exact ih h (lexLine_all hQ hm hl)

theorem getTokenList_all {Q : Token → Prop}
    (hQ : ∀ l blanks c t l', Reads floatText l blanks c (some t) l' → Q t)
    (heof : ∀ line column, Q ⟨.EOF_, "", line, column⟩) {source : List (List Char)}
    {tokens : List Token} (h : getTokenList floatText source = .ok tokens) : ∀ t ∈ tokens, Q t := by
  obtain ⟨l, hl, h⟩ := Loop.bind_eq_ok h
  obtain rfl := Except.ok.inj h
  intro t ht
  rcases List.mem_append.mp ht with ht | ht
  · exact lexLines_all hQ hl nofun t ht
  · obtain rfl := List.mem_singleton.mp ht
    exact heof _ _

/-- The parser's assumption about its tokens holds for every source. -/
theorem getTokenList_lexed {source : List (List Char)} {tokens : List Token}
    (h : getTokenList floatText source = .ok tokens) : LexedTokens tokens :=
  getTokenList_all (fun _ _ _ _ _ hreads => hreads.lexed _ rfl) (fun _ _ => trivial) h

/-- The names of labels are made of the characters of an identifier. -/
theorem getTokenList_label {source : List (List Char)} {tokens : List Token}
    (h : getTokenList floatText source = .ok tokens) :
    ∀ t ∈ tokens, t.type = .LABEL → ∀ c ∈ t.value.toList, isIdentifierChar c = true := by
  refine getTokenList_all (fun l blanks c t l' hreads htype => ?_) (fun _ _ h => nomatch h) h
  have hlexeme := hreads.lexeme
  rw [Option.map_some, htype] at hlexeme
  exact hlexeme.label_chars

end Lexer

end RiscvSim
