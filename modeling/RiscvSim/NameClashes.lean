import RiscvSim.FirstPass
import RiscvSim.Templates
import RiscvSim.Termination

/-! The clashes of a label's name: a source for each of them, which tells two names apart. -/

namespace RiscvSim

open Lexer

def piece (type : TokenType) (value text : String) (line column : Nat) : Piece :=
  ⟨some ⟨type, value, line, column⟩, text.toList⟩

def endOfSource (line column : Nat) : Token := ⟨.EOF_, "", line, column⟩

/-- One name for each alignment. -/
def plainNames : List String := ["a", "byte", "halfword", "word", "dword"]

def reservedNames : List String := ["data", "section", "bss"]

/-- A source with some names for its label and what it shows of them. -/
structure Probe extends Template where
  shown : List (String × Option (Option View))
  shown_eq : ∀ e ∈ shown, outcome (toTemplate.namedTokens e.1) e.1 = e.2

/-- The name of a section has no end. -/
def soleLabel : Probe where
  base := "a"
  lines := ["a:"]
  pieces := [[piece .LABEL "a" "a:" 1 1]]
  last := endOfSource 1 3
  pieces_eq := by decide +kernel
  tokens_eq := by decide +kernel
  label_eq := by decide +kernel
  label_mem := by decide +kernel
  shown := ("text" :: plainNames).map fun r => (r, some (some ([], [], some 0)))
  shown_eq := by decide +kernel

/-- The name `text` ends the data section. -/
def dataLabel : Probe where
  base := "a"
  lines := [".data", "a:", ".word 1"]
  pieces := [[piece .DIRECTIVE "data" ".data" 1 1], [piece .LABEL "a" "a:" 2 1],
    [piece .DIRECTIVE "word" ".word" 3 1, piece .NUM "1" " 1" 3 6]]
  last := endOfSource 3 7
  pieces_eq := by decide +kernel
  tokens_eq := by decide +kernel
  label_eq := by decide +kernel
  label_mem := by decide +kernel
  shown := ("text", none) :: plainNames.map fun r => (r, some (some ([], [.word 1], some 0)))
  shown_eq := by decide +kernel

/-- The first definition is aligned as for a directive of the name. -/
def alignedLabel : Probe where
  base := "a"
  lines := [".data", ".byte 1", "a: a: .byte 1"]
  pieces := [[piece .DIRECTIVE "data" ".data" 1 1],
    [piece .DIRECTIVE "byte" ".byte" 2 1, piece .NUM "1" " 1" 2 6],
    [piece .LABEL "a" "a:" 3 1, piece .LABEL "a" " a:" 3 4, piece .DIRECTIVE "byte" " .byte" 3 7,
      piece .NUM "1" " 1" 3 12]]
  last := endOfSource 3 13
  pieces_eq := by decide +kernel
  tokens_eq := by decide +kernel
  label_eq := by decide +kernel
  label_mem := by decide +kernel
  shown := plainNames.map fun r => (r, ((DataDirective.ofName r).map DataDirective.alignment).map
    fun a => some ([], [.byte 1, .byte 1], some a))
  shown_eq := by decide +kernel

/-- A directive ends at an underscore. -/
def labelAfterDirective : Probe where
  base := "_a"
  lines := [".text_a:"]
  pieces := [[piece .DIRECTIVE "text" ".text" 1 1, piece .LABEL "_a" "_a:" 1 5]]
  last := endOfSource 1 8
  pieces_eq := by decide +kernel
  tokens_eq := by decide +kernel
  label_eq := by decide +kernel
  label_mem := by decide +kernel
  shown := plainNames.map fun r => (r, some (some ([], [], some 0)))
  shown_eq := by decide +kernel

/-- The data of `.zero 1` and of the number 2 behind the directive. -/
def DataDirective.two : DataDirective → Option (Option View)
  | .dword | .udword => some (some ([], [.byte 0, .doubleWord 2], none))
  | .word => some (some ([], [.byte 0, .word 2], none))
  | .halfword => some (some ([], [.byte 0, .halfWord 2], none))
  | .byte => some (some ([], [.byte 0, .byte 2], none))
  | .zero => some (some ([], [.byte 0, .byte 0, .byte 0], none))
  | .float | .double | .string => none

/-- The data of `.zero 1` and of the greatest number behind the directive. -/
def DataDirective.greatest : DataDirective → Option (Option View)
  | .udword => some (some ([], [.byte 0, .doubleWord (-1)], none))
  | _ => none

/-- A reference in a data section is read as the directive of its name. -/
def labelAsDirective : Probe where
  base := "a"
  lines := [".data", ".zero 1,a 2"]
  pieces := [[piece .DIRECTIVE "data" ".data" 1 1],
    [piece .DIRECTIVE "zero" ".zero" 2 1, piece .NUM "1" " 1" 2 6, piece .COMMA "," "," 2 7,
      piece .LABEL_REF "a" "a" 2 8, piece .NUM "2" " 2" 2 10]]
  last := endOfSource 2 11
  pieces_eq := by decide +kernel
  tokens_eq := by decide +kernel
  label_eq := by decide +kernel
  label_mem := by decide +kernel
  shown := DataDirective.names.map fun e => (e.1, e.2.two)
  shown_eq := by decide +kernel

/-- The directives of eight bytes differ in the largest number that they take. -/
def labelAsLargeDirective : Probe where
  base := "a"
  lines := [".data", ".zero 1,a 0xffffffffffffffff"]
  pieces := [[piece .DIRECTIVE "data" ".data" 1 1],
    [piece .DIRECTIVE "zero" ".zero" 2 1, piece .NUM "1" " 1" 2 6, piece .COMMA "," "," 2 7,
      piece .LABEL_REF "a" "a" 2 8, piece .NUM "18446744073709551615" " 0xffffffffffffffff" 2 10]]
  last := endOfSource 2 28
  pieces_eq := by decide +kernel
  tokens_eq := by decide +kernel
  label_eq := by decide +kernel
  label_mem := by decide +kernel
  shown := DataDirective.names.map fun e => (e.1, e.2.greatest)
  shown_eq := by decide +kernel

/-- The name of an operand is not a reference. -/
def jumpToLabel : Probe where
  base := "a"
  lines := ["jal x0,a", "a:"]
  pieces := [[piece .OPCODE "jal" "jal" 1 1, piece .GP_REGISTER "x0" " x0" 1 5,
    piece .COMMA "," "," 1 7, piece .LABEL_REF "a" "a" 1 8], [piece .LABEL "a" "a:" 2 1]]
  last := endOfSource 2 3
  pieces_eq := by decide +kernel
  tokens_eq := by decide +kernel
  label_eq := by decide +kernel
  label_mem := by decide +kernel
  shown := ("a" :: DataDirective.names.map Prod.fst).map fun r =>
    (r, some (some ([0x0040006f], [], some 4)))
  shown_eq := by decide +kernel


variable {n m x : String}

/-- The lexer's tables on a few names. -/
theorem nameType_table : nameType "jal" = some .OPCODE ∧ nameType "x0" = some .GP_REGISTER ∧
    nameType "add" = some .OPCODE ∧ nameType "bar" = none ∧
    ∀ r ∈ "text" :: reservedNames, nameType r = none := by decide +kernel

theorem exists_words (hreserved : x ∉ reservedNames) (htext : x ≠ "text") :
    ∃ r ∈ plainNames, SameWords r x := by
  have hwords {r : String} (hr : r ∉ reservedNames ∧ r ≠ "text")
      (halign : (DataDirective.ofName x).map DataDirective.alignment =
        (DataDirective.ofName r).map DataDirective.alignment) : SameWords r x :=
    ⟨iff_of_false htext hr.2, iff_of_false hreserved hr.1, halign⟩
  cases h : DataDirective.ofName x with
  | none => exact ⟨"a", by decide, hwords (by decide) (by rw [h]; decide)⟩
  | some d =>
    cases d with
    | byte | zero | string => exact ⟨"byte", by decide, hwords (by decide) (by rw [h]; decide)⟩
    | halfword => exact ⟨"halfword", by decide, hwords (by decide) (by rw [h]; decide)⟩
    | word | float => exact ⟨"word", by decide, hwords (by decide) (by rw [h]; decide)⟩
    | dword | double | udword => exact ⟨"dword", by decide, hwords (by decide) (by rw [h]; decide)⟩

theorem Probe.outcome_of_mem {P : Probe} {shown : Option (Option View)}
    (h : (x, shown) ∈ P.shown) : outcome (P.namedTokens x) x = shown := P.shown_eq (x, shown) h

theorem isLabelName_plain : ∀ r ∈ "text" :: plainNames, IsLabelName r := by decide

/-- What a source shows of one name it shows of the names like it. -/
theorem Template.shows_of_outcome {T : Template} {r : String} {v : View} (hdef : T.DefinesOnly) (hr : IsLabelName r)
    (hx : IsLabelName x) (hwords : SameWords r x)
    (h : outcome (T.namedTokens r) r = some (some v)) : Shows (T.namedTokens x) x v :=
  (T.shows_iff_of_words hr hx hwords (.inl hdef)).mp (.of_outcome h)

theorem accepts_of_assembled {cfg : ParserConfig} {turns : Nat} {tokens : List Token}
    {a : Assembly} (h : assembleTokens cfg turns tokens = .ok (some a)) :
    ∃ q, Parser.Accepts cfg tokens q ∧
      CodeGenerator.generateMachineCode q.intermediateCode = .ok a.textBuffer := by
  obtain ⟨result, hparse, h⟩ := Loop.bind_eq_ok h
  cases result with
  | yield p => cases h
  | done q =>
    dsimp only at h
    by_cases hcount : q.errors.count = 0
    · rw [if_pos hcount] at h
      obtain ⟨text, htext, h⟩ := Loop.bind_eq_ok h
      obtain rfl := Option.some.inj (Except.ok.inj h)
      exact ⟨q, ⟨⟨turns, hparse⟩, hcount⟩, htext⟩
    · rw [if_neg hcount] at h
      cases h

/-- No result is shown for a name that the first pass does not get past. -/
theorem not_shows_reserved {v : View} (hx : x ∈ reservedNames) :
    ¬ Shows (soleLabel.namedTokens x) x v := by
  rintro ⟨turns, a, ha, -⟩
  obtain ⟨q, ⟨⟨turns, hparse⟩, -⟩, -⟩ := accepts_of_assembled ha
  have hname : IsLabelName "a" := by decide
  have htokens : soleLabel.namedTokens x = [⟨.LABEL, x, 1, 1⟩, endOfSource 1 3] := by
    simp [Template.namedTokens, Template.tokens, soleLabel, piece, Token.named, Token.IsLabel,
      endOfSource, hname]
  have hempty : x ≠ "" := by
    rintro rfl
    exact absurd hx (by decide)
  have hlexed : LexedTokens (soleLabel.namedTokens x) := by
    rw [htokens]
    intro t ht
    simp only [List.mem_cons, List.not_mem_nil, or_false] at ht
    rcases ht with rfl | rfl
    · exact hempty
    · trivial
  refine Parser.unreached_of_terminates hlexed ⟨turns, .inl ⟨q, hparse⟩⟩ [] _ _ htokens (by simp)
    ⟨rfl, hx⟩ fun l t r hsplit => ?_
  simp at hsplit

theorem reserved_iff_not_shows (hx : IsLabelName x) : x ∈ reservedNames ↔
    ∀ v, ¬ Shows (soleLabel.namedTokens x) x v := by
  constructor
  · intro h v
    exact not_shows_reserved h
  · intro h
    by_contra hreserved
    by_cases htext : x = "text"
    · subst htext
      exact h _ (.of_outcome (soleLabel.outcome_of_mem (List.mem_map_of_mem List.mem_cons_self)))
    · obtain ⟨r, hr, hwords⟩ := exists_words hreserved htext
      have hr' : r ∈ "text" :: plainNames := List.mem_cons_of_mem _ hr
      exact h _ (soleLabel.shows_of_outcome (by decide) (isLabelName_plain r hr') hx hwords
        (soleLabel.outcome_of_mem (List.mem_map_of_mem hr')))

theorem text_iff_not_shows (hx : IsLabelName x) (hreserved : x ∉ reservedNames) : x = "text" ↔
    ∀ v, ¬ Shows (dataLabel.namedTokens x) x v := by
  constructor
  · rintro rfl v
    exact not_shows (dataLabel.outcome_of_mem List.mem_cons_self)
  · intro h
    by_contra htext
    obtain ⟨r, hr, hwords⟩ := exists_words hreserved htext
    exact h _ (dataLabel.shows_of_outcome (by decide)
      (isLabelName_plain r (List.mem_cons_of_mem _ hr)) hx hwords
      (dataLabel.outcome_of_mem (List.mem_cons_of_mem _ (List.mem_map_of_mem hr))))

namespace Parser

variable {cfg : ParserConfig} {p q r v w : Parser} {t : Token} {tokens : List Token}

/-- What is accepted begins with a section. -/
theorem Accepted.enter (h : Accepted cfg (t :: tokens) p r q) (ht : t.type ≠ .EOF_) :
    Section.enter t ≠ none := by
  intro hnone
  obtain ⟨s, hscan⟩ := h.scan
  have hstop := h.stop
  have hfirst := h.first
  cases hscan with
  | refl => exact ht (by simpa [notEof, currentToken, initial] using hstop)
  | @step _ x _ hcond hbody hrest =>
    obtain ⟨s', u⟩ := x
    obtain ⟨-, htoken⟩ := scanTurn_eq_ok hbody
    have henter : Section.enter (initial (t :: tokens)).currentToken = none := hnone
    have hturn : firstTurn cfg (initial (t :: tokens)) = .ok u := by
      rw [← htoken]
      simp only [Section.at_, scanToken, henter]
    have hle := Scan.count hrest
    cases firstTurn_step hturn with
    | failed _ _ herrors =>
      change _ ≤ p.errors.count at hle
      rw [hfirst] at hle
      exact absurd herrors (by simp only at hle; omega)
    | next hsome => rw [henter] at hsome; cases hsome
    | data hsome => rw [henter] at hsome; cases hsome
    | bss hsome => rw [henter] at hsome; cases hsome
    | text hsome => rw [henter] at hsome; cases hsome

/-- The target of a jump is a number or a reference. -/
theorem jump_refused (htype : v.currentToken.type = .OPCODE) (hvalue : v.currentToken.value = "jal")
    (htarget : (v.peekToken 3).type ∉ [TokenType.NUM, .LABEL_REF]) (h : textTurn cfg v = .ok w) :
    v.errors.count < w.errors.count := by
  have hline {type : TokenType} (htype : type ∈ [TokenType.NUM, .LABEL_REF]) :
      v.lineIs [.GP_REGISTER, .COMMA, type] = false := by
    rw [Bool.eq_false_iff]
    intro hline
    have hthird := lineIs_type hline (i := 2) rfl
    exact htarget (hthird ▸ htype)
  have hextension : InstructionSet.isValidMExtensionInstruction "jal" = false := by decide +kernel
  have hsyntaxes : InstructionSet.syntaxes "jal" = [.O_GPR_C_I, .O_GPR_C_IL] := by decide +kernel
  simp only [textTurn, htype, parseStatement, hvalue, hextension, hsyntaxes, parseSyntaxes,
    parseSyntax, parseOGprCI, parseOGprCIl, @hline .NUM (by decide),
    @hline .LABEL_REF (by decide), Bool.false_eq_true, false_and, if_false] at h
  obtain rfl := Except.ok.inj h
  exact fail_count _ _ _ _ _

end Parser

/-! The two sources that are read as other tokens under the new name. -/

theorem source_labelAfterDirective (x : String) :
    labelAfterDirective.source x = [".text".toList ++ (x.toList ++ [':'])] := by
  have hdirective : (piece .DIRECTIVE "text" ".text" 1 1).label = none := by decide
  have hlabel : (piece .LABEL "_a" "_a:" 1 5).label = some "_a" := by decide
  simp only [Template.source, labelAfterDirective, List.map_cons, List.map_nil, List.flatMap_cons,
    List.flatMap_nil, Piece.rename_of_none hdirective,
    Piece.rename_of_label (r := [':']) hlabel rfl]
  simp [piece]

theorem source_jumpToLabel (x : String) :
    jumpToLabel.source x = ["jal x0,".toList ++ x.toList, x.toList ++ [':']] := by
  have hjal : (piece .OPCODE "jal" "jal" 1 1).label = none := by decide
  have hx0 : (piece .GP_REGISTER "x0" " x0" 1 5).label = none := by decide
  have hcomma : (piece .COMMA "," "," 1 7).label = none := by decide
  have hreference : (piece .LABEL_REF "a" "a" 1 8).label = some "a" := by decide
  have hlabel : (piece .LABEL "a" "a:" 2 1).label = some "a" := by decide
  simp only [Template.source, jumpToLabel, List.map_cons, List.map_nil, List.flatMap_cons,
    List.flatMap_nil, Piece.rename_of_none hjal, Piece.rename_of_none hx0,
    Piece.rename_of_none hcomma,
    Piece.rename_of_label (r := []) hreference rfl, Piece.rename_of_label (r := [':']) hlabel rfl]
  simp [piece]

theorem lexLines_append {lines : List (List Char)} {floatText : String → Except Thrown String}
    {l l' : Lexer} (h : lexLines floatText l lines = .ok l') : l.tokens <+: l'.tokens := by
  induction lines generalizing l with
  | nil => exact Except.ok.inj h ▸ List.prefix_rfl
  | cons line lines ih =>
    obtain ⟨m, hm, h⟩ := Loop.bind_eq_ok h
    exact (lexLine_append hm).trans (ih h)

/-- An accepted source, its tokens and their parse. -/
theorem Assembles.accepted {source : List (List Char)} {a : Assembly}
    (h : Assembles .default noFloat source a) : ∃ tokens l p r q,
      lexLines noFloat {} source = .ok l ∧ l.tokens <+: tokens ∧ LexedTokens tokens ∧
        Parser.Accepted .default tokens p r q := by
  obtain ⟨turns, h⟩ := h
  obtain ⟨tokens, htokens, h⟩ := Loop.bind_eq_ok h
  have hlexed := getTokenList_lexed htokens
  obtain ⟨l, hl, htokens⟩ := Loop.bind_eq_ok htokens
  obtain ⟨q, haccepts, -⟩ := accepts_of_assembled h
  obtain ⟨p, r, haccepted⟩ := Parser.accepted_of_accepts hlexed haccepts
  exact ⟨tokens, l, p, r, q, hl, Except.ok.inj htokens ▸ List.prefix_append _ _, hlexed, haccepted⟩

/-- A line that begins with a dot begins with a directive. -/
theorem lexLine_directive {cs : List Char} {l : Lexer}
    (h : lexLine noFloat (readLine {} ('.' :: cs)) = .ok l) : ∃ column,
      [⟨.DIRECTIVE, String.ofList (cs.takeWhile Char.isAlpha), 1, column⟩] <+: l.tokens := by
  have hlexeme : Lexeme noFloat (readLine {} ('.' :: cs)).afterComma
      ('.' :: cs.takeWhile Char.isAlpha) (cs.dropWhile Char.isAlpha) _ :=
    .directive (fun _ => mem_takeWhile) ends_dropWhile
  obtain ⟨m, column, hlex, -, -, hm⟩ := lexLine_of_lexeme [] nofun (by simp) hlexeme (by
    rw [List.nil_append, List.cons_append, List.takeWhile_append_dropWhile]
    rfl)
  rw [hlex] at h
  have hprefix := lexLine_append h
  rw [hm] at hprefix
  exact ⟨column, hprefix⟩

theorem underscore_of_assembles {a : Assembly} (hx : IsLabelName x)
    (h : Assembles .default noFloat (labelAfterDirective.source x) a) :
    x.toList.head? = some '_' := by
  obtain ⟨⟨c, cs, hcs, hc | rfl, -⟩, -⟩ := hx
  · exfalso
    rw [source_labelAfterDirective, hcs] at h
    obtain ⟨tokens, l, p, r, q, hl, hprefix, -, haccepted⟩ := h.accepted
    obtain ⟨m, hm, hl⟩ := Loop.bind_eq_ok hl
    obtain rfl := Except.ok.inj hl
    change lexLine noFloat (readLine {} ('.' :: ("text".toList ++ (c :: cs ++ [':'])))) = _ at hm
    obtain ⟨column, hfirst⟩ := lexLine_directive hm
    obtain ⟨rest, rfl⟩ := hfirst.trans hprefix
    refine haccepted.enter nofun ?_
    -- the letter belongs to the directive, which is longer than `text`
    have hlong : ("text".toList ++ (c :: cs ++ [':'])).takeWhile Char.isAlpha =
        't' :: 'e' :: 'x' :: 't' :: c :: (cs ++ [':']).takeWhile Char.isAlpha := by
      simp [hc]
    rw [hlong]
    have hother : ∀ name ∈ ["text", "data", "section", "bss"],
        String.ofList ('t' :: 'e' :: 'x' :: 't' :: c :: (cs ++ [':']).takeWhile Char.isAlpha) ≠
          name := by
      rintro _ hname rfl
      simp only [List.mem_cons, List.not_mem_nil, or_false, String.ext_iff, String.toList_ofList]
        at hname
      simp at hname
    generalize String.ofList _ = value at hother
    simp only [List.mem_cons, List.not_mem_nil, or_false, forall_eq_or_imp, forall_eq] at hother
    simp [Section.enter, hother]
  · rw [hcs]
    rfl

/-- The tokens of a jump to an operand. -/
theorem lexLine_jump {type : TokenType} {l : Lexer} (hx : IsLabelName x)
    (htype : nameType x = some type)
    (h : lexLine noFloat (readLine {} ("jal x0,".toList ++ x.toList)) = .ok l) :
    ∃ c₁ c₂ c₃ c₄, [⟨.OPCODE, "jal", 1, c₁⟩, ⟨.GP_REGISTER, "x0", 1, c₂⟩, ⟨.COMMA, ",", 1, c₃⟩,
      ⟨type, x, 1, c₄⟩] <+: l.tokens := by
  obtain ⟨hjal, hx0, -⟩ := nameType_table
  have hlexeme₁ : Lexeme noFloat (readLine {} ("jal x0,".toList ++ x.toList)).afterComma
      "jal".toList (" x0,".toList ++ x.toList) _ :=
    .operand (by decide) hjal (by rintro y ⟨⟩; decide) (by simp)
  obtain ⟨l₁, c₁, hlex₁, hrest₁, hline₁, ht₁⟩ := lexLine_of_lexeme [] (by simp) (by decide) hlexeme₁ rfl
  have hlexeme₂ : Lexeme noFloat l₁.afterComma "x0".toList (',' :: x.toList) _ :=
    .operand (by decide) hx0 (by rintro y ⟨⟩; decide) (by simp)
  obtain ⟨l₂, c₂, hlex₂, hrest₂, hline₂, ht₂⟩ :=
    lexLine_of_lexeme [' '] (by simp [Decimal.isSpace]) (by decide) hlexeme₂ hrest₁
  have hlexeme₃ : Lexeme noFloat l₂.afterComma [','] x.toList (some (.COMMA, ",")) :=
    .sign _ (by decide)
  obtain ⟨l₃, c₃, hlex₃, hrest₃, hline₃, ht₃⟩ :=
    lexLine_of_lexeme [] (by simp) (by decide) hlexeme₃ hrest₂
  have hlexeme₄ : Lexeme noFloat l₃.afterComma x.toList [] _ :=
    .operand hx.1 htype ends_nil (by simp)
  have hname : x.toList ≠ [] := by
    obtain ⟨⟨c, cs, hcs, -⟩, -⟩ := hx
    rw [hcs]
    exact List.cons_ne_nil c cs
  obtain ⟨l₄, c₄, hlex₄, -, -, ht₄⟩ :=
    lexLine_of_lexeme [] (by simp) hname hlexeme₄ (by rw [hrest₃]; simp)
  rw [hlex₁, hlex₂, hlex₃, hlex₄] at h
  have hprefix := lexLine_append h
  rw [ht₄, ht₃, ht₂, ht₁, hline₃, hline₂, hline₁] at hprefix
  exact ⟨c₁, c₂, c₃, c₄, hprefix⟩

theorem not_assembles_operand {type : TokenType} {a : Assembly} (hx : IsLabelName x)
    (htype : nameType x = some type) : ¬ Assembles .default noFloat (jumpToLabel.source x) a := by
  intro h
  rw [source_jumpToLabel] at h
  obtain ⟨tokens, l, p, r, q, hl, hprefix, hlexed, haccepted⟩ := h.accepted
  obtain ⟨m, hm, hl⟩ := Loop.bind_eq_ok hl
  obtain ⟨c₁, c₂, c₃, c₄, hfirst⟩ := lexLine_jump hx htype hm
  obtain ⟨rest, rfl⟩ := (hfirst.trans (lexLines_append hl)).trans hprefix
  obtain ⟨s, hscan⟩ := haccepted.scan
  have hrest : p.restart.rest = _ := hscan.untouched.tokens
  have hcurrent : p.restart.currentToken = ⟨.OPCODE, "jal", 1, c₁⟩ := by
    rw [Parser.currentToken, hrest]
    rfl
  have htarget : p.restart.peekToken 3 = ⟨type, x, 1, c₄⟩ := by
    rw [Parser.peekToken, hrest]
    rfl
  have hend : p.restart.notEof = true := by
    rw [Parser.notEof, hcurrent]
    rfl
  have hvisit : Parser.TextVisit .default p.restart p.restart := by
    refine ⟨p.restart, p.restart, .refl _, hend, ?_, .refl _⟩
    simp [Parser.entersText, Parser.atDirective, hcurrent]
  have hin : p.restart.inText = true := by
    rw [Parser.inText, hend, hcurrent]
    rfl
  obtain ⟨w, hturn, -, -, hzero, hzero'⟩ := haccepted.turn hlexed hvisit hin
  have htypes : ∀ type ∈ [TokenType.OPCODE, .GP_REGISTER, .FP_REGISTER, .CSR_REGISTER, .RM],
      type ∉ [TokenType.NUM, .LABEL_REF] := by decide
  have hcount := Parser.jump_refused (by rw [hcurrent]) (by rw [hcurrent])
    (by rw [htarget]; exact htypes type (mem_of_nameType htype)) hturn
  omega

theorem directives_differ {d d' : DataDirective} (halign : d.alignment = d'.alignment)
    (htwo : d.two = d'.two) (hgreatest : d.greatest = d'.greatest) : d = d' := by
  cases d <;> cases d' <;> simp_all [DataDirective.alignment, DataDirective.two,
    DataDirective.greatest]

theorem two_ne (d : DataDirective) : d.two ≠ some none := by cases d <;> nofun

theorem greatest_ne (d : DataDirective) : d.greatest ≠ some none := by cases d <;> nofun

/-! An immaterial renaming keeps what the sources above tell apart. -/

section

variable {names : Set String} {ρ : String → String} {v : View}

theorem Template.reads_definition {T : Template} (hdef : T.DefinesOnly)
    (hbase : T.base.toList.head? ≠ some '_') (hx : IsLabelName x) : T.Reads x :=
  ⟨hx, fun h => absurd h hbase, .inl hdef⟩

theorem Template.Reads.shows_iff_renamed {T : Template} (hsame : Immaterial names ρ)
    (hn : n ∈ names) (h : T.Reads n) (h' : T.Reads (ρ n)) :
    Shows (T.namedTokens n) n v ↔ Shows (T.namedTokens (ρ n)) (ρ n) v :=
  (h.shows_renamed hsame hn).trans h'.shows_iff.symm

variable (hρ : IsRenaming names ρ) (hsame : Immaterial names ρ) (hn : n ∈ names)
include hρ hsame hn

theorem Immaterial.shows_definition {T : Template} (hdef : T.DefinesOnly)
    (hbase : T.base.toList.head? ≠ some '_') :
    Shows (T.namedTokens n) n v ↔ Shows (T.namedTokens (ρ n)) (ρ n) v :=
  (T.reads_definition hdef hbase (hρ.label n hn)).shows_iff_renamed hsame hn
    (T.reads_definition hdef hbase (hρ.valid n hn))

theorem Immaterial.reserved : ρ n ∈ reservedNames ↔ n ∈ reservedNames := by
  rw [reserved_iff_not_shows (hρ.valid n hn), reserved_iff_not_shows (hρ.label n hn)]
  exact forall_congr' fun v =>
    not_congr (shows_definition hρ hsame hn (by decide) (by decide)).symm

theorem Immaterial.text : ρ n = "text" ↔ n = "text" := by
  by_cases hreserved : n ∈ reservedNames
  · have hother : ∀ r ∈ reservedNames, r ≠ "text" := by decide
    exact iff_of_false (hother _ ((reserved hρ hsame hn).mpr hreserved)) (hother n hreserved)
  · have hreserved' := fun h => hreserved ((reserved hρ hsame hn).mp h)
    rw [text_iff_not_shows (hρ.valid n hn) hreserved', text_iff_not_shows (hρ.label n hn) hreserved]
    exact forall_congr' fun v =>
      not_congr (shows_definition hρ hsame hn (by decide) (by decide)).symm

theorem Immaterial.alignment : (DataDirective.ofName (ρ n)).map DataDirective.alignment =
    (DataDirective.ofName n).map DataDirective.alignment := by
  by_cases hreserved : n ∈ reservedNames
  · have hnone : ∀ r ∈ reservedNames, DataDirective.ofName r = none := by decide
    rw [hnone _ ((reserved hρ hsame hn).mpr hreserved), hnone n hreserved]
  by_cases htext : n = "text"
  · rw [(text hρ hsame hn).mpr htext, htext]
  obtain ⟨r, hr, hwords⟩ := exists_words hreserved htext
  obtain ⟨r', hr', hwords'⟩ := exists_words (fun h => hreserved ((reserved hρ hsame hn).mp h))
    (fun h => htext ((text hρ hsame hn).mp h))
  have hlabel := isLabelName_plain r (List.mem_cons_of_mem _ hr)
  have hlabel' := isLabelName_plain r' (List.mem_cons_of_mem _ hr')
  have hshows (v : View) : Shows (alignedLabel.namedTokens r) r v ↔
      Shows (alignedLabel.namedTokens r') r' v := by
    rw [alignedLabel.shows_iff_of_words hlabel (hρ.label n hn) hwords (.inl (by decide)),
      shows_definition hρ hsame hn (by decide) (by decide),
      alignedLabel.shows_iff_of_words hlabel' (hρ.valid n hn) hwords' (.inl (by decide))]
  have hknown : ∀ r ∈ plainNames, outcome (alignedLabel.namedTokens r) r ≠ some none := by
    intro r hr
    rw [alignedLabel.outcome_of_mem (List.mem_map_of_mem hr)]
    cases (DataDirective.ofName r).map DataDirective.alignment <;> nofun
  have heq := outcome_congr hshows (hknown r hr) (hknown r' hr')
  rw [alignedLabel.outcome_of_mem (List.mem_map_of_mem hr),
    alignedLabel.outcome_of_mem (List.mem_map_of_mem hr'), ← hwords.alignment,
    ← hwords'.alignment] at heq
  refine (Option.map_injective (fun a b hab => ?_) heq).symm
  simpa using hab

theorem Immaterial.sameWords : SameWords n (ρ n) :=
  ⟨text hρ hsame hn, reserved hρ hsame hn, alignment hρ hsame hn⟩

theorem Immaterial.underscore (hunderscore : n.toList.head? = some '_') :
    (ρ n).toList.head? = some '_' := by
  have hother {r : String} (hr : r.toList.head? ≠ some '_') : n ≠ r := by
    rintro rfl
    exact hr hunderscore
  have hreserved : n ∉ reservedNames := by
    intro h
    have hall : ∀ r ∈ reservedNames, r.toList.head? ≠ some '_' := by decide
    exact hall n h hunderscore
  obtain ⟨r, hr, hwords⟩ := exists_words hreserved (hother (by decide))
  have hshows := labelAfterDirective.shows_of_outcome (by decide)
    (isLabelName_plain r (List.mem_cons_of_mem _ hr)) (hρ.label n hn) hwords
    (labelAfterDirective.outcome_of_mem (List.mem_map_of_mem hr))
  have hreads : labelAfterDirective.Reads n :=
    ⟨hρ.label n hn, fun _ => hunderscore, .inl (by decide)⟩
  obtain ⟨b, hb, -⟩ := (hreads.shows_renamed hsame hn).mp hshows
  exact underscore_of_assembles (hρ.valid n hn) hb

theorem Immaterial.nameType (hnone : Lexer.nameType n = none) : Lexer.nameType (ρ n) = none := by
  by_cases htext : n = "text"
  · exact nameType_table.2.2.2.2 _ (List.mem_cons.mpr (.inl ((text hρ hsame hn).mpr htext)))
  by_cases hreserved : n ∈ reservedNames
  · exact nameType_table.2.2.2.2 _ (List.mem_cons_of_mem _ ((reserved hρ hsame hn).mpr hreserved))
  have hshows : Shows (jumpToLabel.namedTokens n) n ([0x0040006f], [], some 4) := by
    cases hdirective : DataDirective.ofName n with
    | none =>
      have hwords : SameWords "a" n := by
        refine ⟨iff_of_false htext (by decide), iff_of_false hreserved (by decide), ?_⟩
        rw [hdirective]
        decide
      refine (jumpToLabel.shows_iff_of_words (by decide) (hρ.label n hn) hwords (.inr ?_)).mp
        (.of_outcome (jumpToLabel.outcome_of_mem (List.mem_map_of_mem List.mem_cons_self)))
      rw [SameDirective, hdirective]
      decide
    | some d =>
      have hmem : (n, d) ∈ DataDirective.names := Parser.mem_of_lookup hdirective
      exact .of_outcome (jumpToLabel.outcome_of_mem
        (List.mem_map_of_mem (List.mem_cons_of_mem _ (List.mem_map_of_mem hmem))))
  have hreads : jumpToLabel.Reads n :=
    ⟨hρ.label n hn, fun h => absurd h (by decide), .inr hnone⟩
  obtain ⟨b, hb, -⟩ := (hreads.shows_renamed hsame hn).mp hshows
  cases htype : Lexer.nameType (ρ n) with
  | none => rfl
  | some type => exact absurd hb (not_assembles_operand (hρ.valid n hn) htype)

theorem Immaterial.sameDirective (hnone : Lexer.nameType n = none) : SameDirective n (ρ n) := by
  have halign := alignment hρ hsame hn
  rw [SameDirective]
  cases hdirective : DataDirective.ofName n with
  | none =>
    rw [hdirective] at halign
    exact Option.map_eq_none_iff.mp halign
  | some d =>
    rw [hdirective] at halign
    obtain ⟨d', hd', halign⟩ := Option.map_eq_some_iff.mp halign
    have hmem : (n, d) ∈ DataDirective.names := Parser.mem_of_lookup hdirective
    have hmem' : (ρ n, d') ∈ DataDirective.names := Parser.mem_of_lookup hd'
    have hnone' := Immaterial.nameType hρ hsame hn hnone
    have hreads {T : Template} (hbase : T.base.toList.head? ≠ some '_') (v : View) :
        Shows (T.namedTokens n) n v ↔ Shows (T.namedTokens (ρ n)) (ρ n) v :=
      Template.Reads.shows_iff_renamed hsame hn
        ⟨hρ.label n hn, fun h => absurd h hbase, .inr hnone⟩
        ⟨hρ.valid n hn, fun h => absurd h hbase, .inr hnone'⟩
    have htwo := outcome_congr (hreads (T := labelAsDirective.toTemplate) (by decide))
      (by rw [labelAsDirective.outcome_of_mem (List.mem_map_of_mem hmem)]; exact two_ne d)
      (by rw [labelAsDirective.outcome_of_mem (List.mem_map_of_mem hmem')]; exact two_ne d')
    have hgreatest := outcome_congr (hreads (T := labelAsLargeDirective.toTemplate) (by decide))
      (by rw [labelAsLargeDirective.outcome_of_mem (List.mem_map_of_mem hmem)]; exact greatest_ne d)
      (by rw [labelAsLargeDirective.outcome_of_mem (List.mem_map_of_mem hmem')]; exact greatest_ne d')
    rw [labelAsDirective.outcome_of_mem (List.mem_map_of_mem hmem),
      labelAsDirective.outcome_of_mem (List.mem_map_of_mem hmem')] at htwo
    rw [labelAsLargeDirective.outcome_of_mem (List.mem_map_of_mem hmem),
      labelAsLargeDirective.outcome_of_mem (List.mem_map_of_mem hmem')] at hgreatest
    rw [hd', directives_differ halign.symm htwo hgreatest]

theorem Immaterial.alike : Alike n (ρ n) where
  toSameWords := sameWords hρ hsame hn
  underscore := underscore hρ hsame hn
  reference hnone := ⟨Immaterial.nameType hρ hsame hn hnone, sameDirective hρ hsame hn hnone⟩

end

end RiscvSim
