import RiscvSim.ParallelParses

/-! Two parses of tokens that differ in the names of their labels. As long as the comparisons of
the parser treat the names alike, the two stay in step. -/

namespace RiscvSim

/-- The comparisons of the parser do not tell two names of a label apart where it is defined. -/
structure SameWords (n m : String) : Prop where
  text : m = "text" ↔ n = "text"
  section_ : m ∈ ["data", "section", "bss"] ↔ n ∈ ["data", "section", "bss"]
  alignment : (DataDirective.ofName m).map DataDirective.alignment =
    (DataDirective.ofName n).map DataDirective.alignment

/-- Names that can be told apart are given names that can be told apart. -/
structure Relabeling (names : Set String) (ρ : String → String) : Prop where
  injOn : Set.InjOn ρ names
  words : ∀ n ∈ names, SameWords n (ρ n)
  empty : "" ∈ names ∧ ρ "" = ""

/-- `t'` is `t` with another name if it is a label, and with a name that is related to the old
one if the label is used there; the columns may differ. -/
structure Token.Respelled (names : Set String) (ρ : String → String)
    (Kept : String → String → Prop) (t t' : Token) : Prop where
  type : t'.type = t.type
  line : t'.lineNumber = t.lineNumber
  label : t.IsLabel → t.value ∈ names ∧ t'.value = ρ t.value
  reference : t.type = .LABEL_REF → Kept t.value t'.value
  other : ¬ t.IsLabel → t'.value = t.value

/-- Both names are that of the same directive, or of none. -/
def SameDirective (n m : String) : Prop := DataDirective.ofName m = DataDirective.ofName n

abbrev Token.Relabeled (names : Set String) (ρ : String → String) : Token → Token → Prop :=
  Token.Respelled names ρ SameDirective

/-- `u'` is `u` with another name for its label. -/
structure ICUnit.Relabeled (names : Set String) (ρ : String → String) (u u' : ICUnit × Bool) :
    Prop where
  label : u.1.label ∈ names
  unit : u' = ({ u.1 with label := ρ u.1.label }, u.2)

namespace Parser

/-- The parsers agree but for the names of the labels and the texts of the errors. -/
structure Relabeled (names : Set String) (ρ : String → String) (p q : Parser) : Prop where
  tokens : List.Forall₂ (Token.Relabeled names ρ) p.tokens q.tokens
  rest : List.Forall₂ (Token.Relabeled names ρ) p.rest q.rest
  instructionIndex : q.instructionIndex = p.instructionIndex
  count : q.errors.count = p.errors.count
  dataBuffer : q.dataBuffer = p.dataBuffer
  dataIndex : q.dataIndex = p.dataIndex
  symbols : ∀ n ∈ names, q.symbolTable (ρ n) = p.symbolTable n
  backPatch : q.backPatch = p.backPatch
  code : List.Forall₂ (ICUnit.Relabeled names ρ) p.intermediateCode q.intermediateCode

variable {cfg : ParserConfig} {names : Set String} {ρ : String → String} {p q : Parser}

theorem relabeled_eofToken : Token.Relabeled names ρ eofToken eofToken :=
  ⟨rfl, rfl, fun h => absurd h (by decide), fun _ => rfl, fun _ => rfl⟩

namespace Relabeled

theorem peekToken (h : Relabeled names ρ p q) (n : Nat) :
    Token.Relabeled names ρ (p.peekToken n) (q.peekToken n) :=
  forall₂_headD relabeled_eofToken (List.forall₂_drop n h.rest)

theorem currentToken (h : Relabeled names ρ p q) :
    Token.Relabeled names ρ p.currentToken q.currentToken :=
  forall₂_headD relabeled_eofToken h.rest

theorem notEof (h : Relabeled names ρ p q) : q.notEof = p.notEof := by
  rw [Parser.notEof, h.currentToken.type]
  rfl

theorem nextToken (h : Relabeled names ρ p q) : Relabeled names ρ p.nextToken q.nextToken :=
  { h with
    rest := by
      have hdrop := List.forall₂_drop 1 h.rest
      rwa [List.drop_one, List.drop_one] at hdrop }

theorem failWith (h : Relabeled names ρ p q) (message message' : String)
    (error error' : DetailedError) :
    Relabeled names ρ (p.failWith message error) (q.failWith message' error') :=
  { h with count := congrArg (· + 1 + 1) h.count }

theorem fail (h : Relabeled names ρ p q) (t t' : Token) (message message' : String)
    (kind kind' : ErrorKind) (main main' sub sub' : String) :
    Relabeled names ρ (p.fail t message kind main sub) (q.fail t' message' kind' main' sub') :=
  h.failWith _ _ _ _

theorem define (hρ : Relabeling names ρ) (h : Relabeled names ρ p q) {n : String} (hn : n ∈ names)
    (symbol : SymbolData) : Relabeled names ρ (p.define n symbol) (q.define (ρ n) symbol) :=
  { h with
    symbols := fun m hm => by
      have hiff : ρ m = ρ n ↔ m = n := hρ.injOn.eq_iff hm hn
      simp only [Parser.define, hiff, h.symbols m hm] }

end Relabeled

/-! The first pass. -/

namespace Relabeled

variable (hρ : Relabeling names ρ)
include hρ

theorem words {t t' : Token} (ht : Token.Relabeled names ρ t t') : SameWords t.value t'.value := by
  by_cases hlabel : t.IsLabel
  · obtain ⟨hmem, hvalue⟩ := ht.label hlabel
    rw [hvalue]
    exact hρ.words _ hmem
  · rw [ht.other hlabel]
    exact ⟨.rfl, .rfl, rfl⟩

/-- The lists of names at which the parser stops. -/
theorem contains {t t' : Token} (ht : Token.Relabeled names ρ t t') {values : List String}
    (hvalues : values ∈ [["text"], ["data", "section", "bss"], sectionNames]) :
    values.contains t'.value = values.contains t.value := by
  have hwords := words hρ ht
  have hsection := hwords.section_
  simp only [List.mem_cons, List.not_mem_nil, or_false] at hsection hvalues
  rw [Bool.eq_iff_iff, List.contains_iff_mem, List.contains_iff_mem]
  rcases hvalues with rfl | rfl | rfl
  · simpa using hwords.text
  · simpa using hsection
  · simp only [sectionNames, List.mem_cons, List.not_mem_nil, or_false]
    have htext := hwords.text
    tauto

theorem skipTo (h : Relabeled names ρ p q) {values : List String}
    (hvalues : values ∈ [["text"], ["data", "section", "bss"], sectionNames]) :
    Relabeled names ρ (p.skipTo values) (q.skipTo values) :=
  { h with
    rest := forall₂_dropWhile
      (fun t t' ht => by rw [ht.type, contains hρ ht hvalues]) h.rest }

omit hρ in
theorem align (h : Relabeled names ρ p q) (a : Word) :
    Relabeled names ρ (p.align a) (q.align a) := by
  unfold Parser.align
  rw [h.dataIndex]
  split
  · exact { h with dataIndex := rfl }
  · exact h

omit hρ in
theorem place (h : Relabeled names ρ p q) (items : List DataItem) :
    Relabeled names ρ (p.place items) (q.place items) :=
  { h with
    dataBuffer := congrArg (· ++ items) h.dataBuffer
    dataIndex := congrArg (· + _) h.dataIndex }

omit hρ in
theorem atElement (h : Relabeled names ρ p q) (d : DataDirective) :
    q.atElement d = p.atElement d := by
  rw [Parser.atElement, h.notEof, h.currentToken.type]
  rfl

omit hρ in
theorem elementTurn (h : Relabeled names ρ p q) (d : DataDirective) :
    Loop.Both (Relabeled names ρ) (Parser.elementTurn cfg d p) (Parser.elementTurn cfg d q) := by
  unfold Parser.elementTurn
  rw [h.currentToken.type]
  refine .ite (fun htype => .bind_eq ?_ fun items => ?_) fun _ => h.nextToken
  · have hlabel : ¬ p.currentToken.IsLabel := by
      rw [Token.IsLabel, htype]
      cases d <;> decide
    rw [h.currentToken.other hlabel]
  · cases items with
    | some items => exact ((h.align _).place items).nextToken
    | none => exact (h.fail _ _ _ _ _ _ _ _ _ _).nextToken

omit hρ in
theorem measure (h : Relabeled names ρ p q) : q.rest.length = p.rest.length :=
  h.rest.length_eq.symm

omit hρ in
theorem parseElements (h : Relabeled names ρ p q) (d : DataDirective) :
    Loop.Both (Relabeled names ρ) (p.parseElements cfg d) (q.parseElements cfg d) :=
  .exhaust (fun _ _ => measure) (fun _ _ h => h.atElement d) (fun _ _ h _ => h.elementTurn d) h

omit hρ in
/-- A name that is not that of a definition. -/
theorem directive {t t' : Token} (ht : Token.Relabeled names ρ t t') (htype : t.type ≠ .LABEL) :
    DataDirective.ofName t'.value = DataDirective.ofName t.value := by
  by_cases href : t.type = .LABEL_REF
  · exact ht.reference href
  · rw [ht.other (by rintro (h | h) <;> contradiction)]

theorem defineDataLabel (h : Relabeled names ρ p q) (hlabel : p.currentToken.IsLabel) :
    Relabeled names ρ p.defineDataLabel q.defineDataLabel := by
  obtain ⟨hmem, hvalue⟩ := h.currentToken.label hlabel
  have halign := (words hρ (h.peekToken 1)).alignment
  unfold Parser.defineDataLabel
  rw [hvalue, h.currentToken.line]
  have hq {p q : Parser} (h : Relabeled names ρ p q) {n : String} (hn : n ∈ names) (line : Nat) :
      Relabeled names ρ (p.define n ⟨p.dataIndex, line, true⟩)
        (q.define (ρ n) ⟨q.dataIndex, line, true⟩) := by
    rw [h.dataIndex]
    exact h.define hρ hn _
  revert halign
  cases DataDirective.ofName (p.peekToken 1).value with
  | some d =>
    cases DataDirective.ofName (q.peekToken 1).value with
    | some d' =>
      intro halign
      dsimp only
      rw [Option.some.inj halign]
      exact hq (h.align _) hmem _
    | none => exact nofun
  | none =>
    cases DataDirective.ofName (q.peekToken 1).value with
    | some d' => exact nofun
    | none => exact fun _ => hq (h.fail _ _ _ _ _ _ _ _ _ _) hmem _

theorem inData (h : Relabeled names ρ p q) : q.inData = p.inData := by
  rw [Parser.inData, contains hρ h.currentToken (by simp), h.notEof]
  rfl

theorem dataTurn (h : Relabeled names ρ p q) :
    Loop.Both (Relabeled names ρ) (Parser.dataTurn cfg p) (Parser.dataTurn cfg q) := by
  unfold Parser.dataTurn
  rw [h.currentToken.type]
  refine .ite (fun htype => (h.defineDataLabel hρ (.inl htype)).nextToken) fun htype => ?_
  rw [directive h.currentToken htype]
  cases DataDirective.ofName p.currentToken.value with
  | some d => exact h.nextToken.parseElements d
  | none => exact (h.fail _ _ _ _ _ _ _ _ _ _).nextToken

theorem parseDataDirective (h : Relabeled names ρ p q) :
    Loop.Both (Relabeled names ρ) (p.parseDataDirective cfg) (q.parseDataDirective cfg) :=
  .exhaust (fun _ _ => measure) (fun _ _ h => h.inData hρ) (fun _ _ h _ => h.dataTurn hρ) h

omit hρ in
theorem atDirective (h : Relabeled names ρ p q) (name : String) :
    q.atDirective name = p.atDirective name := by
  rw [Parser.atDirective, Parser.atDirective, h.currentToken.type]
  by_cases htype : p.currentToken.type = .DIRECTIVE
  · rw [h.currentToken.other (by rw [Token.IsLabel, htype]; decide)]
  · rw [beq_false_of_ne htype, Bool.and_false, Bool.and_false]

theorem firstTurn (h : Relabeled names ρ p q) :
    Loop.Both (Relabeled names ρ) (Parser.firstTurn cfg p) (Parser.firstTurn cfg q) := by
  unfold Parser.firstTurn
  rw [h.atDirective, h.atDirective, h.atDirective, h.atDirective, h.currentToken.type]
  refine .ite (fun _ => h.nextToken) fun _ => .ite (fun _ => h.nextToken.parseDataDirective hρ)
    fun _ => .ite (fun _ => h.nextToken.skipTo hρ (by simp)) fun _ =>
    .ite (fun _ => h.skipTo hρ (by simp)) fun _ => (h.fail _ _ _ _ _ _ _ _ _ _).nextToken

end Relabeled

/-! The second pass. -/

/-- Another name for the labels, and the same data. -/
def difference (hρ : Relabeling names ρ) : Difference where
  names := names
  ρ := ρ
  Tokens := Token.Relabeled names ρ
  Addresses := Eq
  Inputs x y := List.Forall₂ (Token.Relabeled names ρ) x.1 y.1 ∧ y.2 = x.2
  injOn := hρ.injOn
  empty := hρ.empty
  eof := relabeled_eofToken
  alike _ _ ht := ⟨ht.type, ht.line, ht.label, fun hlabel _ => ht.other hlabel,
    (Relabeled.words hρ ht).text⟩

theorem symbols_eq (hρ : Relabeling names ρ) {s s' : SymbolData} :
    (difference hρ).Symbols s s' ↔ s' = s := by
  constructor
  · rintro ⟨hline, hdata, htext, haddress⟩
    obtain ⟨address, line, isData⟩ := s
    obtain ⟨address', line', isData'⟩ := s'
    obtain rfl : line' = line := hline
    obtain rfl : isData' = isData := hdata
    cases isData' with
    | false => rw [show address' = address from htext rfl]
    | true => rw [show address = address' from haddress rfl]
  · rintro rfl
    exact ⟨rfl, rfl, fun _ => rfl, fun _ => rfl⟩

theorem units_relabeled (hρ : Relabeling names ρ) {i : Nat} {x y : ICUnit × Bool} :
    (difference hρ).Units cfg i x y ↔ ICUnit.Relabeled names ρ x y := by
  constructor
  · rintro ⟨hlabel, hunit, himm⟩
    have heq : y.1.imm = x.1.imm := by
      rcases himm with himm | ⟨f, a, a', -, rfl, hx, hy⟩
      · exact himm
      · rw [hx, hy]
    rw [heq] at hunit
    exact ⟨hlabel, hunit⟩
  · rintro ⟨hlabel, rfl⟩
    exact ⟨hlabel, rfl, .inl rfl⟩

theorem relabeled_iff_parallel (hρ : Relabeling names ρ) :
    Relabeled names ρ p q ↔ Parallel (difference hρ) cfg p q := by
  have hsymbols (n : String) : Option.Rel (difference hρ).Symbols (p.symbolTable n)
      (q.symbolTable (ρ n)) ↔ q.symbolTable (ρ n) = p.symbolTable n := by
    generalize p.symbolTable n = x
    generalize q.symbolTable (ρ n) = y
    constructor
    · intro h
      cases h with
      | none => rfl
      | some h => rw [(symbols_eq hρ).mp h]
    · rintro rfl
      cases y with
      | none => exact .none
      | some s => exact .some ((symbols_eq hρ).mpr rfl)
  have hcode : Indexed ((difference hρ).Units cfg) p.intermediateCode q.intermediateCode ↔
      List.Forall₂ (ICUnit.Relabeled names ρ) p.intermediateCode q.intermediateCode := by
    rw [← indexed_iff_forall₂]
    exact ⟨fun h => ⟨h.length, fun i a b ha hb => (units_relabeled hρ).mp (h.entries i a b ha hb)⟩,
      fun h => ⟨h.length, fun i a b ha hb => (units_relabeled hρ).mpr (h.entries i a b ha hb)⟩⟩
  constructor
  · intro h
    refine ⟨⟨h.tokens, ?_⟩, h.rest, h.instructionIndex, h.count,
      fun n hn => (hsymbols n).mpr (h.symbols n hn), h.backPatch, hcode.mpr h.code, ?_⟩
    · exact Prod.ext h.dataBuffer h.dataIndex
    · rintro ⟨a, a', heq, hne⟩
      exact absurd heq hne
  · intro h
    exact ⟨h.inputs.1, h.rest, h.instructionIndex, h.count, congrArg Prod.fst h.inputs.2,
      congrArg Prod.snd h.inputs.2, fun n hn => (hsymbols n).mp (h.symbols n hn), h.backPatch,
      hcode.mp h.code⟩

theorem Relabeled.secondPass (hρ : Relabeling names ρ) (h : Relabeled names ρ p q) :
    Loop.Both (Relabeled names ρ) (Parser.secondPass cfg p) (Parser.secondPass cfg q) :=
  ((relabeled_iff_parallel hρ).mp h).secondPass.imp fun _ _ => (relabeled_iff_parallel hρ).mpr

theorem Relabeled.patches (hρ : Relabeling names ρ) (h : Relabeled names ρ p q)
    (back : List Nat) :
    Relabeled names ρ (back.foldl Parser.patch p) (back.foldl Parser.patch q) := by
  induction back generalizing p q with
  | nil => exact h
  | cons i back ih =>
    have hparallel : Parallel (difference hρ) ParserConfig.default p q :=
      (relabeled_iff_parallel hρ).mp h
    refine ih ((relabeled_iff_parallel hρ).mpr (hparallel.patch i ?_))
    rintro u b s s' - - - - hss -
    rw [(symbols_eq hρ).mp hss]

/-- The two parses are in the same pass, or both have come to an end. -/
theorem parse_relabeled (hρ : Relabeling names ρ) {tokens tokens' : List Token}
    (htokens : List.Forall₂ (Token.Relabeled names ρ) tokens tokens') (turns : Nat) :
    Loop.Lockstep (Relabeled names ρ) (Relabeled names ρ) (parse cfg turns tokens)
      (parse cfg turns tokens') := by
  have hinitial : Relabeled names ρ (initial tokens) (initial tokens') :=
    ⟨htokens, htokens, rfl, rfl, rfl, rfl, fun _ _ => rfl, rfl, .nil⟩
  have hfirst : Loop.Lockstep (Relabeled names ρ) (Relabeled names ρ)
      (firstPass cfg turns (initial tokens)) (firstPass cfg turns (initial tokens')) :=
    Loop.run_lockstep (fun _ => Relabeled names ρ) _
      (fun _ u v _ h => Loop.Both.whileTurn h.notEof (fun _ => h.firstTurn hρ) fun _ => h) hinitial
  unfold parse
  revert hfirst
  generalize firstPass cfg turns (initial tokens) = x
  generalize firstPass cfg turns (initial tokens') = y
  intro hfirst
  match x, y, hfirst with
  | .error _, .error _, _ => trivial
  | .ok (.yield p), .ok (.yield q), h => exact h
  | .ok (.done p), .ok (.done q), h =>
    have hrestart : Relabeled names ρ p.restart q.restart :=
      { (h : Relabeled names ρ p q) with
        rest := (h : Relabeled names ρ p q).tokens
        instructionIndex := rfl }
    have hsecond : Loop.Both (Relabeled names ρ) (Parser.secondPass cfg p.restart)
        (Parser.secondPass cfg q.restart) := Relabeled.secondPass hρ hrestart
    simp only [Loop.bind_ok]
    revert hsecond
    generalize Parser.secondPass cfg p.restart = x
    generalize Parser.secondPass cfg q.restart = y
    intro hsecond
    match x, y, hsecond with
    | .error _, .error _, _ => trivial
    | .ok p, .ok q, h =>
      have hpatches := Relabeled.patches hρ h p.backPatch
      change Relabeled names ρ (p.backPatch.foldl patch p) (q.backPatch.foldl patch q)
      rwa [(h : Relabeled names ρ p q).backPatch]

end Parser

end RiscvSim
