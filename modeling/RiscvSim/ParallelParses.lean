import Mathlib.Data.List.Forall2
import Mathlib.Data.Set.Function
import RiscvSim.Statements

/-! Two parses that take the same turns through the text sections. They may differ in the names
of the labels, in the addresses of the data labels and in the immediates that depend on these. -/

namespace RiscvSim

section

variable {α β : Type}

theorem forall₂_dropWhile {R : α → β → Prop} {l : List α} {l' : List β}
    {f : α → Bool} {f' : β → Bool} (hf : ∀ a b, R a b → f' b = f a) (h : List.Forall₂ R l l') :
    List.Forall₂ R (l.dropWhile f) (l'.dropWhile f') := by
  induction h with
  | nil => exact .nil
  | @cons a b l l' hab h ih =>
    rw [List.dropWhile_cons, List.dropWhile_cons, hf a b hab]
    cases f a with
    | true => exact ih
    | false => exact .cons hab h

theorem forall₂_headD {R : α → β → Prop} {l : List α} {l' : List β} {a : α} {b : β}
    (hab : R a b) (h : List.Forall₂ R l l') : R (l.headD a) (l'.headD b) := by
  cases h with
  | nil => exact hab
  | cons hcd _ => exact hcd

/-- The entries of two lists are related, each pair by the relation of its index. -/
structure Indexed (R : Nat → α → β → Prop) (l : List α) (l' : List β) : Prop where
  length : l'.length = l.length
  entries : ∀ i a b, l[i]? = some a → l'[i]? = some b → R i a b

variable {R : Nat → α → β → Prop} {l : List α} {l' : List β}

theorem Indexed.nil : Indexed R ([] : List α) ([] : List β) := ⟨rfl, by simp⟩

theorem Indexed.getElem? (h : Indexed R l l') (i : Nat) : Option.Rel (R i) l[i]? l'[i]? := by
  by_cases hi : i < l.length
  · have hi' : i < l'.length := by rw [h.length]; exact hi
    rw [List.getElem?_eq_getElem hi, List.getElem?_eq_getElem hi']
    exact .some (h.entries i _ _ (List.getElem?_eq_getElem hi) (List.getElem?_eq_getElem hi'))
  · rw [List.getElem?_eq_none (by omega), List.getElem?_eq_none (by rw [h.length]; omega)]
    exact .none

theorem Indexed.snoc (h : Indexed R l l') {a : α} {b : β} (hab : R l.length a b) :
    Indexed R (l ++ [a]) (l' ++ [b]) := by
  refine ⟨by simp [h.length], fun i x y hx hy => ?_⟩
  by_cases hi : i < l.length
  · rw [List.getElem?_append_left hi] at hx
    rw [List.getElem?_append_left (by rw [h.length]; exact hi)] at hy
    exact h.entries i x y hx hy
  · have hlast : i = l.length := by
      have := (List.getElem?_eq_some_iff.mp hx).1
      simp only [List.length_append, List.length_singleton] at this
      omega
    subst hlast
    rw [List.getElem?_append_right (Nat.le_refl _), Nat.sub_self] at hx
    rw [← h.length, List.getElem?_append_right (Nat.le_refl _), Nat.sub_self] at hy
    obtain rfl : a = x := Option.some.inj hx
    obtain rfl : b = y := Option.some.inj hy
    exact hab

theorem Indexed.set (h : Indexed R l l') (i : Nat) {a : α} {b : β} (hab : R i a b) :
    Indexed R (l.set i a) (l'.set i b) := by
  refine ⟨by simp [h.length], fun j x y hx hy => ?_⟩
  rw [List.getElem?_set] at hx hy
  by_cases hij : i = j
  · subst hij
    rw [if_pos rfl] at hx hy
    have hlt : i < l.length := by
      by_contra hle
      rw [if_neg hle] at hx
      cases hx
    rw [if_pos hlt] at hx
    rw [if_pos (by rw [h.length]; exact hlt)] at hy
    obtain rfl := Option.some.inj hx
    obtain rfl := Option.some.inj hy
    exact hab
  · rw [if_neg hij] at hx hy
    exact h.entries j x y hx hy

theorem indexed_iff_forall₂ {S : α → β → Prop} :
    Indexed (fun _ => S) l l' ↔ List.Forall₂ S l l' := by
  rw [List.forall₂_iff_get]
  constructor
  · rintro ⟨hlength, h⟩
    refine ⟨hlength.symm, fun i hi hi' => h i _ _ ?_ ?_⟩
    · exact List.getElem?_eq_getElem hi
    · exact List.getElem?_eq_getElem hi'
  · rintro ⟨hlength, h⟩
    refine ⟨hlength.symm, fun i a b ha hb => ?_⟩
    obtain ⟨hi, rfl⟩ := List.getElem?_eq_some_iff.mp ha
    obtain ⟨hi', rfl⟩ := List.getElem?_eq_some_iff.mp hb
    exact h i hi hi'

end

def Token.IsLabel (t : Token) : Prop := t.type = .LABEL ∨ t.type = .LABEL_REF

instance (t : Token) : Decidable t.IsLabel := inferInstanceAs (Decidable (_ ∨ _))

/-- Of these types are the tokens that two parses read alike. -/
def TokenType.IsFixed (t : TokenType) : Prop := t ≠ .LABEL ∧ t ≠ .LABEL_REF ∧ t ≠ .STRING

instance (t : TokenType) : Decidable t.IsFixed := inferInstanceAs (Decidable (_ ∧ _))

theorem Token.not_isLabel_of_isFixed {t : Token} (h : t.type.IsFixed) : ¬ t.IsLabel := by
  rintro (hlabel | hlabel)
  · exact h.1 hlabel
  · exact h.2.1 hlabel

/-- The second pass makes no difference between two tokens but for the name of a label. -/
structure Token.Alike (names : Set String) (ρ : String → String) (t t' : Token) : Prop where
  type : t'.type = t.type
  line : t'.lineNumber = t.lineNumber
  label : t.IsLabel → t.value ∈ names ∧ t'.value = ρ t.value
  other : ¬ t.IsLabel → t.type ≠ .STRING → t'.value = t.value
  text : t'.value = "text" ↔ t.value = "text"

/-- What is left of the input by the second pass. -/
def Parser.input (p : Parser) : List Token × List DataItem × Word :=
  (p.tokens, p.dataBuffer, p.dataIndex)

/-- What may be different in two parses. -/
structure Difference where
  names : Set String
  ρ : String → String
  Tokens : Token → Token → Prop
  Addresses : Word → Word → Prop
  Inputs : List Token × List DataItem × Word → List Token × List DataItem × Word → Prop
  injOn : Set.InjOn ρ names
  empty : "" ∈ names ∧ ρ "" = ""
  eof : Tokens eofToken eofToken
  alike : ∀ t t', Tokens t t' → Token.Alike names ρ t t'

namespace Difference

/-- A symbol of the one parse is that of the other but for the address of a data label. -/
structure Symbols (D : Difference) (s s' : SymbolData) : Prop where
  line : s'.lineNumber = s.lineNumber
  isData : s'.isData = s.isData
  text : s.isData = false → s'.address = s.address
  data : s.isData = true → D.Addresses s.address s'.address

/-- There are addresses that are not the same in both parses. -/
def Moves (D : Difference) : Prop := ∃ a a', D.Addresses a a' ∧ a ≠ a'

end Difference

/-- An immediate of the unit at an index that depends on an address of the data section: one of
the two parts of an offset, or that of a jump. -/
inductive DataImmediate (cfg : ParserConfig) : Nat → (Word → String) → Prop
  | high (p : Parser) :
    DataImmediate cfg p.instructionIndex fun a => toString (Parser.dataOffset cfg p a).1.toInt
  | low (p : Parser) :
    DataImmediate cfg (p.instructionIndex + 1) fun a => toString (Parser.dataOffset cfg p a).2.toInt
  | jump (i : Nat) : DataImmediate cfg i fun a => toString (a - Parser.textAddress i).toInt

/-- Two immediates at an index are the same or depend on addresses that may be different. -/
def Difference.Immediates (D : Difference) (cfg : ParserConfig) (i : Nat) (m m' : String) : Prop :=
  m' = m ∨ ∃ f a a', DataImmediate cfg i f ∧ D.Addresses a a' ∧ m = f a ∧ m' = f a'

/-- Two units at an index. -/
structure Difference.Units (D : Difference) (cfg : ParserConfig) (i : Nat)
    (x y : ICUnit × Bool) : Prop where
  label : x.1.label ∈ D.names
  unit : y = ({ x.1 with label := D.ρ x.1.label, imm := y.1.imm }, x.2)
  imm : D.Immediates cfg i x.1.imm y.1.imm

namespace Parser

/-- The parsers are in the same place of the second pass. -/
structure Parallel (D : Difference) (cfg : ParserConfig) (p q : Parser) : Prop where
  inputs : D.Inputs p.input q.input
  rest : List.Forall₂ D.Tokens p.rest q.rest
  instructionIndex : q.instructionIndex = p.instructionIndex
  count : q.errors.count = p.errors.count
  symbols : ∀ n ∈ D.names, Option.Rel D.Symbols (p.symbolTable n) (q.symbolTable (D.ρ n))
  backPatch : q.backPatch = p.backPatch
  code : Indexed (D.Units cfg) p.intermediateCode q.intermediateCode
  index : D.Moves → p.instructionIndex = p.intermediateCode.length

variable {D : Difference} {cfg : ParserConfig} {p q : Parser}

namespace Parallel

theorem peekToken (h : Parallel D cfg p q) (n : Nat) :
    D.Tokens (p.peekToken n) (q.peekToken n) :=
  forall₂_headD D.eof (List.forall₂_drop n h.rest)

theorem currentToken (h : Parallel D cfg p q) : D.Tokens p.currentToken q.currentToken :=
  forall₂_headD D.eof h.rest

theorem peekAlike (h : Parallel D cfg p q) (n : Nat) :
    Token.Alike D.names D.ρ (p.peekToken n) (q.peekToken n) := D.alike _ _ (h.peekToken n)

theorem currentAlike (h : Parallel D cfg p q) :
    Token.Alike D.names D.ρ p.currentToken q.currentToken := D.alike _ _ h.currentToken

theorem notEof (h : Parallel D cfg p q) : q.notEof = p.notEof := by
  rw [Parser.notEof, h.currentAlike.type]
  rfl

theorem nextToken (h : Parallel D cfg p q) : Parallel D cfg p.nextToken q.nextToken :=
  { h with
    rest := by
      have hdrop := List.forall₂_drop 1 h.rest
      rwa [List.drop_one, List.drop_one] at hdrop }

theorem skipCurrentLine (h : Parallel D cfg p q) :
    Parallel D cfg p.skipCurrentLine q.skipCurrentLine :=
  { h with
    rest := forall₂_dropWhile
      (fun t t' ht => by
        rw [(D.alike t t' ht).line, (D.alike t t' ht).type, h.currentAlike.line]) h.rest }

theorem failWith (h : Parallel D cfg p q) (message message' : String)
    (error error' : DetailedError) :
    Parallel D cfg (p.failWith message error) (q.failWith message' error') :=
  { h with count := congrArg (· + 1 + 1) h.count }

theorem fail (h : Parallel D cfg p q) (t t' : Token) (message message' : String)
    (kind kind' : ErrorKind) (main main' sub sub' : String) :
    Parallel D cfg (p.fail t message kind main sub) (q.fail t' message' kind' main' sub') :=
  h.failWith _ _ _ _

theorem define (h : Parallel D cfg p q) {n : String} (hn : n ∈ D.names) {s s' : SymbolData}
    (hs : D.Symbols s s') : Parallel D cfg (p.define n s) (q.define (D.ρ n) s') :=
  { h with
    symbols := fun m hm => by
      have hiff : D.ρ m = D.ρ n ↔ m = n := D.injOn.eq_iff hm hn
      simp only [Parser.define, hiff]
      split
      · exact .some hs
      · exact h.symbols m hm }

theorem emit (h : Parallel D cfg p q) {u u' : ICUnit} {resolved : Bool}
    (hu : D.Units cfg p.intermediateCode.length (u, resolved) (u', resolved)) :
    Parallel D cfg (p.emit u resolved) (q.emit u' resolved) :=
  { h with
    instructionIndex := congrArg (· + 1) h.instructionIndex
    code := h.code.snoc hu
    index := fun hmoves => by simp [Parser.emit, h.index hmoves] }

/-- A unit without a label, of which the immediate may be different. -/
theorem emit_immediate (h : Parallel D cfg p q) {u : ICUnit} (hu : u.label = "")
    (resolved : Bool) {imm imm' : String}
    (himm : D.Immediates cfg p.intermediateCode.length imm imm') :
    Parallel D cfg (p.emit { u with imm } resolved) (q.emit { u with imm := imm' } resolved) := by
  refine h.emit ⟨hu ▸ D.empty.1, ?_, himm⟩
  change _ = ({ u with label := D.ρ u.label, imm := imm' }, resolved)
  rw [hu, D.empty.2, ← hu]

theorem emit_plain (h : Parallel D cfg p q) {u : ICUnit} (hu : u.label = "") (resolved : Bool) :
    Parallel D cfg (p.emit u resolved) (q.emit u resolved) :=
  h.emit_immediate hu resolved (.inl rfl)

/-- A unit with a label. -/
theorem emit_label (h : Parallel D cfg p q) {u : ICUnit} (hu : u.label ∈ D.names)
    (resolved : Bool) :
    Parallel D cfg (p.emit u resolved) (q.emit { u with label := D.ρ u.label } resolved) :=
  h.emit ⟨hu, rfl, .inl rfl⟩

theorem emitDeferred (h : Parallel D cfg p q) {u : ICUnit} (hu : u.label ∈ D.names) :
    Parallel D cfg (p.emitDeferred u) (q.emitDeferred { u with label := D.ρ u.label }) :=
  { h.emit_label hu false with
    backPatch := by
      simp only [Parser.emitDeferred, Parser.emit, h.backPatch, h.instructionIndex] }

/-- Two units of which the immediates are the parts of an offset to the data section. -/
theorem emit_offset (h : Parallel D cfg p q) {u v : ICUnit} (hu : u.label = "")
    (hv : v.label = "") {a a' : Word} (ha : D.Addresses a a') :
    Parallel D cfg
      ((p.emit { u with imm := toString (Parser.dataOffset cfg p a).1.toInt } true).emit
        { v with imm := toString (Parser.dataOffset cfg p a).2.toInt } true)
      ((q.emit { u with imm := toString (Parser.dataOffset cfg q a').1.toInt } true).emit
        { v with imm := toString (Parser.dataOffset cfg q a').2.toInt } true) := by
  have hoffset : Parser.dataOffset cfg q a' = Parser.dataOffset cfg p a' := by
    rw [Parser.dataOffset, h.instructionIndex]
    rfl
  rw [hoffset]
  by_cases heq : a = a'
  · subst heq
    exact (h.emit_immediate hu true (.inl rfl)).emit_immediate hv true (.inl rfl)
  · have hindex := h.index ⟨a, a', ha, heq⟩
    have hhigh : D.Immediates cfg p.intermediateCode.length
        (toString (Parser.dataOffset cfg p a).1.toInt)
        (toString (Parser.dataOffset cfg p a').1.toInt) := by
      rw [← hindex]
      exact .inr ⟨_, a, a', .high p, ha, rfl, rfl⟩
    have hlow : D.Immediates cfg (p.intermediateCode.length + 1)
        (toString (Parser.dataOffset cfg p a).2.toInt)
        (toString (Parser.dataOffset cfg p a').2.toInt) := by
      rw [← hindex]
      exact .inr ⟨_, a, a', .low p, ha, rfl, rfl⟩
    refine (h.emit_immediate hu true hhigh).emit_immediate hv true ?_
    simpa only [Parser.emit, List.length_append, List.length_singleton] using hlow

theorem lineIs (h : Parallel D cfg p q) (types : List TokenType) :
    q.lineIs types = p.lineIs types := by
  simp only [Parser.lineIs, (h.peekAlike _).line, (h.peekAlike _).type, h.currentAlike.line]

theorem value (h : Parallel D cfg p q) {n : Nat} (hn : (p.peekToken n).type.IsFixed) :
    (q.peekToken n).value = (p.peekToken n).value :=
  (h.peekAlike n).other (Token.not_isLabel_of_isFixed hn) hn.2.2

theorem opcode (h : Parallel D cfg p q) (hop : p.currentToken.type.IsFixed) :
    q.currentToken.value = p.currentToken.value :=
  h.currentAlike.other (Token.not_isLabel_of_isFixed hop) hop.2.2

theorem register (h : Parallel D cfg p q) {n : Nat} (hn : (p.peekToken n).type.IsFixed) :
    q.register n = p.register n := by
  rw [Parser.register, h.value hn]
  rfl

/-- The unit of a statement begins with its mnemonic. -/
theorem block (h : Parallel D cfg p q) (hop : p.currentToken.type.IsFixed) :
    q.block = p.block := by
  simp only [Parser.block, h.opcode hop, h.currentAlike.line, h.instructionIndex]

theorem finish_plain (h : Parallel D cfg p q) {u : ICUnit} (hu : u.label = "") :
    Parallel D cfg (p.finish u) (q.finish u) := h.skipCurrentLine.emit_plain hu true

theorem finishImmediate (h : Parallel D cfg p q) (t t' : Token) (low high : Int)
    (expected : String) (imm : Int) {u : ICUnit} (hu : u.label = "") :
    Parallel D cfg (p.finishImmediate t low high expected imm u)
      (q.finishImmediate t' low high expected imm u) := by
  unfold Parser.finishImmediate
  split
  · exact h.finish_plain hu
  · exact (h.fail _ _ _ _ _ _ _ _ _ _).skipCurrentLine

theorem finishAligned (h : Parallel D cfg p q) (t t' : Token) (low high unit : Int)
    (expected : String) (imm : Int) {u : ICUnit} (hu : u.label = "") :
    Parallel D cfg (p.finishAligned t low high unit expected imm u)
      (q.finishAligned t' low high unit expected imm u) := by
  unfold Parser.finishAligned
  split
  · split
    · exact h.finish_plain hu
    · exact (h.fail _ _ _ _ _ _ _ _ _ _).skipCurrentLine
  · exact (h.fail _ _ _ _ _ _ _ _ _ _).skipCurrentLine

theorem finishLabel (h : Parallel D cfg p q) {t t' : Token}
    (ht : Token.Alike D.names D.ρ t t') (hlabel : t.IsLabel) (low high : Int) (expected : String)
    (u : ICUnit) :
    Parallel D cfg (p.finishLabel t low high expected u)
      (q.finishLabel t' low high expected u) := by
  obtain ⟨hmem, hvalue⟩ := ht.label hlabel
  have hsymbol := h.symbols _ hmem
  have hdeferred := (h.emitDeferred (u := { u with label := t.value }) hmem).skipCurrentLine
  unfold Parser.finishLabel
  rw [hvalue, h.instructionIndex]
  generalize p.symbolTable t.value = x at hsymbol
  generalize q.symbolTable (D.ρ t.value) = y at hsymbol
  cases hsymbol with
  | none => exact hdeferred
  | @some s s' hs =>
    obtain ⟨address, line, isData⟩ := s
    obtain ⟨address', line', isData'⟩ := s'
    obtain rfl : isData' = isData := hs.isData
    cases isData' with
    | true => exact hdeferred
    | false =>
      obtain rfl : address' = address := hs.text rfl
      dsimp only
      split
      · exact h.skipCurrentLine.emit_label (u := { u with label := t.value, imm := _ }) hmem true
      · exact (h.fail _ _ _ _ _ _ _ _ _ _).skipCurrentLine

/-- The addresses of the data labels. -/
theorem dataLabel (h : Parallel D cfg p q) {n : Nat} (hlabel : (p.peekToken n).IsLabel) :
    Option.Rel (fun s s' => D.Addresses s.address s'.address) (p.dataLabel n) (q.dataLabel n) := by
  obtain ⟨hmem, hvalue⟩ := (h.peekAlike n).label hlabel
  have hsymbol := h.symbols _ hmem
  rw [Parser.dataLabel, Parser.dataLabel, hvalue]
  generalize p.symbolTable (p.peekToken n).value = x at hsymbol
  generalize q.symbolTable (D.ρ (p.peekToken n).value) = y at hsymbol
  cases hsymbol with
  | none => exact .none
  | @some s s' hs =>
    rw [Option.filter_some, Option.filter_some, hs.isData]
    cases hdata : s.isData with
    | true => exact .some (hs.data hdata)
    | false => exact .none

end Parallel

/-- Two statements that both throw, both do not have the syntax, or do the same. -/
abbrev Agree (D : Difference) (cfg : ParserConfig) :
    Except Thrown (Option Parser) → Except Thrown (Option Parser) → Prop :=
  Loop.Both (Option.Rel (Parallel D cfg))

theorem agree_none : Agree D cfg (.ok none) (.ok none) := Option.Rel.none

theorem agree_some (h : Parallel D cfg p q) : Agree D cfg (.ok (some p)) (.ok (some q)) :=
  Option.Rel.some h

theorem operand_fixed {types : List TokenType} (h : p.lineIs types = true) {i : Nat}
    {type : TokenType} (hi : types[i]? = some type) (htype : type.IsFixed) :
    (p.peekToken (i + 1)).type.IsFixed := by
  rw [lineIs_type h hi]
  exact htype

namespace Parallel

open InstructionSet

theorem line (h : Parallel D cfg p q) {types : List TokenType}
    {x y : Except Thrown (Option Parser)} (hxy : p.lineIs types = true → Agree D cfg x y) :
    Agree D cfg (if p.lineIs types then x else return none)
      (if q.lineIs types then y else return none) := by
  rw [h.lineIs types]
  exact .ite hxy fun _ => agree_none

variable (h : Parallel D cfg p q) (hop : p.currentToken.type.IsFixed)
include h hop

theorem parseO : Agree D cfg p.parseO q.parseO := by
  refine h.line fun _ => agree_some ?_
  rw [h.block hop]
  exact h.finish_plain rfl

theorem parseRegisters {types : List TokenType} (rm : RmField) (hne : types ≠ [])
    (hbanks : ∀ t ∈ types, t.IsFixed) :
    Agree D cfg (Parser.parseRegisters types rm p) (Parser.parseRegisters types rm q) := by
  have hpos := List.length_pos_iff.mpr hne
  refine h.line fun hline => .bind_eq (Loop.mapM_congr fun i hi => ?_) fun regs =>
    .bind_eq ?_ fun mode => ?_
  · have hlt := List.mem_range.mp hi
    have htype : types[i]? = some types[i] := List.getElem?_eq_getElem hlt
    refine h.register (operand_fixed hline ?_ (hbanks _ (List.getElem_mem hlt)))
    rw [List.getElem?_append_left (by simp; omega), List.getElem?_intersperse_two_mul, htype]
  · cases rm with
    | absent => rfl
    | dynamic => rfl
    | given =>
      have htype : (types.intersperse .COMMA ++ [.COMMA, .RM])[2 * types.length]? =
          some TokenType.RM := by
        rw [List.getElem?_append_right (by simp), List.length_intersperse,
          show 2 * types.length - (2 * types.length - 1) = 1 by omega]
        rfl
      exact congrArg getRoundingModeEncoding
        (h.value (operand_fixed hline htype (by decide)))
  · rw [h.block hop]
    exact agree_some (h.finish_plain rfl)

theorem parseOffset {set : ICUnit → String → ICUnit}
    (hset : ∀ (u : ICUnit) reg, (set u reg).label = u.label) (hreg : (p.peekToken 1).type.IsFixed)
    (himm : (p.peekToken 3).type.IsFixed) (hbase : (p.peekToken 5).type.IsFixed) :
    Agree D cfg (p.parseOffset set) (q.parseOffset set) := by
  unfold Parser.parseOffset
  rw [h.block hop]
  refine .bind_eq (h.register hreg) fun reg => .bind_eq (congrArg stoll (h.value himm)) fun imm =>
    .ite (fun _ => .bind_eq (h.register hbase) fun rs1 => ?_) fun _ => ?_
  · exact agree_some (h.finish_plain (hset _ _))
  · exact agree_some (h.fail _ _ _ _ _ _ _ _ _ _).skipCurrentLine

theorem parseOGprCGprCI : Agree D cfg p.parseOGprCGprCI q.parseOGprCGprCI := by
  refine h.line fun hline => ?_
  rw [h.block hop]
  have hrd := h.register (operand_fixed hline (i := 0) rfl (by decide))
  have hrs := h.register (operand_fixed hline (i := 2) rfl (by decide))
  have himm := h.value (operand_fixed hline (i := 4) rfl (by decide))
  refine .ite (fun _ => ?_) fun _ => .ite (fun _ => ?_) fun _ => ?_
  · refine .bind_eq hrd fun rd => .bind_eq hrs fun rs1 =>
      .bind_eq (congrArg stoll himm) fun imm => ?_
    exact .ite (fun _ => agree_some (h.finishImmediate _ _ _ _ _ _ rfl)) fun _ =>
      agree_some (h.finishImmediate _ _ _ _ _ _ rfl)
  · refine .bind_eq hrd fun rd => .bind_eq hrs fun rs1 =>
      .bind_eq (congrArg stoll himm) fun imm => ?_
    exact agree_some (h.finishAligned _ _ _ _ _ _ _ rfl)
  · exact agree_some (h.finish_plain rfl)

theorem parseOGprCI : Agree D cfg p.parseOGprCI q.parseOGprCI := by
  refine h.line fun hline => ?_
  rw [h.block hop]
  have hrd := h.register (operand_fixed hline (i := 0) rfl (by decide))
  have himm := h.value (operand_fixed hline (i := 2) rfl (by decide))
  refine .ite (fun _ => ?_) fun _ => .ite (fun _ => ?_) fun _ => ?_
  · refine .bind_eq hrd fun rd => .bind_eq (congrArg stoll himm) fun imm => ?_
    exact agree_some (h.finishImmediate _ _ _ _ _ _ rfl)
  · refine .bind_eq hrd fun rd => .bind_eq (congrArg stoll himm) fun imm => ?_
    exact agree_some (h.finishAligned _ _ _ _ _ _ _ rfl)
  · exact agree_some (h.finish_plain rfl)

theorem parseOGprCGprCIl : Agree D cfg p.parseOGprCGprCIl q.parseOGprCGprCIl := by
  refine h.line fun hline => ?_
  rw [h.block hop]
  have hrs1 := h.register (operand_fixed hline (i := 0) rfl (by decide))
  have hrs2 := h.register (operand_fixed hline (i := 2) rfl (by decide))
  refine .ite (fun _ => .bind_eq hrs1 fun rs1 => .bind_eq hrs2 fun rs2 => ?_) fun _ => ?_
  · exact agree_some
      (h.finishLabel (h.peekAlike 5) (.inr (lineIs_type hline (i := 4) rfl)) _ _ _ _)
  · exact agree_some (h.finish_plain rfl)

theorem parseOGprCIl : Agree D cfg p.parseOGprCIl q.parseOGprCIl := by
  refine h.line fun hline => ?_
  rw [h.block hop]
  have hrd := h.register (operand_fixed hline (i := 0) rfl (by decide))
  refine .ite (fun _ => .bind_eq hrd fun rd => ?_) fun _ => ?_
  · exact agree_some
      (h.finishLabel (h.peekAlike 3) (.inr (lineIs_type hline (i := 2) rfl)) _ _ _ _)
  · exact agree_some (h.finish_plain rfl)

theorem parseOGprCDl : Agree D cfg (Parser.parseOGprCDl cfg p) (Parser.parseOGprCDl cfg q) := by
  refine h.line fun hline => ?_
  have hrd := h.register (operand_fixed hline (i := 0) rfl (by decide))
  have hlabel := h.dataLabel (.inr (lineIs_type hline (i := 2) rfl))
  refine .bind_eq hrd fun rd => ?_
  generalize p.dataLabel 3 = x at hlabel
  generalize q.dataLabel 3 = y at hlabel
  cases hlabel with
  | none => exact agree_some (h.fail _ _ _ _ _ _ _ _ _ _).skipCurrentLine
  | some haddress =>
    dsimp only
    rw [h.currentAlike.line, h.opcode hop, h.instructionIndex]
    exact agree_some (h.emit_offset
      (u := { opcode := "auipc", lineNumber := p.currentToken.lineNumber
              instructionIndex := p.instructionIndex + 1, rd })
      (v := { opcode := p.currentToken.value, lineNumber := p.currentToken.lineNumber
              rd, rs1 := rd }) rfl rfl haddress).skipCurrentLine

theorem parseOGprCILpGprRp : Agree D cfg p.parseOGprCILpGprRp q.parseOGprCILpGprRp := by
  refine h.line fun hline => ?_
  have hreg := operand_fixed hline (i := 0) rfl (by decide)
  have himm := operand_fixed hline (i := 2) rfl (by decide)
  have hbase := operand_fixed hline (i := 4) rfl (by decide)
  rw [h.block hop]
  refine .ite (fun _ => ?_) fun _ => .ite (fun _ => ?_) fun _ => .ite (fun _ => ?_) fun _ => ?_
  · exact h.parseOffset hop (fun _ _ => rfl) hreg himm hbase
  · exact h.parseOffset hop (fun _ _ => rfl) hreg himm hbase
  · exact h.parseOffset hop (fun _ _ => rfl) hreg himm hbase
  · exact agree_some (h.finish_plain rfl)

theorem parseOFprCILpGprRp : Agree D cfg p.parseOFprCILpGprRp q.parseOFprCILpGprRp := by
  refine h.line fun hline => ?_
  have hreg := operand_fixed hline (i := 0) rfl (by decide)
  have himm := operand_fixed hline (i := 2) rfl (by decide)
  have hbase := operand_fixed hline (i := 4) rfl (by decide)
  rw [h.block hop]
  refine .ite (fun _ => ?_) fun _ => .ite (fun _ => ?_) fun _ => ?_
  · exact h.parseOffset hop (fun _ _ => rfl) hreg himm hbase
  · exact h.parseOffset hop (fun _ _ => rfl) hreg himm hbase
  · exact agree_some (h.finish_plain rfl)

theorem parseOGprCCsrCGpr : Agree D cfg p.parseOGprCCsrCGpr q.parseOGprCCsrCGpr := by
  refine h.line fun hline => ?_
  have hrd := h.register (operand_fixed hline (i := 0) rfl (by decide))
  have hcsr := h.value (operand_fixed hline (i := 2) rfl (by decide))
  have hrs1 := h.register (operand_fixed hline (i := 4) rfl (by decide))
  rw [h.block hop]
  refine .bind_eq hrd fun rd => .bind_eq (congrArg (mapAt csrToAddress) hcsr) fun csr =>
    .bind_eq hrs1 fun rs1 => ?_
  exact agree_some (h.finish_plain rfl)

theorem parseOGprCCsrCI : Agree D cfg p.parseOGprCCsrCI q.parseOGprCCsrCI := by
  refine h.line fun hline => ?_
  have hrd := h.register (operand_fixed hline (i := 0) rfl (by decide))
  have hcsr := h.value (operand_fixed hline (i := 2) rfl (by decide))
  have himm := h.value (operand_fixed hline (i := 4) rfl (by decide))
  rw [h.block hop]
  refine .bind_eq hrd fun rd => .bind_eq (congrArg (mapAt csrToAddress) hcsr) fun csr =>
    .bind_eq (congrArg stoll himm) fun imm => ?_
  exact agree_some (h.finishImmediate _ _ _ _ _ _ rfl)

omit hop in
theorem parseLa : Agree D cfg (Parser.parseLa cfg p) (Parser.parseLa cfg q) := by
  refine h.line fun hline => ?_
  have hrd := h.register (operand_fixed hline (i := 0) rfl (by decide))
  have hlabel := h.dataLabel (.inr (lineIs_type hline (i := 2) rfl))
  refine .bind_eq hrd fun rd => ?_
  generalize p.dataLabel 3 = x at hlabel
  generalize q.dataLabel 3 = y at hlabel
  cases hlabel with
  | none => exact agree_some (h.fail _ _ _ _ _ _ _ _ _ _).skipCurrentLine
  | some haddress =>
    dsimp only
    rw [h.currentAlike.line, h.instructionIndex]
    exact agree_some (h.emit_offset
      (u := { opcode := "auipc", lineNumber := p.currentToken.lineNumber
              instructionIndex := p.instructionIndex, rd })
      (v := { opcode := "addi", lineNumber := p.currentToken.lineNumber
              instructionIndex := p.instructionIndex + 1, rd, rs1 := rd })
      rfl rfl haddress).skipCurrentLine

theorem parseLi : Agree D cfg p.parseLi q.parseLi := by
  refine h.line fun hline => ?_
  have hrd := h.register (operand_fixed hline (i := 0) rfl (by decide))
  have himm := h.value (operand_fixed hline (i := 2) rfl (by decide))
  rw [himm, h.block hop]
  refine .bind_eq rfl fun imm => .bind_eq hrd fun rd => .ite (fun _ => ?_) fun _ =>
    .ite (fun _ => .ite (fun _ => ?_) fun _ => ?_) fun _ => ?_
  · exact agree_some (h.emit_plain rfl _).skipCurrentLine
  · have hlui := h.emit_plain (u := { p.block with
      opcode := "lui", rd, imm := toString ((imm + 2048) >>> (12 : Nat)) }) rfl true
    rw [hlui.instructionIndex]
    exact agree_some (hlui.emit_plain rfl _).skipCurrentLine
  · exact agree_some (h.emit_plain rfl _).skipCurrentLine
  · exact agree_some (h.fail _ _ _ _ _ _ _ _ _ _).skipCurrentLine

theorem parsePseudo : Agree D cfg (Parser.parsePseudo cfg p) (Parser.parsePseudo cfg q) := by
  unfold Parser.parsePseudo
  rw [h.opcode hop]
  split
  · exact h.parseLa
  · refine h.line fun _ => ?_
    rw [h.block hop]
    exact agree_some (h.emit_plain rfl _).nextToken
  · exact h.parseLi hop
  · refine h.line fun hline => ?_
    have hrd := h.register (operand_fixed hline (i := 0) rfl (by decide))
    have hrs := h.register (operand_fixed hline (i := 2) rfl (by decide))
    rw [h.block hop]
    refine .bind_eq hrd fun rd => .bind_eq hrs fun rs1 => ?_
    exact agree_some (h.emit_plain rfl _).skipCurrentLine
  · refine h.line fun hline => ?_
    have hrd := h.register (operand_fixed hline (i := 0) rfl (by decide))
    have hrs := h.register (operand_fixed hline (i := 2) rfl (by decide))
    rw [h.block hop]
    refine .bind_eq hrd fun rd => .bind_eq hrs fun rs1 => ?_
    exact agree_some (h.emit_plain rfl _).skipCurrentLine
  · refine h.line fun _ => ?_
    rw [h.block hop]
    exact agree_some (h.emit_plain rfl _).nextToken
  · exact agree_none

theorem parseSyntax (s : SyntaxType) :
    Agree D cfg (Parser.parseSyntax cfg p s) (Parser.parseSyntax cfg q s) := by
  cases s with
  | O_GPR_C_GPR_C_I => exact h.parseOGprCGprCI hop
  | O_GPR_C_GPR_C_IL => exact h.parseOGprCGprCIl hop
  | O_GPR_C_I_LP_GPR_RP => exact h.parseOGprCILpGprRp hop
  | O_GPR_C_I => exact h.parseOGprCI hop
  | O_GPR_C_IL => exact h.parseOGprCIl hop
  | O_GPR_C_DL => exact h.parseOGprCDl hop
  | O_GPR_C_GPR_C_DL => exact agree_none
  | O => exact h.parseO hop
  | PSEUDO => exact h.parsePseudo hop
  | O_GPR_C_CSR_C_GPR => exact h.parseOGprCCsrCGpr hop
  | O_GPR_C_CSR_C_I => exact h.parseOGprCCsrCI hop
  | O_FPR_C_I_LP_GPR_RP => exact h.parseOFprCILpGprRp hop
  | _ => exact h.parseRegisters hop _ (by decide) (by decide)

theorem parseSyntaxes (ss : List SyntaxType) :
    Agree D cfg (Parser.parseSyntaxes cfg p ss) (Parser.parseSyntaxes cfg q ss) := by
  induction ss with
  | nil => exact agree_none
  | cons s ss ih =>
    refine (h.parseSyntax hop s).bind fun a b hab => ?_
    cases hab with
    | none => exact ih
    | some hpq => exact agree_some hpq

end Parallel

/-! The second pass. -/

namespace Parallel

theorem skipToText (h : Parallel D cfg p q) :
    Parallel D cfg (p.skipTo ["text"]) (q.skipTo ["text"]) := by
  refine { h with rest := forall₂_dropWhile (fun t t' ht => ?_) h.rest }
  have hcontains : ["text"].contains t'.value = ["text"].contains t.value := by
    rw [Bool.eq_iff_iff, List.contains_iff_mem, List.contains_iff_mem]
    simpa using (D.alike t t' ht).text
  rw [(D.alike t t' ht).type, hcontains]

theorem atDirective (h : Parallel D cfg p q) (name : String) :
    q.atDirective name = p.atDirective name := by
  rw [Parser.atDirective, Parser.atDirective, h.currentAlike.type]
  by_cases htype : p.currentToken.type = .DIRECTIVE
  · rw [h.opcode (by rw [htype]; decide)]
  · rw [beq_false_of_ne htype, Bool.and_false, Bool.and_false]

theorem defineTextLabel (h : Parallel D cfg p q) (hlabel : p.currentToken.IsLabel) :
    Parallel D cfg p.defineTextLabel q.defineTextLabel := by
  obtain ⟨hmem, hvalue⟩ := h.currentAlike.label hlabel
  have hsymbol := h.symbols _ hmem
  unfold Parser.defineTextLabel
  dsimp only
  rw [hvalue, h.currentAlike.line, h.instructionIndex]
  generalize p.symbolTable p.currentToken.value = x at hsymbol
  generalize q.symbolTable (D.ρ p.currentToken.value) = y at hsymbol
  cases hsymbol with
  | none => exact h.define hmem ⟨rfl, rfl, fun _ => rfl, by simp⟩
  | some _ => exact h.fail _ _ _ _ _ _ _ _ _ _

theorem parseStatement (h : Parallel D cfg p q) (hop : p.currentToken.type.IsFixed) :
    Loop.Both (Parallel D cfg) (Parser.parseStatement cfg p) (Parser.parseStatement cfg q) := by
  unfold Parser.parseStatement
  dsimp only
  rw [h.opcode hop]
  refine .ite (fun _ => (h.fail _ _ _ _ _ _ _ _ _ _).skipCurrentLine) fun _ =>
    (h.parseSyntaxes hop _).bind fun a b hab => ?_
  cases hab with
  | none => exact (h.fail _ _ _ _ _ _ _ _ _ _).skipCurrentLine
  | some hpq => exact hpq

theorem textTurn (h : Parallel D cfg p q) :
    Loop.Both (Parallel D cfg) (Parser.textTurn cfg p) (Parser.textTurn cfg q) := by
  unfold Parser.textTurn
  rw [h.currentAlike.type]
  split
  · rename_i htype
    exact (h.defineTextLabel (.inl htype)).nextToken
  · rename_i htype
    exact h.parseStatement (by rw [htype]; decide)
  · exact (h.fail _ _ _ _ _ _ _ _ _ _).skipCurrentLine

theorem inText (h : Parallel D cfg p q) : q.inText = p.inText := by
  rw [Parser.inText, h.currentAlike.type, h.notEof]
  rfl

theorem measure (h : Parallel D cfg p q) : q.rest.length = p.rest.length :=
  h.rest.length_eq.symm

theorem parseTextDirective (h : Parallel D cfg p q) :
    Loop.Both (Parallel D cfg) (p.parseTextDirective cfg) (q.parseTextDirective cfg) :=
  .exhaust (fun _ _ => measure) (fun _ _ => inText) (fun _ _ h _ => h.textTurn) h

theorem secondTurn (h : Parallel D cfg p q) :
    Loop.Both (Parallel D cfg) (Parser.secondTurn cfg p) (Parser.secondTurn cfg q) := by
  unfold Parser.secondTurn
  rw [h.atDirective, h.atDirective, h.atDirective, h.atDirective, h.currentAlike.type]
  refine .ite (fun _ => h.nextToken) fun _ => .ite (fun _ => h.skipToText) fun _ =>
    .ite (fun _ => h.nextToken.parseTextDirective) fun _ =>
    .ite (fun _ => h.parseTextDirective) fun _ => (h.fail _ _ _ _ _ _ _ _ _ _).nextToken

theorem secondPass (h : Parallel D cfg p q) :
    Loop.Both (Parallel D cfg) (Parser.secondPass cfg p) (Parser.secondPass cfg q) :=
  .exhaust (fun _ _ => measure) (fun _ _ => notEof) (fun _ _ h _ => h.secondTurn) h

end Parallel

/-- The address that a jump at an index is resolved to is in its range. -/
def JumpReaches (i : Nat) (a : Word) : Prop :=
  -1048576 ≤ (a - textAddress i).toInt ∧ (a - textAddress i).toInt ≤ 1048575

instance (i : Nat) (a : Word) : Decidable (JumpReaches i a) := inferInstanceAs (Decidable (_ ∧ _))

namespace Parallel

open InstructionSet

theorem setUnit (h : Parallel D cfg p q) {i : Nat} {x y : ICUnit × Bool}
    (hu : D.Units cfg i x y) : Parallel D cfg (p.setUnit i x) (q.setUnit i y) :=
  { h with
    code := h.code.set i hu
    index := fun hmoves => by simp only [Parser.setUnit, List.length_set]; exact h.index hmoves }

theorem patchOffset (h : Parallel D cfg p q) {i : Nat} {u : ICUnit} (hu : u.label ∈ D.names)
    (m : String) {a a' : Word} {low high : Int} (expected : String)
    (hrange : low ≤ (a - textAddress i).toInt ∧ (a - textAddress i).toInt ≤ high ↔
      low ≤ (a' - textAddress i).toInt ∧ (a' - textAddress i).toInt ≤ high)
    (himm : D.Immediates cfg i (toString (a - textAddress i).toInt)
      (toString (a' - textAddress i).toInt)) :
    Parallel D cfg (p.patchOffset i u a low high expected)
      (q.patchOffset i { u with label := D.ρ u.label, imm := m } a' low high expected) := by
  unfold Parser.patchOffset
  dsimp only
  by_cases hin : low ≤ (a - textAddress i).toInt ∧ (a - textAddress i).toInt ≤ high
  · rw [if_pos hin, if_pos (hrange.mp hin)]
    exact h.setUnit ⟨hu, rfl, himm⟩
  · rw [if_neg hin, if_neg (mt hrange.mpr hin)]
    exact h.failWith _ _ _ _

/-- Both parses resolve the unit at an index or neither does, if a jump to a data label does not
get out of its range in one of them alone. -/
theorem patch (h : Parallel D cfg p q) (i : Nat)
    (hreach : ∀ u b s s', p.intermediateCode[i]? = some (u, b) →
      isValidJTypeInstruction u.opcode = true → p.symbolTable u.label = some s →
      q.symbolTable (D.ρ u.label) = some s' → D.Symbols s s' → s.isData = true →
      (JumpReaches i s.address ↔ JumpReaches i s'.address)) :
    Parallel D cfg (p.patch i) (q.patch i) := by
  have hunit := h.code.getElem? i
  unfold Parser.patch
  generalize hp : p.intermediateCode[i]? = x at hunit
  generalize q.intermediateCode[i]? = y at hunit
  cases hunit with
  | none => exact h
  | @some x y hxy =>
    obtain ⟨u, resolved⟩ := x
    obtain ⟨hlabel, hunit, himm⟩ := hxy
    rw [hunit]
    have hsymbol := h.symbols _ hlabel
    dsimp only at hsymbol ⊢
    generalize hs : p.symbolTable u.label = s at hsymbol
    generalize hs' : q.symbolTable (D.ρ u.label) = s' at hsymbol
    cases hsymbol with
    | none => exact h.failWith _ _ _ _
    | @some s s' hss =>
      dsimp only
      rw [hss.isData]
      by_cases hbranch : isValidBTypeInstruction u.opcode = true
      · rw [if_pos hbranch, if_pos hbranch]
        by_cases hdata : s.isData = false
        · rw [if_pos hdata, if_pos hdata, hss.text hdata]
          exact h.patchOffset hlabel _ _ .rfl (.inl rfl)
        · rw [if_neg hdata, if_neg hdata]
          exact (h.failWith _ _ _ _).setUnit ⟨hlabel, rfl, himm⟩
      · rw [if_neg hbranch, if_neg hbranch]
        by_cases hjump : isValidJTypeInstruction u.opcode = true
        · rw [if_pos hjump, if_pos hjump]
          cases hdata : s.isData with
          | false =>
            rw [hss.text hdata]
            exact h.patchOffset hlabel _ _ .rfl (.inl rfl)
          | true =>
            exact h.patchOffset hlabel _ _ (hreach u resolved s s' hp hjump hs hs' hss hdata)
              (.inr ⟨_, _, _, .jump i, hss.data hdata, rfl, rfl⟩)
        · rw [if_neg hjump, if_neg hjump]
          exact h.failWith _ _ _ _

end Parallel

end Parser

end RiscvSim
