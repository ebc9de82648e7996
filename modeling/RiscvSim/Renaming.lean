import RiscvSim.Assembler

/-! Other names for the labels of a source. The lexer says which of its characters are a label:
the renamed source has the new name in their place and is otherwise the same text. -/

namespace RiscvSim

open Lexer

instance : DecidablePred IsName
  | [] => isFalse (by rintro ⟨c, cs, h, -⟩; exact nomatch h)
  | c :: cs =>
    decidable_of_iff ((c.isAlpha = true ∨ c = '_') ∧ cs.all isIdentifierChar = true) (by
      rw [List.all_eq_true]
      constructor
      · exact fun h => ⟨c, cs, rfl, h⟩
      · rintro ⟨d, ds, h, hd⟩
        obtain ⟨rfl, rfl⟩ := List.cons.inj h
        exact hd)

/-- A name that is read as a label when a colon follows it. -/
def IsLabelName (name : String) : Prop := IsName name.toList ∧ '.' ∉ name.toList

instance : DecidablePred IsLabelName := fun _ => inferInstanceAs (Decidable (_ ∧ _))

/-- A call of the lexer: the token that it returns, if any, and the characters that it reads. -/
structure Piece where
  token : Option Token
  text : List Char
  deriving DecidableEq

namespace Piece

/-- The label that a piece defines or refers to. -/
def label (p : Piece) : Option String :=
  p.token.bind fun t => if t.IsLabel ∧ IsLabelName t.value then some t.value else none

/-- The characters of a piece with a new name for its label. -/
def rename (ρ : String → String) (p : Piece) : List Char :=
  match p.label with
  | some name => p.text.takeWhile Decimal.isSpace ++
      ((ρ name).toList ++ (p.text.dropWhile Decimal.isSpace).drop name.toList.length)
  | none => p.text

end Piece

section

variable (floatText : String → Except Thrown String)

/-- The pieces of a line; after an error the rest of the line is left as it is. -/
def pieces : Nat → Lexer → List Piece
  | 0, _ => []
  | n + 1, l =>
    if l.inLine then
      match l.getNextToken floatText with
      | .ok (t, l') => ⟨t, l.rest.take (l.rest.length - l'.rest.length)⟩ :: pieces n (l'.push t)
      | .error _ => [⟨none, l.rest⟩]
    else []

def linePieces (l : Lexer) : List Piece := pieces floatText l.rest.length l

def sourcePieces : Lexer → List (List Char) → List (List Piece)
  | _, [] => []
  | l, line :: lines => linePieces floatText (l.readLine line) ::
    match (l.readLine line).lexLine floatText with
    | .ok l' => sourcePieces l' lines
    | .error _ => lines.map fun line => [⟨none, line⟩]

/-- The source with a new name for each of its labels. -/
def rename (ρ : String → String) (source : List (List Char)) : List (List Char) :=
  (sourcePieces floatText {} source).map fun ps => ps.flatMap (Piece.rename ρ)

/-- The labels that a source defines or refers to. -/
def labels (source : List (List Char)) : List String :=
  (sourcePieces floatText {} source).flatten.filterMap Piece.label

end

variable {floatText : String → Except Thrown String} {ρ : String → String} {l l' m : Lexer}
  {c r r' : List Char}

theorem pieces_budget {j k : Nat} (hj : l.rest.length ≤ j) (hk : l.rest.length ≤ k) :
    pieces floatText j l = pieces floatText k l := by
  induction j generalizing k l with
  | zero =>
    have hend : l.inLine = false := by simp [inLine, List.length_eq_zero_iff.mp (by omega : l.rest.length = 0)]
    cases k with
    | zero => rfl
    | succ k => simp [pieces, hend]
  | succ j ih =>
    cases k with
    | zero =>
      have hend : l.inLine = false := by simp [inLine, List.length_eq_zero_iff.mp (by omega : l.rest.length = 0)]
      simp [pieces, hend]
    | succ k =>
      unfold pieces
      split
      · rename_i hin
        cases h : l.getNextToken floatText with
        | error e => rfl
        | ok a =>
          obtain ⟨t, l'⟩ := a
          obtain ⟨blanks, c, hreads⟩ := getNextToken_reads h
          have hlt : (l'.push t).rest.length < l.rest.length := hreads.shorter hin
          dsimp only
          rw [ih (by omega) (k := k) (by omega)]
      · rfl

theorem linePieces_end (h : l.inLine = false) : linePieces floatText l = [] := by
  have hrest : l.rest = [] := by simpa [inLine] using h
  simp [linePieces, hrest, pieces]

theorem linePieces_error {e : Thrown} (hin : l.inLine = true)
    (h : l.getNextToken floatText = .error e) : linePieces floatText l = [⟨none, l.rest⟩] := by
  obtain ⟨n, hn⟩ : ∃ n, l.rest.length = n + 1 :=
    Nat.exists_eq_succ_of_ne_zero (by simpa [inLine] using hin)
  simp [linePieces, hn, pieces, hin, h]

theorem Lexer.Reads.text {blanks : List Char} {t : Option Token}
    (h : Reads floatText l blanks c t l') :
    l.rest.take (l.rest.length - l'.rest.length) = blanks ++ c := by
  rw [h.rest, ← List.append_assoc, List.take_left' (by simp; omega)]

theorem linePieces_reads {blanks : List Char} {t : Option Token} (hin : l.inLine = true)
    (h : l.getNextToken floatText = .ok (t, l')) (hreads : Reads floatText l blanks c t l') :
    linePieces floatText l = ⟨t, blanks ++ c⟩ :: linePieces floatText (l'.push t) := by
  have hlt : (l'.push t).rest.length < l.rest.length := hreads.shorter hin
  obtain ⟨n, hn⟩ : ∃ n, l.rest.length = n + 1 := ⟨l.rest.length - 1, by omega⟩
  rw [linePieces, hn, pieces, if_pos hin, h]
  dsimp only
  rw [hreads.text, linePieces, pieces_budget (k := (l'.push t).rest.length) (by omega) le_rfl]

/-! One lexeme with another name, and with other characters after it. -/

namespace Lexer

/-- The characters of `r'` end a lexeme where those of `r` do. -/
structure Follows (r r' : List Char) : Prop where
  nil : r' = [] ↔ r = []
  colon : r'.head? = some ':' → r.head? = some ':'
  identifier : Ends isIdentifierChar r → Ends isIdentifierChar r'
  number : Ends isNumberChar r → Ends isNumberChar r'
  directive : Ends Char.isAlpha r → Ends Char.isAlpha r'

theorem Follows.of_head (h : r'.head? = r.head?) : Follows r r' where
  nil := by rw [← List.head?_eq_none_iff, h, List.head?_eq_none_iff]
  colon hc := h ▸ hc
  identifier hr x hx := hr x (h ▸ hx)
  number hr x hx := hr x (h ▸ hx)
  directive hr x hx := hr x (h ▸ hx)

/-- What is read does not depend on what follows but for where it ends. -/
theorem Lexeme.follows {comma : Bool} {t : Option (TokenType × String)}
    (h : Lexeme floatText comma c r t) (hr : Follows r r') : Lexeme floatText comma c r' t := by
  have hend (hnil : r = []) : r' = [] := hr.nil.mpr hnil
  cases h with
  | lineEnd => rw [hend rfl]; exact .lineEnd
  | comment cs hc => rw [hend rfl]; exact .comment cs hc
  | label r hname => exact .label r' hname
  | name hname hends hcolon => exact .name hname (hr.identifier hends) fun h => hcolon (hr.colon h)
  | number hc hcs hends hread => exact .number hc hcs (hr.number hends) hread
  | sign r hc => exact .sign r' hc
  | directive hcs hends => exact .directive hcs (hr.directive hends)
  | string r hcs => exact .string r' hcs
  | unterminated hcs => rw [hend rfl]; exact .unterminated hcs
  | other cs hc => rw [hend rfl]; exact .other cs hc

theorem mem_of_nameType {name : String} {type : TokenType} (h : nameType name = some type) :
    type ∈ [TokenType.OPCODE, .GP_REGISTER, .FP_REGISTER, .CSR_REGISTER, .RM] := by
  unfold nameType at h
  grind

theorem nameType_type {name : String} {type : TokenType} (h : nameType name = some type) :
    type ≠ .LABEL ∧ type ≠ .LABEL_REF := by
  have hmem := mem_of_nameType h
  simp only [List.mem_cons, List.not_mem_nil, or_false] at hmem
  rcases hmem with rfl | rfl | rfl | rfl | rfl <;> decide

/-- A name of an operand is read as that operand. -/
theorem Lexeme.operand {comma : Bool} {name : String} {type : TokenType} (hname : IsName name.toList)
    (htype : nameType name = some type) (hr : Ends isIdentifierChar r)
    (hcolon : r.head? ≠ some ':') : Lexeme floatText comma name.toList r (some (type, name)) := by
  have h : Lexeme floatText comma name.toList r _ := .name hname hr hcolon
  rwa [String.ofList_toList, htype] at h

/-- The two lexemes that are labels: at a colon, and after a comma. -/
inductive LabelLexeme (comma : Bool) (c r : List Char) (name : List Char) : TokenType → Prop
  | label (hc : c = name ++ [':']) (hdot : '.' ∉ name) : LabelLexeme comma c r name .LABEL
  | reference (hc : c = name) (hr : Ends isIdentifierChar r) (hcolon : r.head? ≠ some ':')
      (hcomma : comma = true) (htype : nameType (String.ofList name) = none) :
      LabelLexeme comma c r name .LABEL_REF

theorem Lexeme.label_cases {comma : Bool} {type : TokenType} {value : String}
    (h : Lexeme floatText comma c r (some (type, value))) (ht : type = .LABEL ∨ type = .LABEL_REF) :
    IsName value.toList ∧ LabelLexeme comma c r value.toList type := by
  cases h with
  | @label cs r hname =>
    rw [String.toList_ofList]
    by_cases hdot : '.' ∈ cs
    · simp [hdot] at ht
    · refine ⟨hname, ?_⟩
      simp only [List.contains_eq_mem, hdot, decide_false]
      exact .label rfl hdot
  | @name cs r hname hr hcolon =>
    rw [String.toList_ofList]
    refine ⟨hname, ?_⟩
    cases htype : nameType (String.ofList c) with
    | some type =>
      rw [htype] at ht
      exact absurd ht (by simp [nameType_type htype])
    | none =>
      cases comma with
      | true => exact .reference rfl hr hcolon rfl htype
      | false => simp [htype] at ht
  | number hc hcs hr hread =>
    have htype := readNumber_type hread
    rcases ht with rfl | rfl <;> simp at htype
  | sign r hc => rcases ht with rfl | rfl <;> simp [signs] at hc
  | directive | string | unterminated | other => simp at ht

/-- What is asked of the new name of a label where the label is used. -/
structure Fits (ρ : String → String) (Kept : String → String → Prop) (t : Token) : Prop where
  valid : IsLabelName (ρ t.value)
  underscore : t.value.toList.head? = some '_' → (ρ t.value).toList.head? = some '_'
  reference : t.type = .LABEL_REF → nameType (ρ t.value) = none
  kept : t.type = .LABEL_REF → Kept t.value (ρ t.value)

theorem Lexeme.rename {comma : Bool} {type : TokenType} {value name : String}
    (h : Lexeme floatText comma c r (some (type, value))) (ht : type = .LABEL ∨ type = .LABEL_REF)
    (hname : IsLabelName name) (href : type = .LABEL_REF → nameType name = none)
    (hr : Follows r r') :
    Lexeme floatText comma (name.toList ++ c.drop value.toList.length) r' (some (type, name)) := by
  obtain ⟨-, hlabel⟩ := h.label_cases ht
  cases hlabel with
  | label hc hdot =>
    have hlexeme : Lexeme floatText comma (name.toList ++ [':']) r' _ := .label r' hname.1
    rw [List.contains_eq_mem, decide_eq_false hname.2, String.ofList_toList] at hlexeme
    rw [hc, List.drop_left]
    exact hlexeme
  | reference hc hends hcolon hcomma htype =>
    have hlexeme : Lexeme floatText comma name.toList r' _ :=
      .name hname.1 (hr.identifier hends) fun h => hcolon (hr.colon h)
    rw [String.ofList_toList, href rfl, hcomma] at hlexeme
    rw [hc, List.drop_length, List.append_nil, hcomma]
    exact hlexeme

end Lexer

theorem name_start {name : List Char} (h : IsName name) : Ends Decimal.isSpace (name ++ r) := by
  obtain ⟨x, cs, rfl, hx, -⟩ := h
  rintro y ⟨⟩
  exact not_space (P := fun x => x.isAlpha = true ∨ x = '_') hx (by decide)

namespace Piece

variable {p : Piece} {blanks : List Char} {t : Token} {n : String}

theorem label_eq_some :
    p.label = some n ↔ ∃ t, p.token = some t ∧ t.IsLabel ∧ IsLabelName n ∧ t.value = n := by
  unfold label
  cases p.token with
  | none => simp
  | some t =>
    by_cases h : t.IsLabel ∧ IsLabelName t.value
    · simp only [Option.bind_some, if_pos h, Option.some.injEq]
      constructor
      · rintro rfl
        exact ⟨t, rfl, h.1, h.2, rfl⟩
      · rintro ⟨u, rfl, -, -, rfl⟩
        rfl
    · simp only [Option.bind_some, if_neg h]
      constructor
      · exact nofun
      · rintro ⟨u, hu, hlabel, hname, rfl⟩
        obtain rfl := Option.some.inj hu
        exact absurd ⟨hlabel, hname⟩ h

theorem rename_of_none (h : p.label = none) : p.rename ρ = p.text := by
  rw [rename, h]

/-- The name is behind the white space of the piece. -/
theorem rename_of_some (h : p.label = some n) (hblanks : ∀ x ∈ blanks, Decimal.isSpace x = true)
    (htext : p.text = blanks ++ (n.toList ++ r)) :
    p.rename ρ = blanks ++ ((ρ n).toList ++ r) := by
  obtain ⟨t, -, -, hname, -⟩ := label_eq_some.mp h
  have hstart := name_start (r := r) hname.1
  rw [rename, h]
  dsimp only
  rw [htext, takeWhile_of_ends hblanks hstart, dropWhile_of_ends hblanks hstart, List.drop_left]

/-- The name is at the beginning of the piece. -/
theorem rename_of_label (h : p.label = some n) (htext : p.text = n.toList ++ r) :
    p.rename ρ = (ρ n).toList ++ r := rename_of_some h (List.forall_mem_nil _) htext

end Piece

/-- The new name of a piece's label is one that the lexer reads in its place. -/
def Piece.Fits (names : Set String) (ρ : String → String) (Kept : String → String → Prop)
    (p : Piece) : Prop :=
  ∀ t n, p.token = some t → p.label = some n → n ∈ names ∧ Lexer.Fits ρ Kept t

variable {names : Set String} {Kept : String → String → Prop} {blanks : List Char} {t : Option Token}

/-- The lexeme of a label begins with its name. -/
theorem Lexer.Reads.label_text (h : Reads floatText l blanks c t l') {n : String}
    (hlabel : (Piece.mk t (blanks ++ c)).label = some n) : ∃ tail, c = n.toList ++ tail := by
  obtain ⟨u, rfl, hu, hname, rfl⟩ := Piece.label_eq_some.mp hlabel
  obtain ⟨-, hcases⟩ := h.lexeme.label_cases hu
  generalize u.type = type at hcases
  cases hcases with
  | label hc hdot => exact ⟨_, hc⟩
  | reference hc hr hcolon hcomma htype => exact ⟨[], by rw [hc, List.append_nil]⟩

/-- A new name can be put where its label ends what is in front of it. -/
theorem follows_name {n : String} (hn : IsLabelName n) (hm : IsLabelName (ρ n))
    (hunderscore : n.toList.head? = some '_' → (ρ n).toList.head? = some '_') :
    Follows (n.toList ++ r) ((ρ n).toList ++ r') := by
  obtain ⟨⟨x, cs, hx, hstart, -⟩, -⟩ := hn
  obtain ⟨⟨y, ds, hy, hstart', -⟩, -⟩ := hm
  rw [hx, hy] at hunderscore ⊢
  have hnumber {f : Char → Bool} (hf : ∀ x : Char, x.isAlpha = true → f x = true)
      (hdash : f '_' = false) (hends : Ends f (x :: cs ++ r)) : Ends f (y :: ds ++ r') := by
    rintro z ⟨⟩
    have hfx := hends x rfl
    rcases hstart with h | rfl
    · rw [hf x h] at hfx
      exact nomatch hfx
    · obtain rfl := Option.some.inj (hunderscore rfl)
      exact hdash
  refine ⟨by simp, ?_, ?_, hnumber ?_ (by decide), hnumber (fun _ h => h) (by decide)⟩
  · rintro ⟨⟩
    rcases hstart' with h | h <;> exact absurd h (by decide)
  · intro hends
    have hx := hends x rfl
    rcases hstart with h | rfl
    · simp [isIdentifierChar, Char.isAlphanum, h] at hx
    · exact absurd hx (by decide)
  · intro x h
    simp [isNumberChar, Char.isAlphanum, h]

theorem Lexer.Follows.same_head {x : Char} : Follows (x :: r) (x :: r') := .of_head rfl

/-- A line with new names ends a lexeme in front of it where the line did. -/
theorem follows_rename (hfits : ∀ p ∈ linePieces floatText l, p.Fits names ρ Kept) :
    Follows l.rest ((linePieces floatText l).flatMap (Piece.rename ρ)) := by
  cases hin : l.inLine with
  | false =>
    have hrest : l.rest = [] := by simpa [inLine] using hin
    rw [linePieces_end hin, hrest]
    exact .of_head rfl
  | true =>
    cases h : l.getNextToken floatText with
    | error e =>
      rw [linePieces_error hin h]
      exact .of_head (by simp [Piece.rename, Piece.label])
    | ok a =>
      obtain ⟨t, l'⟩ := a
      obtain ⟨blanks, c, hreads⟩ := getNextToken_reads h
      rw [linePieces_reads hin h hreads] at hfits ⊢
      rw [hreads.rest, List.flatMap_cons]
      cases hlabel : (Piece.mk t (blanks ++ c)).label with
      | none =>
        rw [Piece.rename_of_none hlabel, ← List.append_assoc]
        have hne : blanks ++ c ≠ [] := fun hnil => by
          have hlt := hreads.shorter hin
          rw [hreads.rest, ← List.append_assoc, hnil] at hlt
          exact absurd hlt (Nat.lt_irrefl _)
        obtain ⟨x, cs, hx⟩ := List.exists_cons_of_ne_nil hne
        rw [hx]
        exact .same_head
      | some n =>
        obtain ⟨u, rfl, -, hname, hvalue⟩ := Piece.label_eq_some.mp hlabel
        obtain ⟨-, hfit⟩ := hfits _ List.mem_cons_self u n rfl hlabel
        obtain ⟨tail, rfl⟩ := hreads.label_text hlabel
        rw [Piece.rename_of_some hlabel hreads.spaces rfl]
        cases blanks with
        | cons x blanks => exact .same_head
        | nil =>
          simp only [List.nil_append, List.append_assoc]
          exact follows_name hname (hvalue ▸ hfit.valid) (hvalue ▸ hfit.underscore)

/-- The map of names, on labels only. -/
def onLabels (ρ : String → String) (n : String) : String := if IsLabelName n then ρ n else n

/-- The labels in `names`, and all texts that are not labels. -/
def labelNames (names : Set String) : Set String := {n | IsLabelName n → n ∈ names}

abbrev Token.Renamed (names : Set String) (ρ : String → String) (Kept : String → String → Prop) :
    Token → Token → Prop := Token.Respelled (labelNames names) (onLabels ρ) Kept

structure Piece.Renamed (names : Set String) (ρ : String → String) (Kept : String → String → Prop)
    (p p' : Piece) : Prop where
  text : p'.text = p.rename ρ
  token : Option.Rel (Token.Renamed names ρ Kept) p.token p'.token

/-- The two lexers have read the same up to the names of the labels. -/
structure Lexer.InStep (names : Set String) (ρ : String → String) (Kept : String → String → Prop)
    (l m : Lexer) : Prop where
  lineNumber : m.lineNumber = l.lineNumber
  tokens : List.Forall₂ (Token.Renamed names ρ Kept) l.tokens m.tokens

namespace Lexer

theorem InStep.afterComma (h : InStep names ρ Kept l m) : m.afterComma = l.afterComma := by
  have hlast := (indexed_iff_forall₂.mpr (List.forall₂_reverse_iff.mpr h.tokens)).getElem? 0
  simp only [← List.head?_eq_getElem?, List.head?_reverse] at hlast
  unfold Lexer.afterComma
  generalize l.tokens.getLast? = x at hlast
  generalize m.tokens.getLast? = y at hlast
  cases hlast with
  | none => rfl
  | some ht => rw [Option.any_some, Option.any_some, ht.type]

/-- The lexer reads a piece with its new name as it reads the piece. -/
theorem Reads.renamed (hkept : ∀ n, Kept n n) (hreads : Reads floatText l blanks c t l') (hs : InStep names ρ Kept l m)
    (hfits : (Piece.mk t (blanks ++ c)).Fits names ρ Kept) (hr : Follows l'.rest r')
    (hrest : m.rest = (Piece.mk t (blanks ++ c)).rename ρ ++ r') :
    ∃ u m', m.getNextToken floatText = .ok (u, m') ∧ m'.rest = r' ∧
      Option.Rel (Token.Renamed names ρ Kept) t u ∧ InStep names ρ Kept (l'.push t) (m'.push u) := by
  obtain ⟨c', o, hlexeme, hrest', hvalue⟩ : ∃ c' o, Lexeme floatText m.afterComma c' r' o ∧
      m.rest = blanks ++ (c' ++ r') ∧
      o = t.map fun u => (u.type, if u.IsLabel then onLabels ρ u.value else u.value) := by
    rw [hs.afterComma]
    cases hlabel : (Piece.mk t (blanks ++ c)).label with
    | none =>
      refine ⟨c, _, hreads.lexeme.follows hr, ?_, ?_⟩
      · rw [hrest, Piece.rename_of_none hlabel, List.append_assoc]
      · cases t with
        | none => rfl
        | some u =>
          simp only [Option.map_some, Option.some.injEq, Prod.mk.injEq, true_and]
          split
          · rename_i hu
            have hname : ¬ IsLabelName u.value := by
              intro hname
              have hsome := (Piece.label_eq_some (p := ⟨some u, blanks ++ c⟩)).mpr
                ⟨u, rfl, hu, hname, rfl⟩
              rw [hlabel] at hsome
              exact nomatch hsome
            rw [onLabels, if_neg hname]
          · rfl
    | some n =>
      obtain ⟨u, rfl, hu, hname, rfl⟩ := Piece.label_eq_some.mp hlabel
      obtain ⟨-, hfit⟩ := hfits u _ rfl hlabel
      obtain ⟨tail, rfl⟩ := hreads.label_text hlabel
      have hlexeme := hreads.lexeme.rename hu hfit.valid hfit.reference hr
      rw [List.drop_left] at hlexeme
      refine ⟨_, _, hlexeme, ?_, ?_⟩
      · rw [hrest, Piece.rename_of_some hlabel hreads.spaces rfl, List.append_assoc]
      · rw [Option.map_some, if_pos hu, onLabels, if_pos hname]
  obtain ⟨u, m', hm, hm', hmap⟩ := getNextToken_of_lexeme hreads.spaces hlexeme hrest'
  obtain ⟨blanks', c'', hreads'⟩ := getNextToken_reads hm
  have hrel : Option.Rel (Token.Renamed names ρ Kept) t u := by
    have hline := hreads.line
    have hline' := hreads'.line
    rw [hvalue] at hmap
    cases t with
    | none =>
      obtain rfl : u = none := by simpa using hmap
      exact .none
    | some t =>
      cases u with
      | none => exact nomatch hmap
      | some u =>
        simp only [Option.map_some, Option.some.injEq, Prod.mk.injEq] at hmap hline hline'
        have hfit (hlabel : t.IsLabel) (hname : IsLabelName t.value) :=
          hfits t _ rfl (Piece.label_eq_some.mpr ⟨t, rfl, hlabel, hname, rfl⟩)
        refine .some ⟨hmap.1, by rw [hline', hline, hs.lineNumber], fun hlabel => ?_,
          fun href => ?_, fun hlabel => by rw [hmap.2, if_neg hlabel]⟩
        · exact ⟨fun hname => (hfit hlabel hname).1, by rw [hmap.2, if_pos hlabel]⟩
        · rw [hmap.2, if_pos (.inr href), onLabels]
          split
          · exact (hfit (.inr href) ‹_›).2.kept href
          · exact hkept _
  refine ⟨u, m', hm, hm', hrel, ?_, ?_⟩
  · change m'.lineNumber = l'.lineNumber
    rw [hreads'.lineNumber, hreads.lineNumber, hs.lineNumber]
  · change List.Forall₂ _ (l'.tokens ++ t.toList) (m'.tokens ++ u.toList)
    rw [hreads'.tokens, hreads.tokens]
    refine List.rel_append hs.tokens ?_
    cases hrel with
    | none => exact .nil
    | some h => exact .cons h .nil

theorem Lexeme.after_comma {comma : Bool} {t : Option (TokenType × String)}
    (h : Lexeme floatText comma c r t) (comma' : Bool) : ∃ t', Lexeme floatText comma' c r t' := by
  cases h with
  | lineEnd => exact ⟨_, .lineEnd⟩
  | comment cs hc => exact ⟨_, .comment cs hc⟩
  | label r hname => exact ⟨_, .label r hname⟩
  | name hname hr hcolon => exact ⟨_, .name hname hr hcolon⟩
  | number hc hcs hr hread => exact ⟨_, .number hc hcs hr hread⟩
  | sign r hc => exact ⟨_, .sign r hc⟩
  | directive hcs hr => exact ⟨_, .directive hcs hr⟩
  | string r hcs => exact ⟨_, .string r hcs⟩
  | unterminated hcs => exact ⟨_, .unterminated hcs⟩
  | other cs hc => exact ⟨_, .other cs hc⟩

/-- An error is about the characters that are left. -/
theorem getNextToken_error {e : Thrown} (h : l.getNextToken floatText = .error e)
    (hrest : m.rest = l.rest) : ∃ e, m.getNextToken floatText = .error e := by
  cases hm : m.getNextToken floatText with
  | error e => exact ⟨e, rfl⟩
  | ok a =>
    obtain ⟨t, m'⟩ := a
    obtain ⟨blanks, c, hreads⟩ := getNextToken_reads hm
    obtain ⟨t', ht'⟩ := hreads.lexeme.after_comma l.afterComma
    obtain ⟨u, l', hl, -⟩ := getNextToken_of_lexeme hreads.spaces ht' (hrest ▸ hreads.rest)
    rw [h] at hl
    exact nomatch hl

/-- The two lexers stay in step to the end of the line. -/
theorem lexLine_renamed (hkept : ∀ n, Kept n n) (hs : InStep names ρ Kept l m)
    (hfits : ∀ p ∈ linePieces floatText l, p.Fits names ρ Kept)
    (hrest : m.rest = (linePieces floatText l).flatMap (Piece.rename ρ)) :
    Loop.Both (InStep names ρ Kept) (l.lexLine floatText) (m.lexLine floatText) ∧
      List.Forall₂ (Piece.Renamed names ρ Kept) (linePieces floatText l) (linePieces floatText m) := by
  induction hn : l.rest.length using Nat.strongRecOn generalizing l m with
  | ind n ih =>
    have hin' : m.inLine = l.inLine := by
      have hnil := (follows_rename hfits).nil
      rw [← hrest] at hnil
      rw [Bool.eq_iff_iff, inLine_iff, inLine_iff, not_iff_not]
      exact hnil
    rw [lexLine_eq, lexLine_eq, hin']
    cases hin : l.inLine with
    | false =>
      rw [hin] at hin'
      rw [linePieces_end hin, linePieces_end hin']
      exact ⟨hs, .nil⟩
    | true =>
      rw [hin] at hin'
      rw [if_pos rfl, if_pos rfl]
      cases h : l.getNextToken floatText with
      | error e =>
        rw [linePieces_error hin h] at hrest ⊢
        have hsame : m.rest = l.rest := by simpa [Piece.rename, Piece.label] using hrest
        obtain ⟨e', h'⟩ := getNextToken_error h hsame
        rw [linePieces_error hin' h', lineTurn, lineTurn, h, h', hsame]
        exact ⟨trivial, .cons ⟨rfl, .none⟩ .nil⟩
      | ok a =>
        obtain ⟨t, l'⟩ := a
        obtain ⟨blanks, c, hreads⟩ := getNextToken_reads h
        rw [linePieces_reads hin h hreads] at hfits hrest ⊢
        rw [List.flatMap_cons] at hrest
        have hfits' := fun p hp => hfits p (List.mem_cons_of_mem _ hp)
        have hfollows := follows_rename hfits'
        obtain ⟨u, m', h', hm', hrel, hstep⟩ :=
          hreads.renamed hkept hs (hfits _ List.mem_cons_self) hfollows hrest
        obtain ⟨blanks', c', hreads'⟩ := getNextToken_reads h'
        have htext : blanks' ++ c' = (Piece.mk t (blanks ++ c)).rename ρ := by
          have heq := hreads'.rest
          rw [hm', hrest, ← List.append_assoc] at heq
          exact (List.append_cancel_right heq).symm
        obtain ⟨hboth, hpieces⟩ := ih (l'.push t).rest.length (hn ▸ hreads.shorter hin) hstep hfits'
          hm' rfl
        rw [linePieces_reads hin' h' hreads', lineTurn, lineTurn, h, h']
        exact ⟨hboth, .cons ⟨htext, hrel⟩ hpieces⟩

theorem sourcePieces_renamed (hkept : ∀ n, Kept n n) {source : List (List Char)} (hs : InStep names ρ Kept l m)
    (hfits : ∀ ps ∈ sourcePieces floatText l source, ∀ p ∈ ps, p.Fits names ρ Kept) :
    Loop.Both (InStep names ρ Kept) (lexLines floatText l source) (lexLines floatText m
        ((sourcePieces floatText l source).map fun ps => ps.flatMap (Piece.rename ρ))) ∧
      List.Forall₂ (List.Forall₂ (Piece.Renamed names ρ Kept)) (sourcePieces floatText l source)
        (sourcePieces floatText m
          ((sourcePieces floatText l source).map fun ps => ps.flatMap (Piece.rename ρ))) := by
  induction source generalizing l m with
  | nil => exact ⟨hs, .nil⟩
  | cons line lines ih =>
    have hline : InStep names ρ Kept (l.readLine line) (m.readLine
        ((linePieces floatText (l.readLine line)).flatMap (Piece.rename ρ))) :=
      ⟨congrArg (· + 1) hs.lineNumber, hs.tokens⟩
    obtain ⟨hboth, hpieces⟩ := lexLine_renamed hkept hline (hfits _ List.mem_cons_self) rfl
    have hfits' := fun ps hps => hfits ps (List.mem_cons_of_mem _ hps)
    simp only [sourcePieces, List.map_cons, lexLines]
    revert hboth hfits'
    generalize (l.readLine line).lexLine floatText = x
    generalize (m.readLine _).lexLine floatText = y
    intro hboth hfits'
    match x, y, hboth with
    | .error _, .error _, _ =>
      refine ⟨trivial, .cons hpieces ?_⟩
      dsimp only
      rw [List.map_map, List.map_map]
      refine List.forall₂_map_left_iff.mpr (List.forall₂_map_right_iff.mpr
        (List.forall₂_same.mpr fun line _ => .cons ⟨?_, .none⟩ .nil))
      simp [Piece.rename, Piece.label]
    | .ok l', .ok m', hs' =>
      obtain ⟨hlines, hrest⟩ := ih hs' hfits'
      exact ⟨hlines, .cons hpieces hrest⟩

end Lexer

section

variable {source : List (List Char)}

/-- Every label of the source gets a name that the lexer reads in its place. -/
def SourceFits (floatText : String → Except Thrown String) (names : Set String)
    (ρ : String → String) (Kept : String → String → Prop) (source : List (List Char)) : Prop :=
  ∀ ps ∈ sourcePieces floatText {} source, ∀ p ∈ ps, p.Fits names ρ Kept

theorem getTokenList_renamed (hkept : ∀ n, Kept n n) (hfits : SourceFits floatText names ρ Kept source) :
    Loop.Both (List.Forall₂ (Token.Renamed names ρ Kept)) (getTokenList floatText source)
      (getTokenList floatText (rename floatText ρ source)) := by
  refine (sourcePieces_renamed hkept ⟨rfl, .nil⟩ hfits).1.bind fun l m hs => ?_
  exact List.rel_append hs.tokens (.cons ⟨rfl, hs.lineNumber,
    fun h => absurd h (by rintro (h | h) <;> exact nomatch h), nofun, fun _ => rfl⟩ .nil)

section

variable {p p' : Piece} (h : p.Renamed names ρ Kept p') (hfits : p.Fits names ρ Kept)
include h hfits

theorem Piece.Renamed.label : p'.label = p.label.map ρ := by
  obtain ⟨o, text⟩ := p
  obtain ⟨o', text'⟩ := p'
  cases h.token with
  | none => rfl
  | @some t t' ht =>
    have hlabel : t'.IsLabel ↔ t.IsLabel := by rw [Token.IsLabel, Token.IsLabel, ht.type]
    by_cases ht' : t.IsLabel
    · by_cases hname : IsLabelName t.value
      · have hsome := (Piece.label_eq_some (p := ⟨some t, text⟩)).mpr ⟨t, rfl, ht', hname, rfl⟩
        have hvalue : t'.value = ρ t.value := by
          rw [(ht.label ht').2, onLabels, if_pos hname]
        rw [hsome, Option.map_some]
        refine Piece.label_eq_some.mpr ⟨t', rfl, hlabel.mpr ht', ?_, hvalue⟩
        exact (hfits t _ rfl hsome).2.valid
      · have hvalue : t'.value = t.value := by
          rw [(ht.label ht').2, onLabels, if_neg hname]
        simp [Piece.label, hvalue, hname]
    · simp [Piece.label, hlabel, ht']

/-- A second renaming goes to the place of the first. -/
theorem Piece.Renamed.rename (σ : String → String)
    (htext : ∀ n, p.label = some n → ∃ blanks r, (∀ x ∈ blanks, Decimal.isSpace x = true) ∧
      p.text = blanks ++ (n.toList ++ r)) : p'.rename σ = p.rename (σ ∘ ρ) := by
  have hlabel := h.label hfits
  cases hp : p.label with
  | none =>
    rw [hp] at hlabel
    rw [Piece.rename_of_none hp, Piece.rename_of_none hlabel, h.text, Piece.rename_of_none hp]
  | some n =>
    rw [hp] at hlabel
    obtain ⟨blanks, r, hblanks, htext⟩ := htext n hp
    have htext' := h.text
    rw [Piece.rename_of_some hp hblanks htext] at htext'
    rw [Piece.rename_of_some hp hblanks htext, Piece.rename_of_some hlabel hblanks htext']
    rfl

end

/-- What the lexer says of each of its pieces. -/
structure Piece.Read (p : Piece) : Prop where
  text : ∀ n, p.label = some n → ∃ blanks r, (∀ x ∈ blanks, Decimal.isSpace x = true) ∧
    p.text = blanks ++ (n.toList ++ r)
  reference : ∀ t, p.token = some t → t.type = .LABEL_REF → nameType t.value = none

theorem read_none (text : List Char) : (Piece.mk none text).Read := ⟨nofun, nofun⟩

theorem Lexer.Reads.read (h : Reads floatText l blanks c t l') :
    (Piece.mk t (blanks ++ c)).Read where
  text n hn := by
    obtain ⟨tail, rfl⟩ := h.label_text hn
    exact ⟨blanks, tail, h.spaces, rfl⟩
  reference u hu htype := by
    obtain rfl : t = some u := hu
    obtain ⟨-, hcases⟩ := h.lexeme.label_cases (.inr htype)
    rw [htype] at hcases
    cases hcases with
    | reference hc hr hcolon hcomma hname => rwa [String.ofList_toList] at hname

theorem pieces_read (n : Nat) (l : Lexer) : ∀ p ∈ pieces floatText n l, p.Read := by
  induction n generalizing l with
  | zero => nofun
  | succ n ih =>
    unfold pieces
    split
    · cases h : l.getNextToken floatText with
      | error e =>
        intro p hp
        obtain rfl := List.mem_singleton.mp hp
        exact read_none _
      | ok a =>
        obtain ⟨t, l'⟩ := a
        obtain ⟨blanks, c, hreads⟩ := getNextToken_reads h
        intro p hp
        rcases List.mem_cons.mp hp with rfl | hp
        · rw [hreads.text]
          exact hreads.read
        · exact ih _ p hp
    · nofun

theorem sourcePieces_read (l : Lexer) (source : List (List Char)) :
    ∀ ps ∈ sourcePieces floatText l source, ∀ p ∈ ps, p.Read := by
  induction source generalizing l with
  | nil => nofun
  | cons line lines ih =>
    intro ps hps p hp
    rcases List.mem_cons.mp hps with rfl | hps
    · exact pieces_read _ _ p hp
    · split at hps
      · exact ih _ ps hps p hp
      · obtain ⟨line, -, rfl⟩ := List.mem_map.mp hps
        obtain rfl := List.mem_singleton.mp hp
        exact read_none _

theorem renamed_pieces {P P' : List Piece} (h : List.Forall₂ (Piece.Renamed names ρ Kept) P P')
    (hfits : ∀ p ∈ P, p.Fits names ρ Kept) (hread : ∀ p ∈ P, p.Read) (σ : String → String) :
    P'.flatMap (Piece.rename σ) = P.flatMap (Piece.rename (σ ∘ ρ)) ∧
      P'.filterMap Piece.label = (P.filterMap Piece.label).map ρ := by
  induction h with
  | nil => exact ⟨rfl, rfl⟩
  | @cons p p' P P' hp _ ih =>
    have hfit := hfits p List.mem_cons_self
    obtain ⟨hrename, hlabels⟩ := ih (fun q hq => hfits q (List.mem_cons_of_mem p hq))
      fun q hq => hread q (List.mem_cons_of_mem p hq)
    constructor
    · rw [List.flatMap_cons, List.flatMap_cons, hrename,
        hp.rename hfit σ (hread p List.mem_cons_self).text]
    · rw [List.filterMap_cons, List.filterMap_cons, hp.label hfit, hlabels]
      cases p.label with
      | none => rfl
      | some n => rfl

/-- Two renamings in a row, and the labels between them. -/
theorem rename_rename (hkept : ∀ n, Kept n n) (hfits : SourceFits floatText names ρ Kept source) (σ : String → String) :
    rename floatText σ (rename floatText ρ source) = rename floatText (σ ∘ ρ) source ∧
      labels floatText (rename floatText ρ source) = (labels floatText source).map ρ := by
  have hpieces := (sourcePieces_renamed hkept ⟨rfl, .nil⟩ hfits).2
  have hread := @sourcePieces_read floatText {} source
  change List.Forall₂ _ _ (sourcePieces floatText {} (rename floatText ρ source)) at hpieces
  unfold SourceFits at hfits
  rw [rename, labels, labels, rename.eq_def floatText (σ ∘ ρ)]
  revert hpieces hread hfits
  generalize sourcePieces floatText {} (rename floatText ρ source) = P'
  generalize sourcePieces floatText {} source = P
  intro hfits hread hpieces
  induction hpieces with
  | nil => exact ⟨rfl, rfl⟩
  | @cons ps ps' P P' hps _ ih =>
    obtain ⟨hrename, hlabels⟩ := ih (fun qs hq => hfits qs (List.mem_cons_of_mem ps hq))
      fun qs hq => hread qs (List.mem_cons_of_mem ps hq)
    obtain ⟨hrename', hlabels'⟩ := renamed_pieces hps (hfits ps List.mem_cons_self)
      (hread ps List.mem_cons_self) σ
    constructor
    · rw [List.map_cons, List.map_cons, hrename, hrename']
    · rw [List.flatten_cons, List.flatten_cons, List.filterMap_append, List.filterMap_append,
        List.map_append, hlabels, hlabels']

end

end RiscvSim
