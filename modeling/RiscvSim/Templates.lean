import RiscvSim.LabelNames

/-! Sources with one label: what the assembler shows of the name that is put in its place. -/

namespace RiscvSim

open Lexer

/-- A host that converts no text to a floating-point number. -/
def noFloat : String → Except Thrown String := fun _ => .error .invalidArgument

/-- The code, the data and the address of a label. -/
abbrev View := List Instr × List DataItem × Option Word

instance : DecidableEq (Option View) := inferInstance

def Assembly.view (n : String) (a : Assembly) : View :=
  (a.textBuffer, a.dataBuffer, (a.symbolTable n).map SymbolData.address)

/-- The tokens are accepted, and `v` is what they and their label `n` become. -/
def Shows (tokens : List Token) (n : String) (v : View) : Prop :=
  ∃ turns a, assembleTokens .default turns tokens = .ok (some a) ∧ a.view n = v

/-- What a few rounds of the first pass show: nothing of tokens that are refused, and an unknown
result when the rounds do not do. -/
def outcome (tokens : List Token) (n : String) : Option (Option View) :=
  (assembleTokens .default 9 tokens).toOption.map (Option.map (Assembly.view n))

/-- A source whose only label is `base`, and what the lexer reads in it. -/
structure Template where
  base : String
  lines : List String
  pieces : List (List Piece)
  last : Token
  pieces_eq : sourcePieces noFloat {} (lines.map String.toList) = pieces
  tokens_eq : getTokenList noFloat (lines.map String.toList) =
    .ok (pieces.flatten.filterMap Piece.token ++ [last])
  label_eq : ∀ n ∈ pieces.flatten.filterMap Piece.label, n = base
  label_mem : base ∈ pieces.flatten.filterMap Piece.label

/-- A token with the name `x` if it is a label. -/
def Token.named (x : String) (t : Token) : Token :=
  if t.IsLabel ∧ IsLabelName t.value then { t with value := x } else t

namespace Template

def tokens (T : Template) : List Token := T.pieces.flatten.filterMap Piece.token ++ [T.last]

/-- The source with the name `x` for its label. -/
def source (T : Template) (x : String) : List (List Char) :=
  T.pieces.map fun ps => ps.flatMap (Piece.rename fun _ => x)

def namedTokens (T : Template) (x : String) : List Token := T.tokens.map (Token.named x)

/-- The label is nowhere referred to. -/
def DefinesOnly (T : Template) : Prop := ∀ t ∈ T.tokens, t.type ≠ .LABEL_REF

instance (T : Template) : Decidable T.DefinesOnly := inferInstanceAs (Decidable (∀ t ∈ _, _))

/-- The lexer reads `x` in the places of the label. -/
structure Reads (T : Template) (x : String) : Prop where
  name : IsLabelName x
  underscore : T.base.toList.head? = some '_' → x.toList.head? = some '_'
  reference : T.DefinesOnly ∨ nameType x = none

end Template

variable {tokens tokens' : List Token} {n m x : String} {v : View}

theorem Shows.of_outcome (h : outcome tokens n = some (some v)) : Shows tokens n v := by
  unfold outcome at h
  cases hrun : assembleTokens .default 9 tokens with
  | error e => rw [hrun] at h; exact nomatch h
  | ok o =>
    rw [hrun] at h
    cases o with
    | none => exact nomatch h
    | some a => exact ⟨9, a, hrun, Option.some.inj (Option.some.inj h)⟩

/-- A known outcome is the only one. -/
theorem Shows.outcome (h : Shows tokens n v) (hknown : outcome tokens n ≠ some none) :
    outcome tokens n = some (some v) := by
  obtain ⟨turns, a, ha, rfl⟩ := h
  have hsettled : assembleTokens .default 9 tokens ≠ .ok none := by
    intro hnone
    rw [RiscvSim.outcome, hnone] at hknown
    exact hknown rfl
  have hmax := assembleTokens_settled (Nat.le_max_left 9 turns) hsettled
  rw [assembleTokens_settled (Nat.le_max_right 9 turns) (by rw [ha]; nofun), ha] at hmax
  rw [RiscvSim.outcome, ← hmax]
  rfl

theorem not_shows (h : outcome tokens n = none) : ¬ Shows tokens n v := fun hv => by
  rw [hv.outcome (by rw [h]; nofun)] at h
  exact nomatch h

/-- Where the same is shown, the known outcomes are the same. -/
theorem outcome_congr (h : ∀ v, Shows tokens n v ↔ Shows tokens' m v)
    (hn : outcome tokens n ≠ some none) (hm : outcome tokens' m ≠ some none) :
    outcome tokens n = outcome tokens' m := by
  cases hx : outcome tokens n with
  | none =>
    cases hy : outcome tokens' m with
    | none => rfl
    | some o =>
      cases o with
      | none => exact absurd hy hm
      | some v => exact absurd ((h v).mpr (.of_outcome hy)) (not_shows hx)
  | some o =>
    cases o with
    | none => exact absurd hx hn
    | some v => exact (((h v).mp (.of_outcome hx)).outcome hm).symm

/-- Columns do not matter. -/
theorem relabeling_id : Relabeling Set.univ id :=
  ⟨Set.injOn_id _, fun _ _ => ⟨.rfl, .rfl, rfl⟩, trivial, rfl⟩

theorem Shows.congr {names : Set String} {ρ : String → String} (hρ : Relabeling names ρ)
    (htokens : List.Forall₂ (Token.Relabeled names ρ) tokens tokens') (hn : n ∈ names) :
    Shows tokens n v ↔ Shows tokens' (ρ n) v := by
  have hview {a b : Assembly} (h : a.Relabeled names ρ b) : b.view (ρ n) = a.view n := by
    simp only [Assembly.view, h.textBuffer, h.dataBuffer, h.symbols n hn]
  constructor
  · rintro ⟨turns, a, ha, rfl⟩
    obtain ⟨o, hb, hrel⟩ := (assembleTokens_relabeled hρ htokens turns).ok_left ha
    cases hrel with
    | some hab => exact ⟨turns, _, hb, hview hab⟩
  · rintro ⟨turns, b, hb, rfl⟩
    obtain ⟨o, ha, hrel⟩ := (assembleTokens_relabeled hρ htokens turns).ok_right hb
    cases hrel with
    | some hab => exact ⟨turns, _, ha, (hview hab).symm⟩

namespace Template

variable {T : Template} {names : Set String} {ρ : String → String}

theorem source_eq (T : Template) (x : String) :
    T.source x = rename noFloat (fun _ => x) (T.lines.map String.toList) := by
  rw [rename, T.pieces_eq]
  rfl

theorem Reads.fits (h : T.Reads x) : SourceFits noFloat {T.base} (fun _ => x) (fun _ _ => True)
    (T.lines.map String.toList) := by
  intro ps hps p hp t n ht hlabel
  rw [T.pieces_eq] at hps
  have hmem : p ∈ T.pieces.flatten := List.mem_flatten.mpr ⟨ps, hps, hp⟩
  have hn := T.label_eq n (List.mem_filterMap.mpr ⟨p, hmem, hlabel⟩)
  obtain ⟨u, hu, -, -, rfl⟩ := Piece.label_eq_some.mp hlabel
  obtain rfl := Option.some.inj (hu.symm.trans ht)
  refine ⟨hn, h.name, fun hunderscore => h.underscore (hn ▸ hunderscore), fun href => ?_,
    fun _ => trivial⟩
  rcases h.reference with hdef | hnone
  · exact absurd href (hdef u (List.mem_append_left _ (List.mem_filterMap.mpr ⟨p, hmem, ht⟩)))
  · exact hnone

/-- The tokens of the source with another name, but for their columns. -/
theorem Reads.getTokenList (h : T.Reads x) : ∃ tokens,
    Lexer.getTokenList noFloat (T.source x) = .ok tokens ∧
    List.Forall₂ (Token.Relabeled Set.univ id) (T.namedTokens x) tokens := by
  rw [T.source_eq]
  obtain ⟨tokens, htokens, hrel⟩ :=
    (getTokenList_renamed (fun _ => trivial) h.fits).ok_left T.tokens_eq
  refine ⟨tokens, htokens, List.forall₂_map_left_iff.mpr (hrel.imp fun t t' ht => ?_)⟩
  unfold Token.named
  by_cases hlabel : t.IsLabel
  · obtain ⟨-, hvalue⟩ := ht.label hlabel
    unfold onLabels at hvalue
    by_cases hname : IsLabelName t.value
    · rw [if_pos hname] at hvalue
      rw [if_pos ⟨hlabel, hname⟩]
      exact ⟨ht.type, ht.line, fun _ => ⟨trivial, hvalue⟩, fun _ => by rw [SameDirective, hvalue],
        fun _ => hvalue⟩
    · rw [if_neg hname] at hvalue
      rw [if_neg fun h => hname h.2]
      exact ⟨ht.type, ht.line, fun _ => ⟨trivial, hvalue⟩, fun _ => by rw [SameDirective, hvalue],
        fun _ => hvalue⟩
  · rw [if_neg fun h => hlabel h.1]
    exact ⟨ht.type, ht.line, fun h => absurd h hlabel, fun h => absurd (.inr h) hlabel,
      fun _ => ht.other hlabel⟩

/-- A name in the place of the label has the effect of the tokens. -/
theorem Reads.shows_iff (h : T.Reads x) : Shows (T.namedTokens x) x v ↔
    ∃ a, Assembles .default noFloat (T.source x) a ∧ a.view x = v := by
  obtain ⟨tokens, htokens, hrel⟩ := h.getTokenList
  rw [Shows.congr relabeling_id hrel (Set.mem_univ x)]
  constructor
  · rintro ⟨turns, a, ha, hv⟩
    exact ⟨a, ⟨turns, by rw [assemble, htokens]; exact ha⟩, hv⟩
  · rintro ⟨a, ⟨turns, ha⟩, hv⟩
    rw [assemble, htokens] at ha
    exact ⟨turns, a, ha, hv⟩

/-- Tokens with names that the parser does not tell apart. -/
theorem shows_iff_of_words (hn : IsLabelName n) (hm : IsLabelName m) (h : SameWords n m)
    (href : T.DefinesOnly ∨ SameDirective n m) :
    Shows (T.namedTokens n) n v ↔ Shows (T.namedTokens m) m v := by
  have hrenaming : IsRenaming {n} fun _ => m :=
    ⟨by rintro _ rfl; exact hn, by rintro _ rfl; exact hm, Set.injOn_singleton _ _⟩
  have hρ := hrenaming.relabeling (by rintro _ rfl; exact h)
  have hname : onLabels (fun _ => m) n = m := if_pos hn
  have htokens : List.Forall₂ (Token.Relabeled (labelNames {n}) (onLabels fun _ => m))
      (T.namedTokens n) (T.namedTokens m) := by
    refine List.forall₂_map_left_iff.mpr (List.forall₂_map_right_iff.mpr
      (List.forall₂_same.mpr fun t ht => ?_))
    unfold Token.named
    split
    · rename_i hlabel
      refine ⟨rfl, rfl, fun _ => ⟨fun _ => rfl, hname.symm⟩, fun htype => ?_,
        fun h => absurd hlabel.1 h⟩
      exact href.resolve_left fun hdef => hdef t ht htype
    · rename_i hlabel
      refine ⟨rfl, rfl, fun ht => ⟨fun hname => absurd ⟨ht, hname⟩ hlabel, ?_⟩, fun _ => rfl,
        fun _ => rfl⟩
      exact (if_neg fun hname => hlabel ⟨ht, hname⟩).symm
  have hshows := Shows.congr (v := v) hρ htokens fun _ => rfl
  rwa [hname] at hshows

/-- An immaterial renaming shows the same of the new name. -/
theorem Reads.shows_renamed (hsame : Immaterial names ρ) (hn : n ∈ names) (h : T.Reads n) :
    Shows (T.namedTokens n) n v ↔
      ∃ b, Assembles .default noFloat (T.source (ρ n)) b ∧ b.view (ρ n) = v := by
  obtain ⟨hrename, hlabels⟩ := rename_rename (fun _ => trivial) h.fits ρ
  rw [← T.source_eq, labels.eq_def noFloat (T.lines.map String.toList), T.pieces_eq] at hlabels
  have hsource : rename noFloat ρ (T.source n) = T.source (ρ n) := by
    rw [T.source_eq, hrename, T.source_eq]
    rfl
  have hmem : n ∈ labels noFloat (T.source n) := by
    rw [hlabels]
    exact List.mem_map.mpr ⟨T.base, T.label_mem, rfl⟩
  have hsame := hsame .default noFloat (T.source n) fun m hm => by
    rw [hlabels] at hm
    obtain ⟨-, -, rfl⟩ := List.mem_map.mp hm
    exact hn
  have hview (a : Assembly) (ha : Assembles .default noFloat (T.source n) a) :
      ∃ b, Assembles .default noFloat (T.source (ρ n)) b ∧ b.view (ρ n) = a.view n := by
    obtain ⟨b, hb, htext, hdata, haddress⟩ := hsame.accepted a ha
    rw [hsource] at hb
    exact ⟨b, hb, by simp only [Assembly.view, htext, hdata, haddress n hmem]⟩
  rw [h.shows_iff]
  constructor
  · rintro ⟨a, ha, rfl⟩
    exact hview a ha
  · rintro ⟨b, hb, rfl⟩
    obtain ⟨a, ha⟩ := hsame.refused b (hsource ▸ hb)
    obtain ⟨b', hb', hview⟩ := hview a ha
    exact ⟨a, ha, by rw [← hview, hb.unique hb']⟩

end Template

end RiscvSim
