import RiscvSim.Renaming

/-! When the names of the labels do not matter. -/

namespace RiscvSim

open Lexer

/-- `m` can take the place of the label `n`. A name that is written as an operand is read as that
operand wherever it is used, so that only the places where it is defined count. -/
structure Alike (n m : String) : Prop extends SameWords n m where
  underscore : n.toList.head? = some '_' → m.toList.head? = some '_'
  reference : nameType n = none → nameType m = none ∧ SameDirective n m

/-- New names for the labels in `names`. -/
structure IsRenaming (names : Set String) (ρ : String → String) : Prop where
  label : ∀ n ∈ names, IsLabelName n
  valid : ∀ n ∈ names, IsLabelName (ρ n)
  injOn : Set.InjOn ρ names

/-- The renamed source is accepted when the source is, with the same code, the same data and the
same addresses of its labels. -/
structure SameAssembly (cfg : ParserConfig) (floatText : String → Except Thrown String)
    (ρ : String → String) (source : List (List Char)) : Prop where
  accepted : ∀ a, Assembles cfg floatText source a →
    ∃ b, Assembles cfg floatText (rename floatText ρ source) b ∧ b.textBuffer = a.textBuffer ∧
      b.dataBuffer = a.dataBuffer ∧ ∀ n ∈ labels floatText source,
        (b.symbolTable (ρ n)).map SymbolData.address = (a.symbolTable n).map SymbolData.address
  refused : ∀ b, Assembles cfg floatText (rename floatText ρ source) b →
    ∃ a, Assembles cfg floatText source a

/-- No source whose labels are in `names` is assembled differently with the new names. -/
def Immaterial (names : Set String) (ρ : String → String) : Prop :=
  ∀ cfg floatText source, (∀ n ∈ labels floatText source, n ∈ names) →
    SameAssembly cfg floatText ρ source

variable {cfg : ParserConfig} {floatText : String → Except Thrown String} {names : Set String}
  {ρ : String → String} {source : List (List Char)} {n m : String}

theorem IsRenaming.relabeling (h : IsRenaming names ρ)
    (hwords : ∀ n ∈ names, SameWords n (ρ n)) : Relabeling (labelNames names) (onLabels ρ) where
  injOn := by
    intro n hn m hm heq
    unfold onLabels at heq
    split at heq
    · rename_i hname
      split at heq
      · rename_i hname'
        exact h.injOn (hn hname) (hm hname') heq
      · rename_i hname'
        exact absurd (heq ▸ h.valid n (hn hname)) hname'
    · rename_i hname
      split at heq
      · rename_i hname'
        exact absurd (heq ▸ h.valid m (hm hname')) hname
      · exact heq
  words n hn := by
    unfold onLabels
    split
    · exact hwords n (hn ‹_›)
    · exact ⟨.rfl, .rfl, rfl⟩
  empty := by
    have hname : ¬ IsLabelName "" := by decide
    exact ⟨fun h => absurd h hname, if_neg hname⟩

theorem mem_labels {ps : List Piece} {p : Piece} (hps : ps ∈ sourcePieces floatText {} source)
    (hp : p ∈ ps) (hn : p.label = some n) : n ∈ labels floatText source :=
  List.mem_filterMap.mpr ⟨p, List.mem_flatten.mpr ⟨ps, hps, hp⟩, hn⟩

theorem sameAssembly_of_fits (h : IsRenaming names ρ) (hwords : ∀ n ∈ names, SameWords n (ρ n))
    (hfits : SourceFits floatText names ρ SameDirective source) :
    SameAssembly cfg floatText ρ source := by
  obtain ⟨hforth, hback⟩ := @Assembles.relabeled cfg _ _ _ _ _ (h.relabeling hwords)
    (getTokenList_renamed (fun _ => rfl) hfits)
  refine ⟨fun a ha => ?_, fun b hb => ?_⟩
  · obtain ⟨b, hb, hab⟩ := hforth a ha
    refine ⟨b, hb, hab.textBuffer, hab.dataBuffer, fun n hn => ?_⟩
    obtain ⟨p, hp, hlabel⟩ := List.mem_filterMap.mp hn
    obtain ⟨ps, hps, hp⟩ := List.mem_flatten.mp hp
    obtain ⟨t, ht, -, hname, -⟩ := Piece.label_eq_some.mp hlabel
    have hsymbol := hab.symbols n fun _ => (hfits ps hps p hp t n ht hlabel).1
    rw [onLabels, if_pos hname] at hsymbol
    rw [hsymbol]
  · obtain ⟨a, ha, -⟩ := hback b hb
    exact ⟨a, ha⟩

theorem sourceFits_of_alike (h : IsRenaming names ρ) (halike : ∀ n ∈ names, Alike n (ρ n))
    (hlabels : ∀ n ∈ labels floatText source, n ∈ names) :
    SourceFits floatText names ρ SameDirective source := by
  intro ps hps p hp t n ht hlabel
  have hn := hlabels n (mem_labels hps hp hlabel)
  have hread := sourcePieces_read {} source ps hps p hp
  obtain ⟨u, hu, -, -, rfl⟩ := Piece.label_eq_some.mp hlabel
  obtain rfl : u = t := Option.some.inj (hu.symm.trans ht)
  have hal := halike _ hn
  exact ⟨hn, h.valid _ hn, hal.underscore,
    fun href => (hal.reference (hread.reference u ht href)).1,
    fun href => (hal.reference (hread.reference u ht href)).2⟩

end RiscvSim
