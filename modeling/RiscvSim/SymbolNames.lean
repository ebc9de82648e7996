import RiscvSim.Lexemes
import RiscvSim.SecondPass
import RiscvSim.Termination
import RiscvSim.UnitWords

/-! The entries of the symbol table: their names are those of labels of the source. -/

namespace RiscvSim

variable {cfg : ParserConfig} {tokens : List Token} {p q : Parser} {name : String}
  {symbol : SymbolData}

namespace Parser

/-- Some token is a label with the name. -/
def Labeled (tokens : List Token) (name : String) : Prop :=
  ∃ t ∈ tokens, t.type = .LABEL ∧ t.value = name

theorem currentToken_labeled (hend : p.notEof = true) (hsuffix : p.rest <:+ tokens)
    (htype : p.currentToken.type = .LABEL) : Labeled tokens p.currentToken.value := by
  refine ⟨p.currentToken, hsuffix.mem ?_, htype, rfl⟩
  rw [rest_of_notEof hend]
  exact List.mem_cons_self

theorem Scan.labeled {s s' : Section} (h : Scan cfg (s, initial tokens) (s', p))
    (hsymbol : p.symbolTable name = some symbol) : Labeled tokens name := by
  refine h.keeps (fun _ u => ∀ symbol, u.symbolTable name = some symbol → Labeled tokens name)
    (fun _ h => absurd h (by simp [initial])) ?_ symbol hsymbol
  intro t u v hscan hu hscanning hv symbol hsymbol
  rcases (scanToken_step hv).symbols hsymbol with hold | ⟨-, htype, rfl, -⟩
  · exact hu symbol hold
  · have hsuffix : u.rest <:+ tokens := Scans.suffix ⟨t, hscan, fun _ => rfl⟩
    exact currentToken_labeled (scanning_iff.mp hscanning).1 hsuffix htype

theorem textInvariant_labeled {p₀ : Parser} (h₀ : LexedTokens p₀.rest) (hrest : p₀.rest = tokens) :
    TextInvariant cfg p₀ fun p => ∀ symbol, p.symbolTable name = some symbol →
      Labeled tokens name where
  skip _ _ _ hp _ := hp
  step p q hv hp h := by
    cases h with
    | label htype hnew =>
      intro symbol hsymbol
      change (if name = p.currentToken.value then _ else p.symbolTable name) = some symbol
        at hsymbol
      by_cases hname : name = p.currentToken.value
      · have hsuffix : p.rest <:+ tokens := hrest ▸ (PassPoint.inside hv).suffix h₀
        have hend : p.notEof = true := notEof_iff.mpr (by rw [htype]; decide)
        rw [hname]
        exact currentToken_labeled hend hsuffix htype
      · rw [if_neg hname] at hsymbol
        exact hp symbol hsymbol
    | failed hr herrors => exact hp
    | emitted hr h => exact hp

theorem Accepts.labeled (hlexed : LexedTokens tokens) (h : Accepts cfg tokens q)
    (hsymbol : q.symbolTable name = some symbol) : Labeled tokens name := by
  obtain ⟨p, r, haccepted⟩ := accepted_of_accepts hlexed h
  obtain ⟨s, hscan⟩ := haccepted.scan
  have hrest : p.restart.rest = tokens := hscan.untouched.tokens
  rw [(haccepted.code hlexed).2] at hsymbol
  exact haccepted.text hlexed (textInvariant_labeled (haccepted.lexed hlexed) hrest)
    (fun _ hp => hscan.labeled hp) symbol hsymbol

/-- The label of a unit is empty or in the symbol table. -/
theorem Accepts.unit_label (hlexed : LexedTokens tokens) (h : Accepts cfg tokens q) {u : ICUnit}
    {b : Bool} (hu : (u, b) ∈ q.intermediateCode) :
    u.label = "" ∨ ∃ symbol, q.symbolTable u.label = some symbol := by
  obtain ⟨i, hi⟩ := List.mem_iff_getElem?.mp hu
  cases h.unitAt hlexed hi with
  | plain hplain => exact .inl hplain.label
  | linked _ _ hresolved =>
    obtain ⟨symbol, hsymbol, -⟩ := hresolved
    exact .inr ⟨symbol, hsymbol⟩

end Parser

/-- The entries of a symbol table, in the order of their names. -/
def symbolEntries (tokens : List Token) (symbolTable : String → Option SymbolData) :
    List (String × SymbolData) :=
  (((tokens.filter fun t => t.type == .LABEL).map Token.value).dedup.insertionSort
    (· ≤ ·)).filterMap fun name => (symbolTable name).map fun symbol => (name, symbol)

theorem mem_symbolEntries {symbolTable : String → Option SymbolData} {e : String × SymbolData} :
    e ∈ symbolEntries tokens symbolTable ↔
      Parser.Labeled tokens e.1 ∧ symbolTable e.1 = some e.2 := by
  rw [symbolEntries, List.mem_filterMap]
  have hlabels (name : String) : name ∈ ((tokens.filter fun t => t.type == .LABEL).map
      Token.value).dedup.insertionSort (· ≤ ·) ↔ Parser.Labeled tokens name := by
    simp [Parser.Labeled, and_assoc]
  constructor
  · rintro ⟨name, hname, h⟩
    obtain ⟨symbol, hsymbol, rfl⟩ := Option.map_eq_some_iff.mp h
    exact ⟨(hlabels name).mp hname, hsymbol⟩
  · rintro ⟨hname, hsymbol⟩
    exact ⟨e.1, (hlabels e.1).mpr hname, by rw [hsymbol]; rfl⟩

theorem symbolEntries_sorted {symbolTable : String → Option SymbolData} :
    (symbolEntries tokens symbolTable).Pairwise fun e f => e.1 < f.1 := by
  have hsorted := List.pairwise_insertionSort (· ≤ ·)
    ((tokens.filter fun t => t.type == .LABEL).map Token.value).dedup
  have hnodup := ((List.perm_insertionSort (· ≤ ·) _).nodup_iff).mpr
    (List.nodup_dedup ((tokens.filter fun t => t.type == .LABEL).map Token.value))
  refine (hsorted.and hnodup).filterMap _ fun a b hab e he f hf => ?_
  obtain ⟨_, -, rfl⟩ := Option.map_eq_some_iff.mp he
  obtain ⟨_, -, rfl⟩ := Option.map_eq_some_iff.mp hf
  exact lt_of_le_of_ne hab.1 hab.2

/-- They are the whole table of an accepted program. -/
theorem Parser.Accepts.mem_symbolEntries (hlexed : LexedTokens tokens)
    (h : Parser.Accepts cfg tokens q) : (name, symbol) ∈ symbolEntries tokens q.symbolTable ↔
      q.symbolTable name = some symbol := by
  rw [RiscvSim.mem_symbolEntries]
  exact ⟨fun h => h.2, fun hsymbol => ⟨h.labeled hlexed hsymbol, hsymbol⟩⟩

end RiscvSim
