import RiscvSim.Lexemes
import RiscvSim.Relabeling

/-! From the lines of a source to a program: the lexer, the parser and the code generator. -/

namespace RiscvSim

/-- What the assembler returns: the program and the table of its symbols. -/
structure Assembly extends AssembledProgram where
  symbolTable : String → Option SymbolData

/-- The part after the lexer; `none` is a parser that was still in its first pass after a number
of rounds. -/
def assembleTokens (cfg : ParserConfig) (turns : Nat) (tokens : List Token) :
    Except Thrown (Option Assembly) := do
  match ← Parser.parse cfg turns tokens with
  | .yield _ => return none
  | .done p =>
    if p.errors.count = 0 then
      return some {
        textBuffer := ← CodeGenerator.generateMachineCode p.intermediateCode
        dataBuffer := p.dataBuffer
        symbolTable := p.symbolTable }
    else throw .runtimeError

def assemble (cfg : ParserConfig) (floatText : String → Except Thrown String) (turns : Nat)
    (source : List (List Char)) : Except Thrown (Option Assembly) := do
  assembleTokens cfg turns (← Lexer.getTokenList floatText source)

/-- `source` is accepted, with the result `a`. -/
def Assembles (cfg : ParserConfig) (floatText : String → Except Thrown String)
    (source : List (List Char)) (a : Assembly) : Prop :=
  ∃ turns, assemble cfg floatText turns source = .ok (some a)

/-- The same program, with other names for the labels in `names`. -/
structure Assembly.Relabeled (names : Set String) (ρ : String → String) (a b : Assembly) :
    Prop where
  textBuffer : b.textBuffer = a.textBuffer
  dataBuffer : b.dataBuffer = a.dataBuffer
  symbols : ∀ n ∈ names, b.symbolTable (ρ n) = a.symbolTable n

variable {cfg : ParserConfig} {floatText : String → Except Thrown String} {names : Set String}
  {ρ : String → String} {source source' : List (List Char)} {a b : Assembly}

namespace CodeGenerator

theorem machineCode_label (u : ICUnit) (label : String) :
    machineCode { u with label } = machineCode u := rfl

theorem generateMachineCode_relabeled {code code' : List (ICUnit × Bool)}
    (h : List.Forall₂ (ICUnit.Relabeled names ρ) code code') :
    generateMachineCode code' = generateMachineCode code := by
  unfold generateMachineCode
  induction h with
  | nil => rfl
  | cons hu _ ih =>
    rw [List.mapM_cons, List.mapM_cons, ih, hu.unit]
    rfl

end CodeGenerator

/-- Two lists of tokens that differ in the names of their labels. -/
theorem assembleTokens_relabeled (hρ : Relabeling names ρ) {tokens tokens' : List Token}
    (htokens : List.Forall₂ (Token.Relabeled names ρ) tokens tokens') (turns : Nat) :
    Loop.Both (Option.Rel (Assembly.Relabeled names ρ)) (assembleTokens cfg turns tokens)
      (assembleTokens cfg turns tokens') := by
  have hparse : Loop.Lockstep (Parser.Relabeled names ρ) (Parser.Relabeled names ρ)
      (Parser.parse cfg turns tokens) (Parser.parse cfg turns tokens') :=
    Parser.parse_relabeled hρ htokens turns
  unfold assembleTokens
  revert hparse
  generalize Parser.parse cfg turns tokens = x
  generalize Parser.parse cfg turns tokens' = y
  intro hparse
  match x, y, hparse with
  | .error _, .error _, _ => trivial
  | .ok (.yield p), .ok (.yield q), _ => exact Option.Rel.none
  | .ok (.done p), .ok (.done q), h =>
    have h : Parser.Relabeled names ρ p q := h
    simp only [Loop.bind_ok]
    rw [h.count]
    refine .ite (fun _ => ?_) fun _ => trivial
    refine .bind_eq (CodeGenerator.generateMachineCode_relabeled h.code) fun code => ?_
    exact Option.Rel.some ⟨rfl, h.dataBuffer, h.symbols⟩

theorem assemble_relabeled (hρ : Relabeling names ρ)
    (htokens : Loop.Both (List.Forall₂ (Token.Relabeled names ρ))
      (Lexer.getTokenList floatText source) (Lexer.getTokenList floatText source')) (turns : Nat) :
    Loop.Both (Option.Rel (Assembly.Relabeled names ρ)) (assemble cfg floatText turns source)
      (assemble cfg floatText turns source') :=
  htokens.bind fun _ _ htokens => assembleTokens_relabeled hρ htokens turns

/-- More rounds do not change a result. -/
theorem assembleTokens_settled {tokens : List Token} {m n : Nat} (hmn : m ≤ n)
    (h : assembleTokens cfg m tokens ≠ .ok none) :
    assembleTokens cfg n tokens = assembleTokens cfg m tokens := by
  have hrun : ∀ p, Parser.firstPass cfg m (.initial tokens) ≠ .ok (.yield p) := by
    intro p hp
    apply h
    rw [assembleTokens, Parser.parse, hp]
    rfl
  have hsettled : Parser.firstPass cfg n (.initial tokens) = Parser.firstPass cfg m (.initial tokens) :=
    Loop.run_settled hmn hrun
  rw [assembleTokens, assembleTokens, Parser.parse, Parser.parse, hsettled]

theorem assemble_settled {m n : Nat} (hmn : m ≤ n)
    (h : assemble cfg floatText m source ≠ .ok none) :
    assemble cfg floatText n source = assemble cfg floatText m source := by
  unfold assemble at h ⊢
  cases htokens : Lexer.getTokenList floatText source with
  | error e => rfl
  | ok tokens =>
    rw [htokens] at h
    exact assembleTokens_settled hmn h

/-- A source has at most one result. -/
theorem Assembles.unique (ha : Assembles cfg floatText source a)
    (hb : Assembles cfg floatText source b) : a = b := by
  obtain ⟨m, hm⟩ := ha
  obtain ⟨n, hn⟩ := hb
  have hm' := assemble_settled (Nat.le_max_left m n) (by rw [hm]; exact nofun)
  have hn' := assemble_settled (Nat.le_max_right m n) (by rw [hn]; exact nofun)
  rw [hm, hn', hn] at hm'
  exact (Option.some.inj (Except.ok.inj hm')).symm

theorem Assembles.relabeled (hρ : Relabeling names ρ)
    (htokens : Loop.Both (List.Forall₂ (Token.Relabeled names ρ))
      (Lexer.getTokenList floatText source) (Lexer.getTokenList floatText source')) :
    (∀ a, Assembles cfg floatText source a →
      ∃ b, Assembles cfg floatText source' b ∧ a.Relabeled names ρ b) ∧
    ∀ b, Assembles cfg floatText source' b →
      ∃ a, Assembles cfg floatText source a ∧ a.Relabeled names ρ b := by
  constructor
  · rintro a ⟨turns, ha⟩
    obtain ⟨o, hb, hrel⟩ := (assemble_relabeled hρ htokens turns).ok_left ha
    cases hrel with
    | some hab => exact ⟨_, ⟨turns, hb⟩, hab⟩
  · rintro b ⟨turns, hb⟩
    obtain ⟨o, ha, hrel⟩ := (assemble_relabeled hρ htokens turns).ok_right hb
    cases hrel with
    | some hab => exact ⟨_, ⟨turns, ha⟩, hab⟩

end RiscvSim
