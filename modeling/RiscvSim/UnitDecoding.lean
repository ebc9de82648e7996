import RiscvSim.AssemblyRun

/-! The words of accepted programs decode to what their units spell. -/

namespace RiscvSim

open InstructionSet CodeGenerator

namespace ICUnit

/-- The mnemonics of the instructions. -/
def integerMnemonics : List String :=
  RegisterOp.all.map RegisterOp.mnemonic ++
    [QuotientOp.div, .divu, .rem, .remu].map QuotientOp.mnemonic ++
    [ImmediateOp.addi, .xori, .ori, .andi, .slti, .sltiu].map ImmediateOp.mnemonic ++
    [ShiftOp.slli, .srli, .srai].map ShiftOp.mnemonic ++
    [UpperOp.lui, .auipc].map UpperOp.mnemonic ++
    [LoadOp.lb, .lh, .lw, .ld, .lbu, .lhu, .lwu].map LoadOp.mnemonic ++
    [StoreOp.sb, .sh, .sw, .sd].map StoreOp.mnemonic ++
    [BranchOp.beq, .bne, .blt, .bge, .bltu, .bgeu].map BranchOp.mnemonic ++ ["jal", "jalr"]

end ICUnit

/-- The operands of a mnemonic, whichever of its syntaxes is used. -/
def HasLayout (m : String) (l : Layout) : Prop := ∀ s ∈ syntaxes m, ∀ l' ∈ layout m s, l' = l

instance (m : String) (l : Layout) : Decidable (HasLayout m l) :=
  inferInstanceAs (Decidable (∀ s ∈ syntaxes m, ∀ l' ∈ layout m s, l' = l))

theorem RegisterOp.layout (op : RegisterOp) :
    HasLayout op.mnemonic { rd := some .gpr, rs1 := some .gpr, rs2 := some .gpr } := by
  cases op <;> decide

theorem QuotientOp.layout (op : QuotientOp) :
    HasLayout op.mnemonic { rd := some .gpr, rs1 := some .gpr, rs2 := some .gpr } := by
  cases op <;> decide

theorem ImmediateOp.layout (op : ImmediateOp) :
    HasLayout op.mnemonic { rd := some .gpr, rs1 := some .gpr, imm := some (-2048, 2047) } := by
  cases op <;> decide

theorem ShiftOp.layout (op : ShiftOp) :
    HasLayout op.mnemonic { rd := some .gpr, rs1 := some .gpr, imm := some (0, 31) } := by
  cases op <;> decide

theorem UpperOp.layout (op : UpperOp) :
    HasLayout op.mnemonic { rd := some .gpr, imm := some (-2147483648, 2147483647) } := by
  cases op <;> decide

theorem LoadOp.layout (op : LoadOp) :
    HasLayout op.mnemonic { rd := some .gpr, rs1 := some .gpr, imm := some (-2048, 2047) } := by
  cases op <;> decide

theorem StoreOp.layout (op : StoreOp) :
    HasLayout op.mnemonic { rs1 := some .gpr, rs2 := some .gpr, imm := some (-2048, 2047) } := by
  cases op <;> decide

theorem BranchOp.layout (op : BranchOp) :
    HasLayout op.mnemonic { rs1 := some .gpr, rs2 := some .gpr, imm := some (-4096, 4095) } := by
  cases op <;> decide

theorem jal_layout : HasLayout "jal" { rd := some .gpr, imm := some (-1048576, 1048575) } := by
  decide

theorem jalr_layout :
    HasLayout "jalr" { rd := some .gpr, rs1 := some .gpr, imm := some (-2048, 2047) } := by
  decide

namespace ICUnit

variable {u : ICUnit} {m : String} {l : Layout} {w : Instr}

theorem Good.laid (h : u.Good) (hop : u.opcode = m) (hlayout : HasLayout m l) :
    l.Registers u ∧ l.Immediate u := by
  obtain ⟨s, hs, l', hl', hregisters, himm⟩ := h
  obtain rfl := hlayout s (hop ▸ hs) l' (hop ▸ hl')
  exact ⟨hregisters, himm⟩

/-- A unit of an accepted program with one of the mnemonics spells an instruction. -/
theorem Good.spells (h : u.Good) (hm : u.opcode ∈ integerMnemonics) : ∃ i, u.Spells i := by
  simp only [integerMnemonics, List.mem_append, List.mem_map] at hm
  rcases hm with (((((((⟨op, -, hop⟩ | ⟨op, -, hop⟩) | ⟨op, -, hop⟩) | ⟨op, -, hop⟩) | ⟨op, -, hop⟩) |
    ⟨op, -, hop⟩) | ⟨op, -, hop⟩) | ⟨op, -, hop⟩) | hop
  · obtain ⟨⟨⟨rd, hrd⟩, ⟨rs1, hrs1⟩, ⟨rs2, hrs2⟩, -⟩, -⟩ := h.laid hop.symm op.layout
    exact ⟨_, .register op hop.symm hrd hrs1 hrs2⟩
  · obtain ⟨⟨⟨rd, hrd⟩, ⟨rs1, hrs1⟩, ⟨rs2, hrs2⟩, -⟩, -⟩ := h.laid hop.symm op.layout
    exact ⟨_, .divide op hop.symm hrd hrs1 hrs2⟩
  · obtain ⟨⟨⟨rd, hrd⟩, ⟨rs1, hrs1⟩, -⟩, n, himm, hlow, hhigh⟩ := h.laid hop.symm op.layout
    exact ⟨_, .immediate op hop.symm hrd hrs1 himm hlow hhigh⟩
  · obtain ⟨⟨⟨rd, hrd⟩, ⟨rs1, hrs1⟩, -⟩, n, himm, hlow, hhigh⟩ := h.laid hop.symm op.layout
    exact ⟨_, .shift op hop.symm hrd hrs1 himm hlow (Int.le_trans hhigh (by decide))⟩
  · obtain ⟨⟨⟨rd, hrd⟩, -⟩, n, himm, hlow, hhigh⟩ := h.laid hop.symm op.layout
    exact ⟨_, .upper op hop.symm hrd himm hlow hhigh⟩
  · obtain ⟨⟨⟨rd, hrd⟩, ⟨rs1, hrs1⟩, -⟩, n, himm, hlow, hhigh⟩ := h.laid hop.symm op.layout
    exact ⟨_, .load op hop.symm hrd hrs1 himm hlow hhigh⟩
  · obtain ⟨⟨-, ⟨rs1, hrs1⟩, ⟨rs2, hrs2⟩, -⟩, n, himm, hlow, hhigh⟩ := h.laid hop.symm op.layout
    exact ⟨_, .store op hop.symm hrs2 hrs1 himm hlow hhigh⟩
  · obtain ⟨⟨-, ⟨rs1, hrs1⟩, ⟨rs2, hrs2⟩, -⟩, n, himm, hlow, hhigh⟩ := h.laid hop.symm op.layout
    exact ⟨_, .branch op hop.symm hrs1 hrs2 himm hlow hhigh⟩
  · simp only [List.mem_cons, List.not_mem_nil, or_false] at hop
    rcases hop with hop | hop
    · obtain ⟨⟨⟨rd, hrd⟩, -⟩, n, himm, hlow, hhigh⟩ := h.laid hop jal_layout
      exact ⟨_, .jal hop hrd himm hlow hhigh⟩
    · obtain ⟨⟨⟨rd, hrd⟩, ⟨rs1, hrs1⟩, -⟩, n, himm, hlow, hhigh⟩ := h.laid hop jalr_layout
      exact ⟨_, .jalr hop hrd hrs1 himm hlow hhigh⟩

end ICUnit

/-- The opcodes of the instructions. -/
def Instruction.opcodes : List (BitVec 7) :=
  [0b0110011, 0b0010011, 0b0110111, 0b0010111, 0b0000011, 0b0100011, 0b1100011, 0b1101111, 0b1100111]

theorem Instruction.opcode_mem (i : Instruction) : i.word.opcode ∈ opcodes := by
  cases i with
  | upper op rd imm => cases op <;> simp [opcodes, word, UpperOp.opcode]
  | _ => simp [opcodes, word, ShiftOp.word, LoadOp.word, StoreOp.word]

/-- No other mnemonic has one of these opcodes. -/
theorem encodings_integer (f : Format) : ∀ p ∈ f.encodings, p.2.opcode ∈ Instruction.opcodes →
    p.1 ∈ ICUnit.integerMnemonics := by
  cases f <;> decide +kernel

namespace ICUnit

variable {u : ICUnit} {w : Instr} {i : Instruction}

theorem mem_of_decode (hcode : machineCode u = .ok w) (hdecode : Instruction.decode w = some i) :
    u.opcode ∈ integerMnemonics := by
  obtain ⟨f, hformat⟩ := formatOf_of_machineCode hcode
  obtain ⟨e, he, hopcode⟩ := machineCode_opcode f hformat w hcode
  rw [← Instruction.decode_eq_some_iff.mp hdecode] at hopcode
  refine encodings_integer f (u.opcode, e) ?_ (hopcode ▸ i.opcode_mem)
  unfold mapAt at he
  split at he
  · rename_i hlookup
    obtain rfl := Except.ok.inj he
    exact Parser.mem_of_lookup hlookup
  · cases he

theorem Spells.decode (h : u.Spells i) (hcode : machineCode u = .ok w) :
    Instruction.decode w = some i :=
  Instruction.decode_eq_some_iff.mpr (Except.ok.inj (h.word.symm.trans hcode))

/-- The word of a unit decodes to what the unit spells. -/
theorem Good.decode_iff (h : u.Good) (hcode : machineCode u = .ok w) :
    Instruction.decode w = some i ↔ u.Spells i := by
  constructor
  · intro hdecode
    obtain ⟨j, hj⟩ := h.spells (mem_of_decode hcode hdecode)
    rw [hj.decode hcode] at hdecode
    exact Option.some.inj hdecode ▸ hj
  · exact fun hi => hi.decode hcode

end ICUnit

namespace Parser

variable {cfg : ParserConfig} {floatText : String → Except Thrown String}
  {source : List (List Char)} {tokens : List Token} {q : Parser} {text : List Instr} {k : Nat}
  {u : ICUnit} {b : Bool}

/-- Each word of an accepted program decodes to the instruction that its unit spells, and the words
of the other mnemonics decode to none. -/
theorem units_decode (htokens : Lexer.getTokenList floatText source = .ok tokens)
    (haccepts : Accepts cfg tokens q) (htext : generateMachineCode q.intermediateCode = .ok text)
    (hu : q.intermediateCode[k]? = some (u, b)) :
    ∃ w, text[k]? = some w ∧ (∀ i, Instruction.decode w = some i ↔ u.Spells i) ∧
      ((∃ i, Instruction.decode w = some i) ↔ u.opcode ∈ ICUnit.integerMnemonics) := by
  have hgood := haccepts.good (Lexer.getTokenList_lexed htokens) (List.mem_of_getElem? hu)
  obtain ⟨w, hw, hcode⟩ := (Loop.mapM_eq_ok htext).2 k _ hu
  have hcode : machineCode u = .ok w := hcode
  refine ⟨w, hw, fun i => hgood.decode_iff hcode, ?_, fun hm => ?_⟩
  · rintro ⟨i, hi⟩
    exact ICUnit.mem_of_decode hcode hi
  · obtain ⟨i, hi⟩ := hgood.spells hm
    exact ⟨i, hi.decode hcode⟩

theorem units_decode_branch : ∃ q w, Accepts .default Vm.selfBranchTokens q ∧
    generateMachineCode q.intermediateCode = .ok [w] ∧
    Instruction.decode w = some (.branch .bne 0 0 0) := by
  have htokens : Lexer.getTokenList noFloat Vm.selfBranchSource = .ok Vm.selfBranchTokens := by
    decide +kernel
  obtain ⟨q, haccepts, hcode, -⟩ := Vm.selfBranch_accepts
  have htext : generateMachineCode q.intermediateCode = .ok [0x00001063] := by
    rw [hcode]
    decide +kernel
  obtain ⟨w, hw, hdecode, -⟩ := units_decode htokens haccepts htext
    (show q.intermediateCode[0]? = some (Vm.selfBranchUnit, true) by rw [hcode]; rfl)
  obtain rfl := Option.some.inj hw
  refine ⟨q, _, haccepts, htext, (hdecode _).mpr ?_⟩
  exact .branch (n := 0) .bne rfl rfl rfl rfl (by decide) (by decide)

end Parser

end RiscvSim
