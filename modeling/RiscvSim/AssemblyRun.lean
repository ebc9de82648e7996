import RiscvSim.AlignedRuns
import RiscvSim.HartSteps
import RiscvSim.MemoryImage
import RiscvSim.SecondPass
import RiscvSim.Spelling

/-! Programs run as they are written: one statement after the other, and from a branch or a jump to
its label. -/

namespace RiscvSim

open Simulation (Runs Simulates)

open CodeGenerator InstructionSet

namespace Memory

variable {m m' : Memory} {a : Word}

theorem load_congr {w n : Nat}
    (h : ∀ j < n, m'.byte (a + BitVec.ofNat 64 j) = m.byte (a + BitVec.ofNat 64 j)) :
    m'.load a w n = m.load a w n := by
  induction n with
  | zero => rfl
  | succ n ih =>
    rw [load, load, ih fun j hj => h j (Nat.lt_succ_of_lt hj), h n (Nat.lt_succ_self n)]

/-- A store above a word leaves it as it is. -/
theorem readWord_store {address : Word} {w n : Nat} (value : BitVec w) {x : Instr}
    (hword : m.readWord a = .ok x) (hrange : m.InRange address n)
    (hbelow : a.toNat + 4 ≤ address.toNat) : (m.store address value n).readWord a = .ok x := by
  obtain ⟨hin, rfl⟩ := readWord_eq_ok_iff.mp hword
  have hsize := m.size.isLt
  have hfits : a.toNat + 4 ≤ m.size.toNat := hin
  refine readWord_eq_ok_iff.mpr ⟨hin, load_congr fun j hj => ?_⟩
  refine (image_store value hrange).outside _ fun p hp hcovers => ?_
  obtain rfl := List.mem_singleton.mp hp
  have hlow := hcovers.1
  rw [add_ofNat_toNat (by omega)] at hlow
  omega

end Memory

/-- An instruction that does not store below `bound`. -/
def Instruction.Spares (h : Hart) (bound : Nat) : Instruction → Prop
  | .store _ _ rs1 imm => bound ≤ (h.address rs1 imm).toNat
  | _ => True

namespace Hart

variable {h h' : Hart} {text : List Instr} {i : Instruction}

/-- The words of a text lie in the memory from address zero on. -/
def Holds (h : Hart) (text : List Instr) : Prop :=
  ∀ (k : Nat) (w : Instr), text[k]? = some w → h.memory.readWord (Parser.textAddress k) = .ok w

theorem Holds.congr (hheld : h.Holds text) (hmemory : h'.memory = h.memory) : h'.Holds text := by
  intro k w hk
  rw [hmemory]
  exact hheld k w hk

theorem jump_memory {target : Word} (hjump : h.jump target = some h') : h'.memory = h.memory := by
  obtain ⟨-, rfl⟩ := jump_eq_some_iff.mp hjump
  rfl

/-- A text that an instruction spares stays where it is. -/
theorem Holds.exec (hheld : h.Holds text) (hsmall : 4 * text.length < 2 ^ 32)
    (hspares : i.Spares h (4 * text.length)) (hexec : h.exec i = some h') : h'.Holds text := by
  cases i with
  | register op rd rs1 rs2 =>
    obtain rfl := Option.some.inj hexec
    exact hheld
  | divide op rd rs1 rs2 =>
    obtain rfl := Option.some.inj hexec
    exact hheld
  | immediate op rd rs1 imm =>
    obtain rfl := Option.some.inj hexec
    exact hheld
  | shift op rd rs1 shamt =>
    obtain rfl := Option.some.inj hexec
    exact hheld
  | upper op rd imm =>
    obtain rfl := Option.some.inj hexec
    exact hheld
  | load op rd rs1 imm =>
    obtain ⟨-, rfl⟩ := exec_load_eq_some_iff.mp hexec
    exact hheld
  | store op rs2 rs1 imm =>
    obtain ⟨hrange, rfl⟩ := exec_store_eq_some_iff.mp hexec
    intro k w hk
    have hlt := (List.getElem?_eq_some_iff.mp hk).1
    have hbound : 4 * text.length ≤ (h.address rs1 imm).toNat := hspares
    refine Memory.readWord_store _ (hheld k w hk) hrange ?_
    rw [Parser.textAddress, BitVec.toNat_setWidth, BitVec.toNat_ofNat]
    omega
  | branch op rs1 rs2 half =>
    change (if op.taken (h.x rs1) (h.x rs2) then _ else _) = some h' at hexec
    split at hexec
    · exact hheld.congr (jump_memory hexec)
    · obtain rfl := Option.some.inj hexec
      exact hheld
  | jal rd half => exact hheld.congr (jump_memory hexec :)
  | jalr rd rs1 imm => exact hheld.congr (jump_memory hexec :)

end Hart

/-- The range of the offset of a unit in a format that has one. -/
theorem ICUnit.Good.range {u : ICUnit} {f : Format} {low high n : Int} (h : u.Good)
    (hm : u.opcode ∈ f.mnemonics) (hfits : ∀ l : Layout, f.fits l = true → l.imm = some (low, high))
    (himm : u.imm = toString n) : low ≤ n ∧ n ≤ high := by
  obtain ⟨s, hs, l, hl, -, himm'⟩ := h
  have hlayout := hfits l ((format_table f _ hm).2 s hs l hl)
  rw [Layout.Immediate, hlayout] at himm'
  obtain ⟨n', hn', hlow, hhigh⟩ := himm'
  obtain rfl := Decimal.toString_injective (himm.symm.trans hn')
  exact ⟨hlow, hhigh⟩

theorem BranchOp.mem (op : BranchOp) : op.mnemonic ∈ Format.mnemonics .B := by
  cases op <;> decide

/-- An offset that is even and in reach is that of its halfwords. -/
theorem halfwords_offset {n : Int} {m : Nat} (heven : 2 ∣ n) (hlow : -2 ^ (m + 1) ≤ n)
    (hhigh : n < 2 ^ (m + 1)) :
    (BitVec.ofInt (m + 1) (n / 2) ++ 0#1).signExtend 64 = BitVec.ofInt 64 n := by
  have hpow : (2 : Int) ^ (m + 1) = 2 ^ m * 2 := Int.pow_succ 2 m
  have hhalf : (BitVec.ofInt (m + 1) (n / 2)).toInt = n / 2 := by
    rw [BitVec.toInt_ofInt]
    apply Int.bmod_eq_of_le <;> rw [Nat.pow_succ] <;> push_cast <;> omega
  rw [signExtend_half, hhalf, Int.mul_ediv_cancel' heven]

theorem textAddress_toNat {k : Nat} (hk : 4 * k < 2 ^ 32) : (Parser.textAddress k).toNat = 4 * k := by
  rw [Parser.textAddress, BitVec.toNat_setWidth, BitVec.toNat_ofNat]
  omega

/-- The distance of two instructions. -/
theorem distance_even (k k' : Nat) :
    2 ∣ (Parser.textAddress k' - Parser.textAddress k).toInt := by
  have hk := Parser.textAddress_mod k
  have hk' := Parser.textAddress_mod k'
  rw [BitVec.toInt_eq_toNat_cond, BitVec.toNat_sub]
  split <;> omega

namespace Hart

variable {h h' : Hart} {k k' : Nat} {n : Int} {text : List Instr} {i : Instruction} {size : Word}

/-- A branch by the distance of two instructions leads from the one to the other. -/
theorem exec_branch_distance (op : BranchOp) (rs1 rs2 : RegIndex) (hpc : h.pc = Parser.textAddress k)
    (hn : BitVec.ofInt 64 n = Parser.textAddress k' - Parser.textAddress k) (heven : 2 ∣ n)
    (hlow : -4096 ≤ n) (hhigh : n ≤ 4095) :
    h.exec (.branch op rs1 rs2 (BitVec.ofInt 12 (n / 2))) = some
      { h with pc := if op.taken (h.x rs1) (h.x rs2) then Parser.textAddress k' else h.pc + 4 } := by
  have hoffset := halfwords_offset heven (m := 11) (by omega) (by omega)
  have htarget : h.pc + (BitVec.ofInt 12 (n / 2) ++ 0#1).signExtend 64 = Parser.textAddress k' := by
    rw [hoffset, hn, hpc]
    grind
  simp only [Hart.exec, htarget]
  by_cases htaken : op.taken (h.x rs1) (h.x rs2) = true
  · rw [if_pos htaken, if_pos htaken, Hart.jump, if_pos (Parser.textAddress_mod k')]
  · rw [if_neg htaken, if_neg htaken, Hart.next]

theorem exec_jal_distance (rd : RegIndex) (hpc : h.pc = Parser.textAddress k)
    (hn : BitVec.ofInt 64 n = Parser.textAddress k' - Parser.textAddress k) (heven : 2 ∣ n)
    (hlow : -1048576 ≤ n) (hhigh : n ≤ 1048575) :
    h.exec (.jal rd (BitVec.ofInt 20 (n / 2))) =
      some { h.set rd (h.pc + 4) with pc := Parser.textAddress k' } := by
  have hoffset := halfwords_offset heven (m := 19) (by omega) (by omega)
  have htarget : h.pc + (BitVec.ofInt 20 (n / 2) ++ 0#1).signExtend 64 = Parser.textAddress k' := by
    rw [hoffset, hn, hpc]
    grind
  simp only [Hart.exec, htarget]
  rw [Hart.jump, if_pos (Parser.textAddress_mod k')]

/-- A hart that holds a text executes the instruction that its program counter points to. -/
theorem Holds.follows (hheld : h.Holds text) (hsmall : 4 * text.length < 2 ^ 32)
    (hsize : size.toNat = 4 * text.length) (hpc : h.pc = Parser.textAddress k)
    (hword : text[k]? = some i.word) (hspares : i.Spares h (4 * text.length))
    (hconforms : i.Conforms h) (hexec : h.exec i = some h') :
    Hart.Follows size h h' ∧ h'.Holds text := by
  have hlt := (List.getElem?_eq_some_iff.mp hword).1
  obtain ⟨hrange, hload⟩ := Memory.readWord_eq_ok_iff.mp (hheld k _ hword)
  have hfetch : h.fetch size = some i := by
    refine Hart.fetch_eq_some_iff.mpr ⟨?_, hpc ▸ hrange, by rw [hpc]; exact hload.symm⟩
    rw [hpc, BitVec.lt_def, hsize, textAddress_toNat (by omega)]
    omega
  exact ⟨⟨i, hfetch, hconforms, hexec⟩, hheld.exec hsmall hspares hexec⟩

end Hart

namespace Parser

variable {cfg : ParserConfig} {floatText : String → Except Thrown String}
  {source : List (List Char)} {tokens : List Token} {q : Parser} {label : String} {k k' : Nat}
  {u : ICUnit} {b : Bool} {text : List Instr} {size : Word}

/-- A text section has the label in front of instruction `k`. -/
def DefinesText (cfg : ParserConfig) (tokens : List Token) (label : String) (k : Nat) : Prop :=
  ∃ v, VisitsText cfg tokens v ∧ v.currentToken.type = .LABEL ∧ v.currentToken.value = label ∧
    v.intermediateCode.length = k

/-- Without an error the symbol of a label is the address where it stands. -/
theorem DefinesText.symbol (hlexed : LexedTokens tokens) (haccepts : Accepts cfg tokens q)
    (h : DefinesText cfg tokens label k) :
    ∃ symbol, q.symbolTable label = some symbol ∧ symbol.address = textAddress k := by
  obtain ⟨v, hvisit, htype, rfl, rfl⟩ := h
  obtain ⟨p, r, haccepted⟩ := accepted_of_accepts hlexed haccepts
  obtain ⟨hv, hin⟩ := haccepted.visit hvisit
  obtain ⟨w, hturn, hw, -, herrors, herrors'⟩ := haccepted.turn hlexed hv hin
  obtain ⟨hindex₀, -, hcode₀⟩ := haccepted.start
  have hindex : v.instructionIndex = v.intermediateCode.length :=
    ((textInvariant_code p.restart).visit (haccepted.lexed hlexed) hv
      ⟨by rw [hindex₀, hcode₀]; rfl, haccepted.start_code⟩).1
  rw [textTurn, htype] at hturn
  obtain rfl := Except.ok.inj hturn
  cases hsymbol : v.symbolTable v.currentToken.value with
  | some symbol =>
    simp only [defineTextLabel, hsymbol] at herrors'
    have hcount := fail_count (p := v) v.currentToken
      ("Label redefinition: already defined at line " ++ toString symbol.lineNumber)
      .LabelRedefinitionError "Label redefinition"
      ("Label already defined at line " ++ toString symbol.lineNumber)
    exact absurd (herrors' ▸ hcount) (Nat.not_lt_zero _)
  | none =>
    rw [(haccepted.code hlexed).2]
    refine ⟨⟨textAddress v.instructionIndex, v.currentToken.lineNumber, false⟩, ?_, by rw [hindex]⟩
    refine (textInvariant_symbol p.restart _ _).final (haccepted.lexed hlexed) hw haccepted.second ?_
    simp only [defineTextLabel, hsymbol, define, nextToken, if_true]

/-- The immediate of a unit with a label is the distance to it. -/
theorem offset_of_label (hlexed : LexedTokens tokens) (haccepts : Accepts cfg tokens q)
    (hu : q.intermediateCode[k]? = some (u, b)) (hlabel : u.label ≠ "")
    (hdefines : DefinesText cfg tokens u.label k') :
    u.Good ∧ u.imm = toString (textAddress k' - textAddress k).toInt := by
  obtain ⟨p, r, haccepted⟩ := accepted_of_accepts hlexed haccepts
  obtain ⟨symbol, hsymbol, haddress⟩ := hdefines.symbol hlexed haccepts
  rcases (haccepted.code hlexed).1.units k u b hu with hunit | hback
  · cases hunit with
    | plain h => exact absurd h.label hlabel
    | linked h hgood hresolved =>
      obtain ⟨symbol', hsymbol', -, himm⟩ := hresolved
      obtain rfl := Option.some.inj (hsymbol.symm.trans hsymbol')
      exact ⟨hgood, by rw [himm, haddress]⟩
  · cases hback

/-- A statement of the program on a hart. A branch or a jump with a label goes where the label
stands; the others execute the instruction that they spell, which does not store into the text. -/
inductive AsmStep (cfg : ParserConfig) (tokens : List Token) (q : Parser) : Hart → Hart → Prop
  | plain {h h' : Hart} {k : Nat} {u : ICUnit} {b : Bool} {i : Instruction}
      (hpc : h.pc = textAddress k) (hu : q.intermediateCode[k]? = some (u, b)) (hlabel : u.label = "")
      (hspells : u.Spells i) (hspares : i.Spares h (4 * q.intermediateCode.length))
      (hconforms : i.Conforms h) (hexec : h.exec i = some h') : AsmStep cfg tokens q h h'
  | branch {h : Hart} {k k' : Nat} {u : ICUnit} {b : Bool} {rs1 rs2 : RegIndex} (op : BranchOp)
      (hpc : h.pc = textAddress k) (hu : q.intermediateCode[k]? = some (u, b)) (hlabel : u.label ≠ "")
      (hop : u.opcode = op.mnemonic) (hrs1 : u.rs1 = gprName rs1) (hrs2 : u.rs2 = gprName rs2)
      (hdefines : DefinesText cfg tokens u.label k') :
      AsmStep cfg tokens q h
        { h with pc := if op.taken (h.x rs1) (h.x rs2) then textAddress k' else h.pc + 4 }
  | jal {h : Hart} {k k' : Nat} {u : ICUnit} {b : Bool} {rd : RegIndex}
      (hpc : h.pc = textAddress k) (hu : q.intermediateCode[k]? = some (u, b)) (hlabel : u.label ≠ "")
      (hop : u.opcode = "jal") (hrd : u.rd = gprName rd)
      (hdefines : DefinesText cfg tokens u.label k') :
      AsmStep cfg tokens q h { h.set rd (h.pc + 4) with pc := textAddress k' }

/-- The unit of an instruction, and the instruction that leads to the same hart. -/
theorem AsmStep.instruction {h h' : Hart} (hlexed : LexedTokens tokens)
    (haccepts : Accepts cfg tokens q) (hstep : AsmStep cfg tokens q h h') :
    ∃ k u b i, h.pc = textAddress k ∧ q.intermediateCode[k]? = some (u, b) ∧ u.Spells i ∧
      i.Spares h (4 * q.intermediateCode.length) ∧ i.Conforms h ∧ h.exec i = some h' := by
  cases hstep with
  | plain hpc hu hlabel hspells hspares hconforms hexec =>
    exact ⟨_, _, _, _, hpc, hu, hspells, hspares, hconforms, hexec⟩
  | branch op hpc hu hlabel hop hrs1 hrs2 hdefines =>
    rename_i k k' u b rs1 rs2
    obtain ⟨hgood, himm⟩ := offset_of_label hlexed haccepts hu hlabel hdefines
    have hlayout : ∀ l : Layout, Format.fits .B l = true → l.imm = some (-4096, 4095) :=
      fun l hl => by simp [Format.fits] at hl; exact hl.2
    obtain ⟨hlow, hhigh⟩ := hgood.range (by rw [hop]; exact op.mem) hlayout himm
    exact ⟨k, u, b, _, hpc, hu, .branch op hop hrs1 hrs2 himm hlow hhigh, trivial, trivial,
      Hart.exec_branch_distance op rs1 rs2 hpc (BitVec.ofInt_toInt ..) (distance_even k k') hlow hhigh⟩
  | jal hpc hu hlabel hop hrd hdefines =>
    rename_i k k' u b rd
    obtain ⟨hgood, himm⟩ := offset_of_label hlexed haccepts hu hlabel hdefines
    have hlayout : ∀ l : Layout, Format.fits .J l = true → l.imm = some (-1048576, 1048575) :=
      fun l hl => by simp [Format.fits] at hl; exact hl.2
    obtain ⟨hlow, hhigh⟩ := hgood.range (by rw [hop]; decide) hlayout himm
    exact ⟨k, u, b, _, hpc, hu, .jal hop hrd himm hlow hhigh, trivial, trivial,
      Hart.exec_jal_distance rd hpc (BitVec.ofInt_toInt ..) (distance_even k k') hlow hhigh⟩

/-- The hart of the words follows the statements. -/
theorem simulates_asm (hlexed : LexedTokens tokens) (haccepts : Accepts cfg tokens q)
    (htext : generateMachineCode q.intermediateCode = .ok text) (hsmall : 4 * text.length < 2 ^ 32)
    (hsize : size.toNat = 4 * text.length) :
    Simulates (fun h h' => h = h' ∧ h'.Holds text) (AsmStep cfg tokens q) (Hart.Follows size) := by
  rintro h _ h' ⟨rfl, hheld⟩ hstep
  obtain ⟨hlength, hunits⟩ := Loop.mapM_eq_ok htext
  obtain ⟨k, u, b, i, hpc, hu, hspells, hspares, hconforms, hexec⟩ := hstep.instruction hlexed haccepts
  obtain ⟨w, hw, hcode⟩ := hunits k _ hu
  have hcode : machineCode u = .ok w := hcode
  obtain rfl := Except.ok.inj (hspells.word.symm.trans hcode)
  rw [← hlength] at hspares
  obtain ⟨hfollows, hheld'⟩ := hheld.follows hsmall hsize hpc hw hspares hconforms hexec
  exact ⟨h', hfollows, rfl, hheld'⟩

end Parser

namespace Vm

variable {cfg : ParserConfig} {floatText : String → Except Thrown String}
  {source : List (List Char)} {tokens : List Token} {q : Parser} {text : List Instr} {v₀ v : Vm}
  {config : Config} {h' : Hart} {n : Nat} {limit : Word}

/-- The text of a loaded program. -/
theorem loadProgram_text (h : v₀.loadProgram config ⟨text, q.dataBuffer⟩ = .ok v)
    (hfits : AssembledProgram.Fits ⟨text, q.dataBuffer⟩ config) : v.hart.Holds text := by
  intro k w hk
  have hlt := (List.getElem?_eq_some_iff.mp hk).1
  have hsmall : 4 * text.length < 2 ^ 32 := hfits.text
  have haddress : Parser.textAddress k = BitVec.ofNat 64 (4 * k) := by
    apply BitVec.eq_of_toNat_eq
    rw [textAddress_toNat (by omega), BitVec.toNat_ofNat]
    omega
  rw [haddress]
  exact loadProgram_readWord h hfits hk

/-- A branch to itself that is not taken. -/
def selfBranchSource : List (List Char) := ["a: bne x0,x0,a".toList]

def selfBranchTokens : List Token :=
  [⟨.LABEL, "a", 1, 1⟩, ⟨.OPCODE, "bne", 1, 4⟩, ⟨.GP_REGISTER, "x0", 1, 8⟩, ⟨.COMMA, ",", 1, 10⟩,
   ⟨.GP_REGISTER, "x0", 1, 11⟩, ⟨.COMMA, ",", 1, 13⟩, ⟨.LABEL_REF, "a", 1, 14⟩, ⟨.EOF_, "", 1, 15⟩]

/-- The label is the first token that the second pass visits. -/
theorem selfBranch_defines (h : Parser.Accepts .default selfBranchTokens q) (hlexed : LexedTokens selfBranchTokens) :
    Parser.DefinesText .default selfBranchTokens "a" 0 := by
  obtain ⟨p, hp⟩ := Parser.exists_begins h
  obtain ⟨huntouched, hrest⟩ := hp.start hlexed
  have hcurrent : p.currentToken = ⟨.LABEL, "a", 1, 1⟩ := by
    rw [Parser.currentToken, hrest]
    rfl
  have hend : p.notEof = true := by
    rw [Parser.notEof, hcurrent]
    rfl
  have henter : p.entersText = some p := by
    rw [Parser.entersText, Parser.atDirective, hcurrent]
    rfl
  have hin : p.inText = true := by
    rw [Parser.inText, hend, hcurrent]
    rfl
  refine ⟨p, ⟨p, hp, ⟨p, p, .refl _, hend, henter, .refl _⟩, hin⟩, by rw [hcurrent],
    by rw [hcurrent], by rw [huntouched.intermediateCode]; rfl⟩

def selfBranchUnit : ICUnit :=
  { opcode := "bne", lineNumber := 1, rs1 := gprName 0, rs2 := gprName 0, imm := "0", label := "a" }

theorem selfBranch_accepts : ∃ q, Parser.Accepts .default selfBranchTokens q ∧
    q.intermediateCode = [(selfBranchUnit, true)] ∧ q.dataBuffer = [] := by
  obtain ⟨r, hparse, hr⟩ := Loop.exists_of_map (show
    (Parser.parse .default 9 selfBranchTokens).toOption.map (fun r =>
      match r with
      | .done q => some (q.errors.count, q.intermediateCode, q.dataBuffer)
      | .yield _ => none) = some (some (0, [(selfBranchUnit, true)], [])) by decide +kernel)
  cases r with
  | yield p => cases hr
  | done q =>
    obtain ⟨hcount, hcode⟩ := Prod.mk.inj (Option.some.inj hr)
    obtain ⟨hcode, hdata⟩ := Prod.mk.inj hcode
    exact ⟨q, ⟨⟨9, hparse⟩, hcount⟩, hcode, hdata⟩

end Vm

end RiscvSim
