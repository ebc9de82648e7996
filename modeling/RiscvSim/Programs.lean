import RiscvSim.AssemblyRun

/-! Programs as such, without a source: operations and the labels in front of them, the instructions
that they are linked to, and their runs. -/

namespace RiscvSim

open Simulation (Simulates)

/-- An instruction with its operands, or a branch or a jump to a label. -/
inductive Operation where
  | instruction (i : Instruction)
  | branch (op : BranchOp) (rs1 rs2 : RegIndex) (label : String)
  | jal (rd : RegIndex) (label : String)
  deriving DecidableEq, Repr

/-- Labels and an operation behind them; either may be missing. -/
structure Line where
  labels : List String := []
  operation : Option Operation := none
  deriving DecidableEq, Repr

namespace Instruction

def mnemonic : Instruction → String
  | register op _ _ _ => op.mnemonic
  | divide op _ _ _ => op.mnemonic
  | immediate op _ _ _ => op.mnemonic
  | shift op _ _ _ => op.mnemonic
  | upper op _ _ => op.mnemonic
  | load op _ _ _ => op.mnemonic
  | store op _ _ _ => op.mnemonic
  | branch op _ _ _ => op.mnemonic
  | jal _ _ => "jal"
  | jalr _ _ _ => "jalr"

/-- The parser lets only five bits of a shift through, and no odd halfword as an offset of a branch. -/
def writable : Instruction → Bool
  | shift _ _ _ shamt => decide (shamt.toNat ≤ 31)
  | branch _ _ _ half => decide (4 ∣ 2 * half.toInt)
  | _ => true

end Instruction

/-- The bytes from operation `k` to operation `k'`. -/
def distance (k k' : Nat) : Int := 4 * (k' : Int) - 4 * (k : Int)

namespace Operation

def mnemonic : Operation → String
  | instruction i => i.mnemonic
  | branch op _ _ _ => op.mnemonic
  | jal _ _ => "jal"

/-- The label that is referred to. -/
def reference : Operation → Option String
  | instruction _ => none
  | branch _ _ _ label => some label
  | jal _ label => some label

/-- The offsets that its immediate can hold. -/
def reaches (op : Operation) (offset : Int) : Bool :=
  match op with
  | instruction _ => true
  | branch _ _ _ _ => decide (-4096 ≤ offset ∧ offset ≤ 4095)
  | jal _ _ => decide (-1048576 ≤ offset ∧ offset ≤ 1048575)

/-- The instruction with an offset in the place of the label. -/
def resolve (offset : Int) : Operation → Instruction
  | instruction i => i
  | branch op rs1 rs2 _ => .branch op rs1 rs2 (BitVec.ofInt 12 (offset / 2))
  | jal rd _ => .jal rd (BitVec.ofInt 20 (offset / 2))

/-- The assembler takes the mnemonic and the operands. -/
def enabled (mExtension : Bool) (op : Operation) : Bool :=
  (mExtension || !InstructionSet.isValidMExtensionInstruction op.mnemonic) &&
    match op with
    | instruction i => i.writable
    | _ => true

/-- The instruction of operation `k`. -/
def link (mExtension : Bool) (target : String → Option Nat) (k : Nat) (op : Operation) :
    Option Instruction :=
  if op.enabled mExtension then
    match op.reference with
    | none => some (op.resolve 0)
    | some label => (target label).bind fun k' =>
      if op.reaches (distance k k') then some (op.resolve (distance k k')) else none
  else none

variable {mExtension : Bool} {target : String → Option Nat} {k : Nat} {op : Operation}
  {i : Instruction}

theorem link_eq_some_iff : op.link mExtension target k = some i ↔ op.enabled mExtension = true ∧
    (op.reference = none ∧ op.resolve 0 = i ∨ ∃ label k', op.reference = some label ∧
      target label = some k' ∧ op.reaches (distance k k') = true ∧
        op.resolve (distance k k') = i) := by
  unfold link
  by_cases henabled : op.enabled mExtension = true
  · cases hreference : op.reference with
    | none => simp [henabled]
    | some label => simp [henabled, Option.bind_eq_some_iff]
  · simp [henabled]

end Operation

theorem ofInt_distance {k k' : Nat} (hk : 4 * k < 2 ^ 32) (hk' : 4 * k' < 2 ^ 32) :
    BitVec.ofInt 64 (distance k k') = Parser.textAddress k' - Parser.textAddress k := by
  apply BitVec.eq_of_toNat_eq
  rw [BitVec.toNat_ofInt, BitVec.toNat_sub, textAddress_toNat hk, textAddress_toNat hk', distance]
  omega

theorem two_dvd_distance (k k' : Nat) : 2 ∣ distance k k' := by
  unfold distance
  omega

namespace Program

variable {program : List Line}

def operations (program : List Line) : List Operation := program.filterMap Line.operation

/-- The labels, each with the number of the operation behind it; the first operation is number `k`. -/
def labelsFrom : Nat → List Line → List (String × Nat)
  | _, [] => []
  | k, line :: lines =>
    line.labels.map (fun label => (label, k)) ++
      labelsFrom (k + line.operation.toList.length) lines

def labels (program : List Line) : List (String × Nat) := labelsFrom 0 program

def target (program : List Line) (label : String) : Option Nat := (labels program).lookup label

/-- The instructions of a program, if it is right: its labels are distinct, and each that is referred
to is there and in reach. -/
def link (mExtension : Bool) (program : List Line) : Option (List Instruction) :=
  if ((labels program).map Prod.fst).Nodup then
    (operations program).zipIdx.mapM fun entry =>
      entry.1.link mExtension (target program) entry.2
  else none

/-- One operation of a program on a hart. The program does not store into its own text. -/
inductive Step (program : List Line) : Hart → Hart → Prop
  | instruction {h h' : Hart} {k : Nat} {i : Instruction} (hpc : h.pc = Parser.textAddress k)
      (hop : (operations program)[k]? = some (.instruction i))
      (hspares : i.Spares h (4 * (operations program).length)) (hconforms : i.Conforms h)
      (hexec : h.exec i = some h') : Step program h h'
  | branch {h : Hart} {k k' : Nat} {op : BranchOp} {rs1 rs2 : RegIndex} {label : String}
      (hpc : h.pc = Parser.textAddress k)
      (hop : (operations program)[k]? = some (.branch op rs1 rs2 label))
      (htarget : target program label = some k') :
      Step program h
        { h with pc := if op.taken (h.x rs1) (h.x rs2) then Parser.textAddress k' else h.pc + 4 }
  | jal {h : Hart} {k k' : Nat} {rd : RegIndex} {label : String} (hpc : h.pc = Parser.textAddress k)
      (hop : (operations program)[k]? = some (.jal rd label))
      (htarget : target program label = some k') :
      Step program h { h.set rd (h.pc + 4) with pc := Parser.textAddress k' }

variable {mExtension : Bool} {is : List Instruction} {label : String} {k k' : Nat}

theorem operations_cons (line : Line) (lines : List Line) :
    operations (line :: lines) = line.operation.toList ++ operations lines := by
  cases hline : line.operation <;> simp [operations, hline]

/-- A label stands in front of an operation or at the end. -/
theorem labelsFrom_le (k : Nat) (program : List Line) :
    ∀ entry ∈ labelsFrom k program, entry.2 ≤ k + (operations program).length := by
  induction program generalizing k with
  | nil => simp [labelsFrom]
  | cons line lines ih =>
    intro entry hentry
    rw [operations_cons, List.length_append]
    rcases List.mem_append.mp hentry with hentry | hentry
    · obtain ⟨label, -, rfl⟩ := List.mem_map.mp hentry
      simp
    · have hle := ih _ entry hentry
      omega

theorem target_le (h : target program label = some k) : k ≤ (operations program).length := by
  have hle := labelsFrom_le 0 program _ (Parser.mem_of_lookup h)
  simpa using hle

theorem zipIdx_mapM_eq_some_iff {α β : Type} {f : α × Nat → Option β} {l : List α} {r : List β}
    {n : Nat} : (l.zipIdx n).mapM f = some r ↔
      r.length = l.length ∧ ∀ k a, l[k]? = some a → ∃ b, r[k]? = some b ∧ f (a, n + k) = some b := by
  induction l generalizing n r with
  | nil => simp [eq_comm]
  | cons a l ih =>
    rw [List.zipIdx_cons, List.mapM_cons]
    constructor
    · intro h
      obtain ⟨b, hb, h⟩ := Option.bind_eq_some_iff.mp h
      obtain ⟨bs, hbs, h⟩ := Option.bind_eq_some_iff.mp h
      obtain rfl := Option.some.inj h
      obtain ⟨hlength, hget⟩ := ih.mp hbs
      refine ⟨by simp [hlength], fun k c hk => ?_⟩
      cases k with
      | zero =>
        obtain rfl : a = c := by simpa using hk
        exact ⟨b, rfl, hb⟩
      | succ k =>
        obtain ⟨b', hb', hf⟩ := hget k c (by simpa using hk)
        exact ⟨b', by simpa using hb', by rw [← hf, Nat.add_assoc, Nat.add_comm 1]⟩
    · rintro ⟨hlength, hget⟩
      obtain ⟨b, bs, rfl⟩ := List.exists_cons_of_length_eq_add_one hlength
      obtain ⟨b', hb', hf⟩ := hget 0 a rfl
      obtain rfl : b = b' := by simpa using hb'
      have hbs : (l.zipIdx (n + 1)).mapM f = some bs := by
        refine ih.mpr ⟨by simpa using hlength, fun k c hk => ?_⟩
        obtain ⟨b', hb', hf⟩ := hget (k + 1) c (by simpa using hk)
        exact ⟨b', by simpa using hb', by rw [← hf, Nat.add_assoc, Nat.add_comm 1]⟩
      rw [show f (a, n) = some b from hf, hbs]
      rfl

/-- What the linked program has in each place. -/
theorem link_eq_some_iff : link mExtension program = some is ↔
    ((labels program).map Prod.fst).Nodup ∧ is.length = (operations program).length ∧
      ∀ (k : Nat) (op : Operation), (operations program)[k]? = some op → ∃ i, is[k]? = some i ∧
        op.link mExtension (target program) k = some i := by
  unfold link
  by_cases hnodup : ((labels program).map Prod.fst).Nodup
  · simp [hnodup, zipIdx_mapM_eq_some_iff]
  · simp [hnodup]

/-- The offset of an operation that refers to a label. -/
theorem offset_of_link {op : Operation} {i : Instruction} (hsmall : 4 * is.length < 2 ^ 32)
    (hlength : is.length = (operations program).length) (hop : (operations program)[k]? = some op)
    (htarget : target program label = some k')
    (hlink : op.link mExtension (target program) k = some i) (hreference : op.reference = some label) :
    BitVec.ofInt 64 (distance k k') = Parser.textAddress k' - Parser.textAddress k ∧
      2 ∣ distance k k' ∧ op.reaches (distance k k') = true ∧ op.resolve (distance k k') = i := by
  have hlt := (List.getElem?_eq_some_iff.mp hop).1
  have hle := target_le htarget
  refine ⟨ofInt_distance (by omega) (by omega), two_dvd_distance k k', ?_⟩
  obtain ⟨-, ⟨hnone, -⟩ | ⟨label', k'', hlabel, htarget', hreach, hresolve⟩⟩ :=
    Operation.link_eq_some_iff.mp hlink
  · rw [hreference] at hnone
    cases hnone
  · obtain rfl := Option.some.inj (hreference.symm.trans hlabel)
    obtain rfl := Option.some.inj (htarget.symm.trans htarget')
    exact ⟨hreach, hresolve⟩

/-- The instruction of an operation that is linked leads where the operation does. -/
theorem Step.instruction_of_link {h h' : Hart} (hstep : Step program h h')
    (hlink : link mExtension program = some is) (hsmall : 4 * is.length < 2 ^ 32) :
    ∃ k i, h.pc = Parser.textAddress k ∧ is[k]? = some i ∧ i.Spares h (4 * is.length) ∧
      i.Conforms h ∧ h.exec i = some h' := by
  obtain ⟨-, hlength, hget⟩ := link_eq_some_iff.mp hlink
  cases hstep with
  | instruction hpc hop hspares hconforms hexec =>
    obtain ⟨i, hi, hresolve⟩ := hget _ _ hop
    obtain ⟨-, ⟨-, rfl⟩ | ⟨label, k', hreference, -⟩⟩ := Operation.link_eq_some_iff.mp hresolve
    · exact ⟨_, _, hpc, hi, hlength ▸ hspares, hconforms, hexec⟩
    · cases hreference
  | @branch k k' op rs1 rs2 label hpc hop htarget =>
    obtain ⟨i, hi, hresolve⟩ := hget _ _ hop
    obtain ⟨hn, heven, hreach, rfl⟩ := offset_of_link hsmall hlength hop htarget hresolve rfl
    have hreach : -4096 ≤ distance k k' ∧ distance k k' ≤ 4095 := of_decide_eq_true hreach
    exact ⟨k, _, hpc, hi, trivial, trivial,
      Hart.exec_branch_distance op rs1 rs2 hpc hn heven hreach.1 hreach.2⟩
  | @jal k k' rd label hpc hop htarget =>
    obtain ⟨i, hi, hresolve⟩ := hget _ _ hop
    obtain ⟨hn, heven, hreach, rfl⟩ := offset_of_link hsmall hlength hop htarget hresolve rfl
    have hreach : -1048576 ≤ distance k k' ∧ distance k k' ≤ 1048575 := of_decide_eq_true hreach
    exact ⟨k, _, hpc, hi, trivial, trivial,
      Hart.exec_jal_distance rd hpc hn heven hreach.1 hreach.2⟩

/-- The linked instructions follow the operations. -/
theorem simulates {size : Word} (hlink : link mExtension program = some is)
    (hsmall : 4 * is.length < 2 ^ 32) (hsize : size.toNat = 4 * is.length) :
    Simulates (fun (h h' : Hart) => h = h' ∧ h'.Holds (is.map Instruction.word)) (Step program)
      (Hart.Follows size) := by
  rintro h _ h' ⟨rfl, hheld⟩ hstep
  obtain ⟨k, i, hpc, hi, hspares, hconforms, hexec⟩ := hstep.instruction_of_link hlink hsmall
  rw [← List.length_map Instruction.word] at hsmall hsize hspares
  have hword : (is.map Instruction.word)[k]? = some i.word := by simp [hi]
  obtain ⟨hfollows, hheld'⟩ := hheld.follows hsmall hsize hpc hword hspares hconforms hexec
  exact ⟨h', hfollows, rfl, hheld'⟩

end Program

end RiscvSim
