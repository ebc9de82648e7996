import RiscvSim.UnrecordedWrites
import RiscvSim.WordSteps

/-! The registers `fflags`, `frm` and `fcsr`: two fields of one register in the architecture, three
registers of their own in the simulator. -/

namespace RiscvSim

/-- The floating-point control and status register: a rounding mode and the accrued exceptions. -/
@[ext] structure Fcsr where
  frm : BitVec 3
  fflags : BitVec 5
  deriving DecidableEq, Repr

/-- The three CSRs of it. -/
def isFcsrIndex (k : CsrIndex) : Prop := k = 0x001 ∨ k = 0x002 ∨ k = 0x003

instance (k : CsrIndex) : Decidable (isFcsrIndex k) := inferInstanceAs (Decidable (_ ∨ _))

/-- The value that a CSR instruction computes from the old one. -/
def csrResult (funct3 : BitVec 3) (old operand : Word) : Word :=
  match funct3 with
  | 0b001#3 | 0b101#3 => operand
  | 0b010#3 | 0b110#3 => old ||| operand
  | 0b011#3 | 0b111#3 => old &&& ~~~operand
  | _ => old

/-- A register or the five bits in its place. -/
def csrOperand (w : Instr) (r : RegisterFile) : Word :=
  match w.funct3 with
  | 0b101#3 | 0b110#3 | 0b111#3 => w.rs1.setWidth 64
  | _ => r.readGpr w.rs1

namespace Fcsr

def read (s : Fcsr) (k : CsrIndex) : Word :=
  if k = 0x001 then s.fflags.setWidth 64
  else if k = 0x002 then s.frm.setWidth 64
  else (s.frm ++ s.fflags).setWidth 64

def write (s : Fcsr) (k : CsrIndex) (value : Word) : Fcsr :=
  if k = 0x001 then { s with fflags := value.setWidth 5 }
  else if k = 0x002 then { s with frm := value.setWidth 3 }
  else ⟨(value >>> (5 : Nat)).setWidth 3, value.setWidth 5⟩

/-- New exceptions are added to those that are set. -/
def accrue (s : Fcsr) (flags : Byte) : Fcsr := { s with fflags := s.fflags ||| flags.setWidth 5 }

/-- The three registers show the two fields. -/
def Shows (s : Fcsr) (r : RegisterFile) : Prop := ∀ k, isFcsrIndex k → r.readCsr k = s.read k

end Fcsr

namespace FloatCycle

/-- The exceptions of a double-precision instruction, of which `dfpexecute` only tells whether
there are any. -/
def doubleFlags (fpu : Fpu) (c : Core) (w : Instr) : Byte :=
  let o := (decoded c w).fpOperands 0b1101001#7 0b1111001#7 false
  let op := ControlUnit.getAluSignal w
  let flags := (fpu.double op (setRound o.rm c.hostRound) o.reg1Value o.reg2Value o.reg3Value).2
  match op with
  | .kAdd | .FMV_D_X => 0
  | .FEQ_D | .FLT_D | .FLE_D => if fpu.doubleHolds op o.reg1Value o.reg2Value then 0 else flags
  | _ => flags

theorem double_flag (fpu : Fpu) (c : Core) (w : Instr) :
    (double fpu c w).2 = (doubleFlags fpu c w != 0) := by
  unfold double doubleFlags Fpu.dfpexecute
  dsimp only
  generalize ControlUnit.getAluSignal w = op
  cases op with
  | kAdd => rfl
  | FMV_D_X => rfl
  | FEQ_D => dsimp only; split <;> rfl
  | FLT_D => dsimp only; split <;> rfl
  | FLE_D => dsimp only; split <;> rfl
  | _ => rfl

/-- The exception flags that the floating-point unit returns for an instruction. -/
def raised (fpu : Fpu) (c : Core) (w : Instr) : Byte :=
  if isFInstruction w then (single fpu c w).2
  else if isDInstruction w then doubleFlags fpu c w
  else 0

end FloatCycle

open FloatCycle

/-- An F or D instruction, or a CSR instruction on one of the three registers. -/
def IsFcsrWord (w : Instr) : Prop :=
  isFloatOrCsrWord w = true ∧ (isCsrWord w = true → isFcsrIndex w.csr)

instance (w : Instr) : Decidable (IsFcsrWord w) := inferInstanceAs (Decidable (_ ∧ _))

/-- What the architecture says of a step. -/
def Fcsr.step (s : Fcsr) (fpu : Fpu) (c : Core) (w : Instr) : Fcsr :=
  if isCsrWord w then
    s.write w.csr (csrResult w.funct3 (s.read w.csr) (csrOperand w c.registers))
  else s.accrue (raised fpu c w)

/-- A step that would not change any of the three registers: a CSR instruction leaves its register
as it is, an F instruction returns exactly the flags that `fcsr` holds, and a D instruction none
that `fflags` does not hold. -/
def KeepsFcsr (fpu : Fpu) (c : Core) (w : Instr) : Prop :=
  if isCsrWord w then
    csrResult w.funct3 (c.registers.readCsr w.csr) (csrOperand w c.registers) =
      c.registers.readCsr w.csr
  else if isFInstruction w then (raised fpu c w).setWidth 64 = c.registers.readCsr 0x003
  else c.registers.readCsr 0x001 ||| ((raised fpu c w).setWidth 5).setWidth 64 =
    c.registers.readCsr 0x001

namespace Fcsr

variable {s : Fcsr} {r : RegisterFile} {k : CsrIndex} {value : Word}

theorem append_setWidth (a : BitVec 3) (x : BitVec 5) :
    ((a ++ x).setWidth 64).setWidth 5 = x := by
  revert a x
  decide

theorem append_shift (a : BitVec 3) (x : BitVec 5) :
    ((a ++ x).setWidth 64 >>> (5 : Nat)).setWidth 3 = a := by
  revert a x
  decide

theorem append_injective {a b : BitVec 3} {x y : BitVec 5}
    (h : (a ++ x).setWidth 64 = (b ++ y).setWidth 64) : a = b ∧ x = y := by
  constructor
  · rw [← append_shift a x, h, append_shift]
  · rw [← append_setWidth a x, h, append_setWidth]

theorem setWidth_injective {n : Nat} {x y : BitVec n} (hn : n ≤ 64)
    (h : x.setWidth 64 = y.setWidth 64) : x = y := by
  have hback (z : BitVec n) : (z.setWidth 64).setWidth n = z := by
    rw [BitVec.setWidth_setWidth_of_le _ hn, BitVec.setWidth_eq]
  rw [← hback x, h, hback]

theorem shows_iff : s.Shows r ↔ r.readCsr 0x001 = s.fflags.setWidth 64 ∧
    r.readCsr 0x002 = s.frm.setWidth 64 ∧ r.readCsr 0x003 = (s.frm ++ s.fflags).setWidth 64 := by
  constructor
  · intro h
    exact ⟨h 1 (.inl rfl), h 2 (.inr (.inl rfl)), h 3 (.inr (.inr rfl))⟩
  · rintro ⟨h₁, h₂, h₃⟩ k (rfl | rfl | rfl)
    · exact h₁
    · exact h₂
    · exact h₃

theorem Shows.read (h : s.Shows r) (hk : isFcsrIndex k) : r.readCsr k = s.read k := h k hk

/-- After a write of one of the fields alone or of both, the three registers show the fields again
only if the register kept its value. -/
theorem shows_write_iff (hs : s.Shows r) (hk : isFcsrIndex k) {r' : RegisterFile}
    (hkey : r'.readCsr k = value)
    (hother : ∀ j, j ≠ k → r'.readCsr j = r.readCsr j) :
    (s.write k value).Shows r' ↔ value = r.readCsr k := by
  obtain ⟨hflags, hmode, hboth⟩ := shows_iff.mp hs
  rw [shows_iff]
  rcases hk with rfl | rfl | rfl
  · rw [hkey, hother 2 (by decide), hother 3 (by decide), hmode, hboth, hflags]
    change value = (value.setWidth 5).setWidth 64 ∧ _ ∧
      (s.frm ++ s.fflags).setWidth 64 = (s.frm ++ value.setWidth 5).setWidth 64 ↔ _
    constructor
    · rintro ⟨hvalue, -, happend⟩
      rw [hvalue, ← (append_injective happend).2]
    · intro hvalue
      have hfield : value.setWidth 5 = s.fflags := by
        rw [hvalue, BitVec.setWidth_setWidth_of_le _ (by decide), BitVec.setWidth_eq]
      rw [hfield]
      exact ⟨hvalue, rfl, rfl⟩
  · rw [hkey, hother 1 (by decide), hother 3 (by decide), hmode, hboth, hflags]
    change _ ∧ value = (value.setWidth 3).setWidth 64 ∧
      (s.frm ++ s.fflags).setWidth 64 = (value.setWidth 3 ++ s.fflags).setWidth 64 ↔ _
    constructor
    · rintro ⟨-, hvalue, happend⟩
      rw [hvalue, ← (append_injective happend).1]
    · intro hvalue
      have hfield : value.setWidth 3 = s.frm := by
        rw [hvalue, BitVec.setWidth_setWidth_of_le _ (by decide), BitVec.setWidth_eq]
      rw [hfield]
      exact ⟨rfl, hvalue, rfl⟩
  · rw [hkey, hother 1 (by decide), hother 2 (by decide), hmode, hboth, hflags]
    change s.fflags.setWidth 64 = (value.setWidth 5).setWidth 64 ∧
      s.frm.setWidth 64 = ((value >>> (5 : Nat)).setWidth 3).setWidth 64 ∧
      value = ((value >>> (5 : Nat)).setWidth 3 ++ value.setWidth 5).setWidth 64 ↔ _
    constructor
    · rintro ⟨hlow, hhigh, hvalue⟩
      rw [hvalue, ← setWidth_injective (by decide) hlow, ← setWidth_injective (by decide) hhigh]
    · intro hvalue
      have hlow : value.setWidth 5 = s.fflags := by
        rw [hvalue]
        exact append_setWidth s.frm s.fflags
      have hhigh : (value >>> (5 : Nat)).setWidth 3 = s.frm := by
        rw [hvalue]
        exact append_shift s.frm s.fflags
      rw [hlow, hhigh]
      exact ⟨rfl, rfl, hvalue⟩

end Fcsr

section

variable {fpu : Fpu} {c d : Core} {w : Instr} {changes : Changes} {s : Fcsr} {k : CsrIndex}

theorem readCsr_write_gpr (r : RegisterFile) (reg : RegIndex) (value : Word) :
    (r.writeGpr reg value).readCsr k = r.readCsr k := by
  have h := r.read_write (.gpr reg) (.csr k) value
  rwa [if_neg (by simp)] at h

theorem readCsr_write (r : RegisterFile) (j : CsrIndex) (value : Word) :
    (r.writeCsr j value).readCsr k = if j = k then value else r.readCsr k := by
  have h := r.read_write (.csr j) (.csr k) value
  simp only [RegisterKey.csr.injEq, ne_eq, reduceCtorEq, not_false_eq_true, and_true] at h
  exact h

theorem getD_or (old x : Word) :
    (if x ≠ 0 then some (old ||| x) else none).getD old = old ||| x := by
  by_cases h : x = 0
  · rw [if_neg (not_not.mpr h), h]
    exact BitVec.or_zero.symm
  · rw [if_pos h]
    rfl

theorem getD_and (old x : Word) :
    (if x ≠ 0 then some (old &&& ~~~x) else none).getD old = old &&& ~~~x := by
  by_cases h : x = 0
  · rw [if_neg (not_not.mpr h), h]
    exact BitVec.and_allOnes.symm
  · rw [if_pos h]
    rfl

/-- Only the CSR of the instruction changes. -/
theorem readCsr_unrecorded_of_ne (hcsr : isCsrWord w = true) (hk : k ≠ w.csr) :
    (unrecorded fpu c w).readCsr k = c.registers.readCsr k := by
  rw [unrecorded, if_pos hcsr]
  cases csrNew w c.registers with
  | none => exact readCsr_write_gpr ..
  | some value =>
    dsimp only
    rw [readCsr_write, if_neg (Ne.symm hk)]
    exact readCsr_write_gpr ..

/-- A CSR instruction with operand zero writes nothing, which gives the same value. -/
theorem csrNew_getD (hcsr : isCsrWord w = true) (r : RegisterFile) :
    (csrNew w r).getD (r.readCsr w.csr) =
      csrResult w.funct3 (r.readCsr w.csr) (csrOperand w r) := by
  have hfields : (w.opcode = 0b1110011#7 ∧ w.funct3 ≠ 0b000#3) ∧ w.funct3 ≠ 0b100#3 := by
    simpa [isCsrWord] using hcsr
  obtain ⟨⟨-, hzero⟩, hfour⟩ := hfields
  have hcases : ∀ f : BitVec 3, f ≠ 0 → f ≠ 4 →
      f = 1 ∨ f = 2 ∨ f = 3 ∨ f = 5 ∨ f = 6 ∨ f = 7 := by decide
  unfold csrNew csrResult csrOperand
  rcases hcases _ hzero hfour with h | h | h | h | h | h
  · rw [h]
    rfl
  · rw [h]
    exact getD_or ..
  · rw [h]
    exact getD_and ..
  · rw [h]
    rfl
  · rw [h]
    exact getD_or ..
  · rw [h]
    exact getD_and ..

theorem readCsr_unrecorded (hcsr : isCsrWord w = true) :
    (unrecorded fpu c w).readCsr w.csr =
      csrResult w.funct3 (c.registers.readCsr w.csr) (csrOperand w c.registers) := by
  rw [← csrNew_getD hcsr, unrecorded, if_pos hcsr]
  cases csrNew w c.registers with
  | none => exact readCsr_write_gpr ..
  | some value =>
    dsimp only
    rw [readCsr_write, if_pos rfl]
    rfl

/-- The destination gets the old value. -/
theorem readGpr_unrecorded (hcsr : isCsrWord w = true) (hrd : w.rd ≠ 0) :
    (unrecorded fpu c w).readGpr w.rd = c.registers.readCsr w.csr := by
  have hwrite : (c.registers.writeGpr w.rd (c.registers.readCsr w.csr)).readGpr w.rd =
      c.registers.readCsr w.csr := by
    rw [RegisterFile.readGpr_writeGpr, if_pos ⟨rfl, hrd⟩]
  rw [unrecorded, if_pos hcsr]
  cases csrNew w c.registers with
  | none => exact hwrite
  | some value => exact hwrite

/-- The registers after a cycle, apart from a recorded destination. -/
theorem read_fetchCycle (key : RegisterKey) (hw : c.memory.readWord c.programCounter = .ok w)
    (hkind : isFloatOrCsrWord w = true) (h : c.fetchCycle fpu = .ok (d, changes))
    (hkey : key ≠ .gpr 0) (hdest : writes w = true → destination w ≠ key) :
    d.registers.read key = (unrecorded fpu c w).read key :=
  (fetchCycle_effect hw hkind h).kept key hkey fun hrecords => hdest hrecords.1 hrecords.2.1

theorem readCsr_fetchCycle (hw : c.memory.readWord c.programCounter = .ok w)
    (hkind : isFloatOrCsrWord w = true) (h : c.fetchCycle fpu = .ok (d, changes)) :
    d.registers.readCsr k = (unrecorded fpu c w).readCsr k := by
  have hdest : destination w ≠ .csr k := by
    unfold destination
    split <;> simp
  exact read_fetchCycle (.csr k) hw hkind h (by simp) fun _ => hdest

/-- A step shows what the architecture says of it exactly if it changes none of the registers. -/
theorem shows_fetchCycle_iff (hs : s.Shows c.registers) (hkind : IsFcsrWord w)
    (hw : c.memory.readWord c.programCounter = .ok w) (h : c.fetchCycle fpu = .ok (d, changes)) :
    (s.step fpu c w).Shows d.registers ↔ KeepsFcsr fpu c w := by
  have hafter (k : CsrIndex) : d.registers.readCsr k = (unrecorded fpu c w).readCsr k :=
    readCsr_fetchCycle hw hkind.1 h
  unfold Fcsr.step KeepsFcsr
  by_cases hcsr : isCsrWord w = true
  · have hindex := hkind.2 hcsr
    rw [if_pos hcsr, if_pos hcsr, ← hs.read hindex]
    refine Fcsr.shows_write_iff hs hindex ?_ fun j hj => ?_
    · rw [hafter, readCsr_unrecorded hcsr]
    · rw [hafter, readCsr_unrecorded_of_ne hcsr hj]
  · obtain ⟨hflags, hmode, hboth⟩ := Fcsr.shows_iff.mp hs
    rw [if_neg hcsr, if_neg hcsr, Fcsr.shows_iff, hafter, hafter, hafter, unrecorded, if_neg hcsr]
    change _ = (s.fflags ||| (raised fpu c w).setWidth 5).setWidth 64 ∧
      _ = s.frm.setWidth 64 ∧
      _ = (s.frm ++ (s.fflags ||| (raised fpu c w).setWidth 5)).setWidth 64 ↔ _
    by_cases hF : isFInstruction w = true
    · have hraised : (single fpu c w).2 = raised fpu c w := by rw [raised, if_pos hF]
      rw [if_pos hF, if_pos hF, readCsr_write, readCsr_write, readCsr_write, if_neg (by decide),
        if_neg (by decide), if_pos rfl, hflags, hmode, hboth, hraised]
      constructor
      · rintro ⟨hold, -, hnew⟩
        rw [hnew, ← Fcsr.setWidth_injective (by decide) hold]
      · intro hnew
        have hlow : (raised fpu c w).setWidth 5 = s.fflags := by
          rw [← Fcsr.append_setWidth s.frm s.fflags, ← hnew,
            BitVec.setWidth_setWidth_of_le _ (by decide)]
        rw [hlow, BitVec.or_self]
        exact ⟨rfl, rfl, hnew⟩
    · rw [if_neg hF, if_neg hF, hflags, hmode, hboth]
      have hor : s.fflags.setWidth 64 ||| ((raised fpu c w).setWidth 5).setWidth 64 =
          (s.fflags ||| (raised fpu c w).setWidth 5).setWidth 64 := BitVec.setWidth_or.symm
      rw [hor]
      constructor
      · rintro ⟨hold, -, -⟩
        exact hold.symm
      · intro hold
        have hsame := Fcsr.setWidth_injective (by decide) hold
        rw [hsame]
        exact ⟨rfl, rfl, rfl⟩

end

/-- A cycle of a run, with the value of `fcsr` before it. -/
structure FcsrTurn where
  before : Core
  word : Instr
  state : Fcsr
  after : Core

/-- After the cycle the registers show what the architecture says, and a CSR instruction has read
the value of its register before. -/
def FcsrTurn.Consistent (fpu : Fpu) (e : FcsrTurn) : Prop :=
  (e.state.step fpu e.before e.word).Shows e.after.registers ∧
    (isCsrWord e.word = true → e.word.rd ≠ 0 →
      e.after.registers.readGpr e.word.rd = e.state.read e.word.csr)

/-- Cycles of CSR instructions on the three registers, F instructions and D instructions in any
order, with anything between them that leaves the registers alone. -/
inductive FcsrRun (fpu : Fpu) : Core → Fcsr → List FcsrTurn → Prop
  | stop (c : Core) (s : Fcsr) : FcsrRun fpu c s []
  | turn {c d : Core} {w : Instr} {s : Fcsr} {turns : List FcsrTurn} {changes : Changes} :
      IsFcsrWord w → c.memory.readWord c.programCounter = .ok w →
      c.fetchCycle fpu = .ok (d, changes) → FcsrRun fpu d (s.step fpu c w) turns →
      FcsrRun fpu c s (⟨c, w, s, d⟩ :: turns)
  | other {c d : Core} {s : Fcsr} {turns : List FcsrTurn} :
      (∀ k, isFcsrIndex k → d.registers.readCsr k = c.registers.readCsr k) →
      FcsrRun fpu d s turns → FcsrRun fpu c s turns

section

variable {fpu : Fpu} {c d : Core} {w : Instr} {changes : Changes} {s : Fcsr}

theorem consistent_iff (hs : s.Shows c.registers) (hkind : IsFcsrWord w)
    (hw : c.memory.readWord c.programCounter = .ok w) (h : c.fetchCycle fpu = .ok (d, changes)) :
    FcsrTurn.Consistent fpu ⟨c, w, s, d⟩ ↔ KeepsFcsr fpu c w := by
  rw [← shows_fetchCycle_iff hs hkind hw h]
  refine ⟨fun hturn => hturn.1, fun hshows => ⟨hshows, fun hcsr hrd => ?_⟩⟩
  have hplain : writes w = false := by
    rw [writes]
    by_cases hfp : (isFInstruction w || isDInstruction w) = true
    · exact absurd hcsr (by simp [isCsrWord_false hfp])
    · simp [Bool.not_eq_true _ ▸ hfp]
  have hread : d.registers.readGpr w.rd = (unrecorded fpu c w).readGpr w.rd :=
    read_fetchCycle (.gpr w.rd) hw hkind.1 h (by simpa using hrd)
      fun hwrites => absurd hwrites (by simp [hplain])
  calc d.registers.readGpr w.rd
    _ = (unrecorded fpu c w).readGpr w.rd := hread
    _ = c.registers.readCsr w.csr := readGpr_unrecorded hcsr hrd
    _ = s.read w.csr := hs.read (hkind.2 hcsr)

/-- In a run that starts with the three registers in agreement, they agree as the architecture
says after every cycle exactly if no cycle changes anything in them. -/
theorem fcsrRun_consistent_iff {turns : List FcsrTurn} (hs : s.Shows c.registers)
    (hrun : FcsrRun fpu c s turns) :
    (∀ e ∈ turns, e.Consistent fpu) ↔ ∀ e ∈ turns, KeepsFcsr fpu e.before e.word := by
  induction hrun with
  | stop => simp
  | @turn c d w s turns changes hkind hw hcycle _ ih =>
    rw [List.forall_mem_cons, List.forall_mem_cons, consistent_iff hs hkind hw hcycle]
    constructor
    · rintro ⟨hkeeps, hrest⟩
      have hnext := (shows_fetchCycle_iff hs hkind hw hcycle).mpr hkeeps
      exact ⟨hkeeps, (ih hnext).mp hrest⟩
    · rintro ⟨hkeeps, hrest⟩
      have hnext := (shows_fetchCycle_iff hs hkind hw hcycle).mpr hkeeps
      exact ⟨hkeeps, (ih hnext).mpr hrest⟩
  | other hsame _ ih =>
    exact ih fun k hk => (hsame k hk).trans (hs k hk)

/-- A machine at its first instruction. -/
def atWord (w : Instr) : Core := (Vm.holding [w] .reset).core

theorem atWord_readWord (w : Instr) :
    (atWord w).memory.readWord (atWord w).programCounter = .ok w :=
  Vm.holding_nextWord w .reset

theorem atWord_shows (w : Instr) : Fcsr.Shows ⟨0, 0⟩ (atWord w).registers := by
  rintro k (rfl | rfl | rfl)
  · rfl
  · rfl
  · rfl

/-- `csrrwi x5, frm, 0` in a machine after a reset. -/
theorem fcsrRun_consistent_iff_zero : ∃ d,
    let turns := [⟨atWord 0x002052f3, 0x002052f3, ⟨0, 0⟩, d⟩]
    FcsrRun .zero (atWord 0x002052f3) ⟨0, 0⟩ turns ∧
      ((∀ e ∈ turns, e.Consistent .zero) ↔ ∀ e ∈ turns, KeepsFcsr .zero e.before e.word) := by
  have hcycle : ∃ d changes, (atWord 0x002052f3).fetchCycle .zero = .ok (d, changes) := ⟨_, _, rfl⟩
  obtain ⟨d, changes, hcycle⟩ := hcycle
  have hrun : FcsrRun .zero (atWord 0x002052f3) ⟨0, 0⟩
      [⟨atWord 0x002052f3, 0x002052f3, ⟨0, 0⟩, d⟩] :=
    .turn (by decide) (atWord_readWord _) hcycle (.stop _ _)
  exact ⟨d, hrun, fcsrRun_consistent_iff (atWord_shows _) hrun⟩

/-- `csrrwi x0, frm, 1` sets a rounding mode that `fcsr` does not show. -/
theorem not_consistent_csrrwi : ¬ ∀ (fpu : Fpu) (c : Core) (s : Fcsr) (turns : List FcsrTurn),
    s.Shows c.registers → FcsrRun fpu c s turns → ∀ e ∈ turns, e.Consistent fpu := by
  intro hall
  have hcycle : ∃ d changes, (atWord 0x0020d073).fetchCycle .zero = .ok (d, changes) := ⟨_, _, rfl⟩
  obtain ⟨d, changes, hcycle⟩ := hcycle
  have hkind : IsFcsrWord 0x0020d073 := by decide
  have hturn := hall .zero _ _ _ (atWord_shows 0x0020d073)
    (.turn hkind (atWord_readWord _) hcycle (.stop _ _)) _ List.mem_cons_self
  have hkeeps : (1 : Word) = 0 :=
    (consistent_iff (atWord_shows _) hkind (atWord_readWord _) hcycle).mp hturn
  exact absurd hkeeps (by decide)

end

end RiscvSim
