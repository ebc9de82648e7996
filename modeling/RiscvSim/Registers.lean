import RiscvSim.Word

/-! The register file: integer registers with a constant `x0`, floating-point
registers and control and status registers. -/

namespace RiscvSim

abbrev RegIndex := BitVec 5
abbrev CsrIndex := BitVec 12

@[ext] structure RegisterFile where
  gpr : RegIndex → Word
  fpr : RegIndex → Word
  csr : CsrIndex → Word

/-- A register by its kind and index, as `RegisterChange` names it. -/
inductive RegisterKey where
  | gpr (r : RegIndex)
  | csr (r : CsrIndex)
  | fpr (r : RegIndex)
  deriving DecidableEq, Repr

namespace RegisterFile

def reset : RegisterFile where
  gpr := fun _ => 0
  fpr := fun _ => 0
  csr := fun _ => 0

def readGpr (r : RegisterFile) (reg : RegIndex) : Word := if reg = 0 then 0 else r.gpr reg

def writeGpr (r : RegisterFile) (reg : RegIndex) (value : Word) : RegisterFile :=
  if reg = 0 then r else { r with gpr := Function.update r.gpr reg value }

/-- `ReadGpr` on an index that need not be a register. -/
def readGprChecked (r : RegisterFile) (reg : Nat) : Except Fault Word :=
  if reg ≥ 32 then .error .invalidRegister else .ok (r.readGpr (BitVec.ofNat 5 reg))

def readFpr (r : RegisterFile) (reg : RegIndex) : Word := r.fpr reg

def writeFpr (r : RegisterFile) (reg : RegIndex) (value : Word) : RegisterFile :=
  { r with fpr := Function.update r.fpr reg value }

def readCsr (r : RegisterFile) (reg : CsrIndex) : Word := r.csr reg

def writeCsr (r : RegisterFile) (reg : CsrIndex) (value : Word) : RegisterFile :=
  { r with csr := Function.update r.csr reg value }

def read (r : RegisterFile) : RegisterKey → Word
  | .gpr reg => r.readGpr reg
  | .csr reg => r.readCsr reg
  | .fpr reg => r.readFpr reg

def write (r : RegisterFile) (key : RegisterKey) (value : Word) : RegisterFile :=
  match key with
  | .gpr reg => r.writeGpr reg value
  | .csr reg => r.writeCsr reg value
  | .fpr reg => r.writeFpr reg value

theorem readGpr_zero (r : RegisterFile) : r.readGpr 0 = 0 := rfl

theorem writeGpr_zero (r : RegisterFile) (value : Word) : r.writeGpr 0 value = r := rfl

theorem readGpr_writeGpr (r : RegisterFile) (reg reg' : RegIndex) (value : Word) :
    (r.writeGpr reg value).readGpr reg' =
      if reg = reg' ∧ reg ≠ 0 then value else r.readGpr reg' := by
  by_cases h0 : reg = 0#5
  · simp [readGpr, writeGpr, h0]
  · by_cases h : reg = reg'
    · subst h
      simp [readGpr, writeGpr, h0]
    · simp [readGpr, writeGpr, h0, h, Function.update_of_ne (Ne.symm h)]

theorem read_write (r : RegisterFile) (key key' : RegisterKey) (value : Word) :
    (r.write key value).read key' =
      if key = key' ∧ key ≠ .gpr 0 then value else r.read key' := by
  cases key with
  | gpr reg =>
    cases key' with
    | gpr reg' => simpa [read, write] using readGpr_writeGpr r reg reg' value
    | csr reg' => simp [read, write, readCsr, writeGpr]; split <;> rfl
    | fpr reg' => simp [read, write, readFpr, writeGpr]; split <;> rfl
  | csr reg =>
    cases key' with
    | gpr reg' => simp [read, write, readGpr, writeCsr]
    | csr reg' => simp [read, write, readCsr, writeCsr, Function.update_apply, eq_comm]
    | fpr reg' => simp [read, write, readFpr, writeCsr]
  | fpr reg =>
    cases key' with
    | gpr reg' => simp [read, write, readGpr, writeFpr]
    | csr reg' => simp [read, write, readCsr, writeFpr]
    | fpr reg' => simp [read, write, readFpr, writeFpr, Function.update_apply, eq_comm]

theorem writeGpr_writeGpr (r : RegisterFile) (reg : RegIndex) (x y : Word) :
    (r.writeGpr reg x).writeGpr reg y = r.writeGpr reg y := by
  unfold writeGpr
  split <;> simp

/-- Writing back the value that a register held undoes a write to it. -/
theorem writeGpr_readGpr (r : RegisterFile) (reg : RegIndex) :
    r.writeGpr reg (r.readGpr reg) = r := by
  unfold writeGpr readGpr
  split <;> simp

end RegisterFile

end RiscvSim
