import RiscvSim.Division
import RiscvSim.IntegerCycle

/-! The integer divisions that the host evaluates for the arithmetic unit, and the programs
that trap it. -/

namespace RiscvSim

/-- An integer division in the width in which the host evaluates it. -/
structure HostDivision where
  width : Nat
  signed : Bool
  dividend : BitVec width
  divisor : BitVec width

/-- The host traps on a zero divisor and on a quotient that does not fit. -/
def HostDivision.Defined (d : HostDivision) : Prop :=
  d.divisor ≠ 0 ∧ (d.signed = true → ¬ (d.dividend = BitVec.intMin d.width ∧ d.divisor = -1))

namespace Alu

/-- The `/` or `%` that `execute` comes to behind its guards. -/
def hostDivision (op : AluOp) (a b : Word) : Option HostDivision :=
  let a32 : BitVec 32 := a.setWidth 32
  let b32 : BitVec 32 := b.setWidth 32
  match op with
  | .kDiv =>
    if b = 0 then none
    else if a = BitVec.intMin 64 ∧ b = -1 then none
    else some ⟨64, true, a, b⟩
  | .kDivw =>
    if b32 = 0 then none
    else if a32 = BitVec.intMin 32 ∧ b32 = -1 then none
    else some ⟨32, true, a32, b32⟩
  | .kDivu => if b = 0 then none else some ⟨64, false, a, b⟩
  | .kDivuw => if b = 0 then none else some ⟨32, false, a32, b32⟩
  | .kRem => if b = 0 then none else some ⟨64, true, a, b⟩
  | .kRemw => if b = 0 then none else some ⟨32, true, a32, b32⟩
  | .kRemu => if b = 0 then none else some ⟨64, false, a, b⟩
  | .kRemuw => if b = 0 then none else some ⟨32, false, a32, b32⟩
  | _ => none

/-- Every division that `execute` evaluates is defined. -/
def DivisionDefined (op : AluOp) (a b : Word) : Prop := ∀ d ∈ hostDivision op a b, d.Defined

/-- The operands that pass a guard made for another width, or that no guard tests. -/
def Trapping (op : AluOp) (a b : Word) : Prop :=
  let a32 : BitVec 32 := a.setWidth 32
  let b32 : BitVec 32 := b.setWidth 32
  match op with
  | .kRem => a = BitVec.intMin 64 ∧ b = -1
  | .kDivuw | .kRemuw => b ≠ 0 ∧ b32 = 0
  | .kRemw => b ≠ 0 ∧ b32 = 0 ∨ a32 = BitVec.intMin 32 ∧ b32 = -1
  | _ => False

variable {op : AluOp} {a b : Word}

theorem divisionDefined_of_none (h : hostDivision op a b = none) : DivisionDefined op a b := by
  intro d hd
  rw [h] at hd
  cases hd

theorem divisionDefined_of_some {d : HostDivision} (h : hostDivision op a b = some d) :
    DivisionDefined op a b ↔ d.Defined := by
  constructor
  · exact fun hall => hall d h
  · intro hd d' hd'
    rw [h] at hd'
    cases hd'
    exact hd

theorem divisionDefined_of_guard {d : HostDivision} (hb : b ≠ 0)
    (h : hostDivision op a b = if b = 0 then none else some d) :
    DivisionDefined op a b ↔ d.Defined := by
  rw [if_neg hb] at h
  exact divisionDefined_of_some h

/-- The divisions of the arithmetic unit that the host traps on. -/
theorem divisionDefined_iff (op : AluOp) (a b : Word) :
    DivisionDefined op a b ↔ ¬ Trapping op a b := by
  by_cases hb : b = 0
  · have hb32 := setWidth_of_eq_zero hb
    have hnone : hostDivision op a b = none := by
      cases op <;> first | rfl | exact if_pos hb | exact if_pos hb32
    refine iff_of_true (divisionDefined_of_none hnone) ?_
    cases op <;> simp only [Trapping, hb, ne_eq, not_true, false_and, false_or, not_false_eq_true]
    · exact fun h => absurd h.2 (by decide)
    · exact fun h => absurd h.2 (by decide)
  · cases op with
    | kDiv =>
      by_cases hover : a = BitVec.intMin 64 ∧ b = -1
      · exact iff_of_true (divisionDefined_of_none
          (by simp only [hostDivision, if_neg hb, if_pos hover])) id
      · have hsome : hostDivision .kDiv a b = some ⟨64, true, a, b⟩ := by
          simp only [hostDivision, if_neg hb, if_neg hover]
        exact iff_of_true ((divisionDefined_of_some hsome).mpr ⟨hb, fun _ => hover⟩) id
    | kDivw =>
      by_cases hb32 : b.setWidth 32 = (0 : BitVec 32)
      · exact iff_of_true (divisionDefined_of_none (if_pos hb32)) id
      · by_cases hover : a.setWidth 32 = BitVec.intMin 32 ∧ b.setWidth 32 = (-1 : BitVec 32)
        · exact iff_of_true (divisionDefined_of_none
            (by simp only [hostDivision, if_neg hb32, if_pos hover])) id
        · have hsome : hostDivision .kDivw a b = some ⟨32, true, a.setWidth 32, b.setWidth 32⟩ := by
            simp only [hostDivision, if_neg hb32, if_neg hover]
          exact iff_of_true ((divisionDefined_of_some hsome).mpr ⟨hb32, fun _ => hover⟩) id
    | kDivu | kRemu =>
      refine iff_of_true ((divisionDefined_of_guard hb rfl).mpr ⟨hb, fun h => ?_⟩) id
      cases h
    | kDivuw | kRemuw =>
      rw [divisionDefined_of_guard hb rfl]
      constructor
      · exact fun h htrap => h.1 htrap.2
      · intro h
        refine ⟨fun hb32 => h ⟨hb, hb32⟩, fun hsigned => ?_⟩
        cases hsigned
    | kRem =>
      rw [divisionDefined_of_guard hb rfl]
      exact ⟨fun h => h.2 rfl, fun h => ⟨hb, fun _ => h⟩⟩
    | kRemw =>
      rw [divisionDefined_of_guard hb rfl]
      constructor
      · rintro h (htrap | htrap)
        · exact h.1 htrap.2
        · exact h.2 rfl htrap
      · exact fun h => ⟨fun hb32 => h (.inl ⟨hb, hb32⟩), fun _ htrap => h (.inr htrap)⟩
    | _ => exact iff_of_true (divisionDefined_of_none rfl) id

/-- The faults of the arithmetic unit are its undefined divisions. -/
theorem execute_avoids (h : ¬ Trapping op a b) :
    Loop.Avoids Fault.divisionTrap (execute op a b) := by
  cases op with
  | kDiv | kDivw => exact .ite (.ok _) (.ite (.ok _) (.ok _))
  | kDivu | kRemu => exact .ite (.ok _) (.ok _)
  | kDivuw | kRemuw =>
    by_cases hb : b = 0
    · simp only [execute, if_pos hb]
      exact .ok _
    · simp only [execute, if_neg hb, if_neg fun hb32 => h ⟨hb, hb32⟩]
      exact .ok _
  | kRem =>
    by_cases hb : b = 0
    · simp only [execute, if_pos hb]
      exact .ok _
    · simp only [execute, if_neg hb]
      exact if_neg h ▸ .ok _
  | kRemw =>
    by_cases hb : b = 0
    · simp only [execute, if_pos hb]
      exact .ok _
    · have hdefined : ¬ (b.setWidth 32 = (0 : BitVec 32) ∨
          a.setWidth 32 = BitVec.intMin 32 ∧ b.setWidth 32 = (-1 : BitVec 32)) := by
        rintro (hb32 | hover)
        · exact h (.inl ⟨hb, hb32⟩)
        · exact h (.inr hover)
      simp only [execute, if_neg hb, if_neg hdefined]
      exact .ok _
  | _ => exact .ok _

end Alu

/-! No other part of a cycle divides. -/

namespace Memory

variable (m : Memory) (address : Word)

theorem read_avoids : Loop.Avoids Fault.divisionTrap (m.read address) :=
  .ite (.ok _) (.error (by decide))

theorem write_avoids (value : Byte) : Loop.Avoids Fault.divisionTrap (m.write address value) :=
  .ite (.ok _) (.error (by decide))

theorem readGeneric_avoids (w n : Nat) :
    Loop.Avoids Fault.divisionTrap (m.readGeneric address w n) := by
  induction n with
  | zero => exact .ok _
  | succ n ih => exact .bind ih fun _ => .bind (m.read_avoids _) fun _ => .ok _

theorem writeGeneric_avoids {w : Nat} (value : BitVec w) (n : Nat) :
    Loop.Avoids Fault.divisionTrap (m.writeGeneric address value n) := by
  induction n with
  | zero => exact .ok _
  | succ n ih => exact .bind ih fun m => m.write_avoids _ _

theorem readByte_avoids : Loop.Avoids Fault.divisionTrap (m.readByte address) :=
  .ite (.error (by decide)) (m.read_avoids _)

theorem writeByte_avoids (value : Byte) :
    Loop.Avoids Fault.divisionTrap (m.writeByte address value) :=
  .ite (.error (by decide)) (m.write_avoids _ _)

/-- The typed accesses test the address and go on byte by byte. -/
theorem guarded_read_avoids (c : Prop) [Decidable c] (w n : Nat) :
    Loop.Avoids Fault.divisionTrap
      (if c then .error .memoryOutOfRange else m.readGeneric address w n) :=
  .ite (.error (by decide)) (m.readGeneric_avoids _ _ _)

theorem guarded_write_avoids (c : Prop) [Decidable c] {w : Nat} (value : BitVec w) (n : Nat) :
    Loop.Avoids Fault.divisionTrap
      (if c then .error .memoryOutOfRange else m.writeGeneric address value n) :=
  .ite (.error (by decide)) (m.writeGeneric_avoids _ _ _)

theorem readBytes_avoids (n : Nat) : Loop.Avoids Fault.divisionTrap (m.readBytes address n) := by
  induction n with
  | zero => exact .ok _
  | succ n ih => exact .bind ih fun _ => .bind (m.readByte_avoids _) fun _ => .ok _

theorem writeBytes_avoids (n : Nat) (bytes : List Byte) :
    Loop.Avoids Fault.divisionTrap (m.writeBytes address n bytes) := by
  induction bytes generalizing m n with
  | nil => exact .ok _
  | cons b bytes ih => exact .bind (m.writeByte_avoids _ _) fun m => ih m _

end Memory

namespace Core

variable (c : Core) (m : Memory)

theorem readGprChecked_avoids (r : RegisterFile) (reg : Nat) :
    Loop.Avoids Fault.divisionTrap (r.readGprChecked reg) :=
  .ite (.error (by decide)) (.ok _)

theorem decode_avoids : Loop.Avoids Fault.divisionTrap c.decode := by
  refine .ite ?_ (.ite ?_ (.ok _))
  · exact .bind (readGprChecked_avoids _ _) fun _ => .bind (readGprChecked_avoids _ _) fun _ => .ok _
  · exact .bind (readGprChecked_avoids _ _) fun _ => .bind (readGprChecked_avoids _ _) fun _ => .ok _

theorem printString_avoids (address : Word) (fuel : Nat) :
    Loop.Avoids Fault.divisionTrap (printString m address fuel) := by
  induction fuel generalizing address with
  | zero => exact .error (by decide)
  | succ fuel ih => exact .bind (m.readByte_avoids _) fun _ => .ite (.ok _) (ih _)

theorem syscallRead_avoids : Loop.Avoids Fault.divisionTrap c.syscallRead := by
  unfold syscallRead
  cases c.inputQueue with
  | nil => exact .error (by decide)
  | cons input inputQueue =>
    refine .bind (c.memory.readBytes_avoids _ _) fun _ =>
      .bind (c.memory.writeBytes_avoids _ _ _) fun m => .bind ?_ fun m =>
        .bind (m.readBytes_avoids _ _) fun _ => .ok _
    exact .ite (m.writeByte_avoids _ _) (.ok _)

theorem syscallWrite_avoids : Loop.Avoids Fault.divisionTrap c.syscallWrite :=
  .bind (c.memory.readBytes_avoids _ _) fun _ => .ok _

theorem handleSyscall_avoids : Loop.Avoids Fault.divisionTrap c.handleSyscall := by
  unfold handleSyscall
  dsimp only
  split
  · exact .bind (printString_avoids _ _ _) fun _ => .ok _
  · exact .error (by decide)
  · exact .ite c.syscallRead_avoids (.ok _)
  · exact .ite c.syscallWrite_avoids (.ok _)
  · exact .ok _

theorem loadWords_avoids (base first : Word) (cache : Vector Word 64) (n : Nat) :
    Loop.Avoids Fault.divisionTrap (loadWords m base first cache n) := by
  induction n with
  | zero => exact .ok _
  | succ n ih =>
    exact .bind ih fun _ => .ite (.bind (m.guarded_read_avoids _ _ _ _) fun _ => .ok _) (.ok _)

theorem readAt_avoids {n : Nat} (v : Vector Word n) (i : Int) :
    Loop.Avoids Fault.divisionTrap (readAt v i) := by
  unfold readAt
  split
  · split
    · exact .ok _
    · exact .error (by decide)
  · exact .error (by decide)

theorem ldbmCycle_avoids (u : BigmulUnit) : Loop.Avoids Fault.divisionTrap (ldbmCycle m u) := by
  refine .bind (.ite ?_ (.ite ?_ (.ok _))) fun _ => .ok _
  · exact .bind (loadWords_avoids _ _ _ _ _) fun _ => .ok _
  · exact .bind (loadWords_avoids _ _ _ _ _) fun _ => .ok _

theorem storeWords_avoids (u : BigmulUnit) (size : Word) (n : Nat) :
    Loop.Avoids Fault.divisionTrap (storeWords u size m n) := by
  induction n with
  | zero => exact .ok _
  | succ n ih =>
    refine .bind ih fun m => .ite ?_ (.ok _)
    refine .bind (readAt_avoids _ _) fun _ => .bind (m.readBytes_avoids _ _) fun _ =>
      .bind (m.guarded_write_avoids _ _ _ _) fun m => .bind (m.readBytes_avoids _ _) fun _ => .ok _

theorem bigmulWriteCycle_avoids (u : BigmulUnit) :
    Loop.Avoids Fault.divisionTrap (bigmulWriteCycle m u) := by
  have hfinish : ∀ m u, Loop.Avoids Fault.divisionTrap (finishWriteBack m u) :=
    fun m u => .ite (.ite (.ok _) (.error (by decide))) (.ok _)
  exact .ite (.bind (storeWords_avoids _ _ _ _) fun m => hfinish m _) (hfinish m u)

theorem loadValue_avoids (address previous : Word) (funct3 : BitVec 3) :
    Loop.Avoids Fault.divisionTrap (loadValue m address funct3 previous) := by
  unfold loadValue
  split
  · exact .bind (m.readByte_avoids _) fun _ => .ok _
  · exact .bind (m.guarded_read_avoids _ _ _ _) fun _ => .ok _
  · exact .bind (m.guarded_read_avoids _ _ _ _) fun _ => .ok _
  · exact m.guarded_read_avoids _ _ _ _
  · exact .bind (m.readByte_avoids _) fun _ => .ok _
  · exact .bind (m.guarded_read_avoids _ _ _ _) fun _ => .ok _
  · exact .bind (m.guarded_read_avoids _ _ _ _) fun _ => .ok _
  · exact .ok _

theorem storeRecorded_avoids (address : Word) (n : Nat) {write : Memory → Except Fault Memory}
    (h : Loop.Avoids Fault.divisionTrap (write m)) :
    Loop.Avoids Fault.divisionTrap (storeRecorded m address n write) :=
  .bind (m.readBytes_avoids _ _) fun _ => .bind h fun m => .bind (m.readBytes_avoids _ _) fun _ =>
    .ok _

theorem storeValue_avoids (address value : Word) (funct3 : BitVec 3) :
    Loop.Avoids Fault.divisionTrap (storeValue m address funct3 value) := by
  unfold storeValue
  split
  · exact storeRecorded_avoids _ _ _ (m.writeByte_avoids _ _)
  · exact storeRecorded_avoids _ _ _ (m.guarded_write_avoids _ _ _ _)
  · exact storeRecorded_avoids _ _ _ (m.guarded_write_avoids _ _ _ _)
  · exact storeRecorded_avoids _ _ _ (m.guarded_write_avoids _ _ _ _)
  · exact .ok _

theorem readResult_avoids {read : Except Fault Word} (h : Loop.Avoids Fault.divisionTrap read) :
    Loop.Avoids Fault.divisionTrap (c.readResult read) :=
  .ite h (.ok _)

theorem writeMemory_avoids : Loop.Avoids Fault.divisionTrap c.writeMemory := by
  refine .ite (.bind (ldbmCycle_avoids _ _) fun _ => .ok _) (.ite (.ok _) (.ite ?_ (.ite ?_ ?_)))
  · refine .bind (c.readResult_avoids ?_) fun _ => .ite (.bind ?_ fun _ => .ok _) (.ok _)
    · exact .bind (c.memory.guarded_read_avoids _ _ _ _) fun _ => .ok _
    · exact storeRecorded_avoids _ _ _ (c.memory.guarded_write_avoids _ _ _ _)
  · refine .bind (c.readResult_avoids ?_) fun _ => .ite (.bind ?_ fun _ => .ok _) (.ok _)
    · exact c.memory.guarded_read_avoids _ _ _ _
    · exact storeRecorded_avoids _ _ _ (c.memory.guarded_write_avoids _ _ _ _)
  · refine .bind (c.readResult_avoids (loadValue_avoids _ _ _ _)) fun _ => .ite ?_ (.ite ?_ (.ok _))
    · exact .bind (bigmulWriteCycle_avoids _ _) fun _ => .ok _
    · exact .bind (storeValue_avoids _ _ _ _) fun _ => .ok _

end Core

/-! The words that divide. -/

namespace ControlUnit

/-- The operations that the host can trap on. -/
def canTrap : AluOp → Bool
  | .kRem | .kDivuw | .kRemw | .kRemuw => true
  | _ => false

theorem canTrap_aluSignalR (funct3 : BitVec 3) (funct7 : BitVec 7) :
    canTrap (aluSignalR funct3 funct7) = true → funct3 = 0b110#3 ∧ funct7 = 0b0000001#7 := by
  intro h
  unfold aluSignalR at h
  split at h <;> first | exact ⟨rfl, rfl⟩ | cases h

theorem canTrap_aluSignalRW (funct3 : BitVec 3) (funct7 : BitVec 7) :
    canTrap (aluSignalRW funct3 funct7) = true →
      (funct3 = 0b101#3 ∨ funct3 = 0b110#3 ∨ funct3 = 0b111#3) ∧ funct7 = 0b0000001#7 := by
  intro h
  unfold aluSignalRW at h
  split at h <;> first | exact ⟨.inl rfl, rfl⟩ | exact ⟨.inr (.inl rfl), rfl⟩ |
    exact ⟨.inr (.inr rfl), rfl⟩ | cases h

theorem canTrap_aluSignalI (funct3 : BitVec 3) (funct7 : BitVec 7) :
    canTrap (aluSignalI funct3 funct7) = false := by
  unfold aluSignalI
  split <;> first | rfl | (split <;> rfl)

theorem canTrap_aluSignalIW (funct3 : BitVec 3) (funct7 : BitVec 7) :
    canTrap (aluSignalIW funct3 funct7) = false := by
  unfold aluSignalIW
  split <;> rfl

theorem canTrap_aluSignalB (funct3 : BitVec 3) : canTrap (aluSignalB funct3) = false := by
  unfold aluSignalB
  split <;> rfl

theorem canTrap_aluSignalFD (funct3 : BitVec 3) (funct5 : BitVec 5) (funct7 : BitVec 7) :
    canTrap (aluSignalFD funct3 funct5 funct7) = false := by
  unfold aluSignalFD ofFunct3 ofConversion
  split <;> first | rfl | (split <;> rfl)

/-- REM, and the three W forms whose guard tests the whole divisor. -/
theorem canTrap_getAluSignal {w : Instr} (h : canTrap (getAluSignal w) = true) :
    w.funct7 = 0b0000001#7 ∧ (w.opcode = 0b0110011#7 ∧ w.funct3 = 0b110#3 ∨
      w.opcode = 0b0111011#7 ∧ (w.funct3 = 0b101#3 ∨ w.funct3 = 0b110#3 ∨ w.funct3 = 0b111#3)) := by
  by_cases hR : w.opcode = 0b0110011#7
  · have hsignal : getAluSignal w = aluSignalR w.funct3 w.funct7 := by
      simp only [getAluSignal, hR]
    obtain ⟨hfunct3, hfunct7⟩ := canTrap_aluSignalR _ _ (hsignal ▸ h)
    exact ⟨hfunct7, .inl ⟨hR, hfunct3⟩⟩
  · by_cases hRW : w.opcode = 0b0111011#7
    · have hsignal : getAluSignal w = aluSignalRW w.funct3 w.funct7 := by
        simp only [getAluSignal, hRW]
      obtain ⟨hfunct3, hfunct7⟩ := canTrap_aluSignalRW _ _ (hsignal ▸ h)
      exact ⟨hfunct7, .inr ⟨hRW, hfunct3⟩⟩
    · have hother : canTrap (getAluSignal w) = false := by
        unfold getAluSignal
        split <;> first | contradiction | exact canTrap_aluSignalI _ _ |
          exact canTrap_aluSignalIW _ _ | exact canTrap_aluSignalB _ |
          exact canTrap_aluSignalFD _ _ _ | (split <;> rfl) | rfl
      rw [hother] at h
      cases h

end ControlUnit

theorem Alu.canTrap_of_trapping {op : AluOp} {a b : Word} (h : Alu.Trapping op a b) :
    ControlUnit.canTrap op = true := by
  cases op <;> first | rfl | exact h.elim

/-- The instruction words and register files whose division the host traps on. -/
def TrapsHost (w : Instr) (r : RegisterFile) : Prop :=
  let a := r.readGpr w.rs1
  let b := r.readGpr w.rs2
  let a32 : BitVec 32 := a.setWidth 32
  let b32 : BitVec 32 := b.setWidth 32
  w.funct7 = 0b0000001#7 ∧
    (w.opcode = 0b0110011#7 ∧ w.funct3 = 0b110#3 ∧ a = BitVec.intMin 64 ∧ b = -1 ∨
      w.opcode = 0b0111011#7 ∧ (w.funct3 = 0b101#3 ∨ w.funct3 = 0b110#3 ∨ w.funct3 = 0b111#3) ∧
        b ≠ 0 ∧ b32 = 0 ∨
      w.opcode = 0b0111011#7 ∧ w.funct3 = 0b110#3 ∧ a32 = BitVec.intMin 32 ∧ b32 = -1)

/-- The arithmetic that a word asks for is defined. -/
def Alu.DefinedOn (w : Instr) (r : RegisterFile) : Prop :=
  Alu.DivisionDefined (ControlUnit.getAluSignal w) (r.readGpr w.rs1) (IntegerCycle.operand r w)

theorem operand_of_register {w : Instr} (h : w.opcode = 0b0110011#7 ∨ w.opcode = 0b0111011#7)
    (r : RegisterFile) : IntegerCycle.operand r w = r.readGpr w.rs2 := by
  rcases h with h | h <;>
    simp only [IntegerCycle.operand, ControlUnit.setControlSignals, h] <;> rfl

section

variable {w : Instr} (hfunct7 : w.funct7 = 0b0000001#7)
include hfunct7

theorem getAluSignal_rem (hop : w.opcode = 0b0110011#7) (hfunct3 : w.funct3 = 0b110#3) :
    ControlUnit.getAluSignal w = .kRem := by
  simp only [ControlUnit.getAluSignal, hop, ControlUnit.aluSignalR, hfunct3, hfunct7]

theorem getAluSignal_divuw (hop : w.opcode = 0b0111011#7) (hfunct3 : w.funct3 = 0b101#3) :
    ControlUnit.getAluSignal w = .kDivuw := by
  simp only [ControlUnit.getAluSignal, hop, ControlUnit.aluSignalRW, hfunct3, hfunct7]

theorem getAluSignal_remw (hop : w.opcode = 0b0111011#7) (hfunct3 : w.funct3 = 0b110#3) :
    ControlUnit.getAluSignal w = .kRemw := by
  simp only [ControlUnit.getAluSignal, hop, ControlUnit.aluSignalRW, hfunct3, hfunct7]

theorem getAluSignal_remuw (hop : w.opcode = 0b0111011#7) (hfunct3 : w.funct3 = 0b111#3) :
    ControlUnit.getAluSignal w = .kRemuw := by
  simp only [ControlUnit.getAluSignal, hop, ControlUnit.aluSignalRW, hfunct3, hfunct7]

end

theorem trapping_iff (w : Instr) (r : RegisterFile) :
    Alu.Trapping (ControlUnit.getAluSignal w) (r.readGpr w.rs1) (IntegerCycle.operand r w) ↔
      TrapsHost w r := by
  constructor
  · intro h
    obtain ⟨hfunct7, ⟨hop, hfunct3⟩ | ⟨hop, hfunct3⟩⟩ :=
      ControlUnit.canTrap_getAluSignal (Alu.canTrap_of_trapping h)
    · rw [operand_of_register (.inl hop), getAluSignal_rem hfunct7 hop hfunct3] at h
      exact ⟨hfunct7, .inl ⟨hop, hfunct3, h.1, h.2⟩⟩
    · rw [operand_of_register (.inr hop)] at h
      rcases hfunct3 with hfunct3 | hfunct3 | hfunct3
      · rw [getAluSignal_divuw hfunct7 hop hfunct3] at h
        exact ⟨hfunct7, .inr (.inl ⟨hop, .inl hfunct3, h.1, h.2⟩)⟩
      · rw [getAluSignal_remw hfunct7 hop hfunct3] at h
        rcases h with h | h
        · exact ⟨hfunct7, .inr (.inl ⟨hop, .inr (.inl hfunct3), h.1, h.2⟩)⟩
        · exact ⟨hfunct7, .inr (.inr ⟨hop, hfunct3, h.1, h.2⟩)⟩
      · rw [getAluSignal_remuw hfunct7 hop hfunct3] at h
        exact ⟨hfunct7, .inr (.inl ⟨hop, .inr (.inr hfunct3), h.1, h.2⟩)⟩
  · rintro ⟨hfunct7, ⟨hop, hfunct3, h⟩ | ⟨hop, hfunct3, h⟩ | ⟨hop, hfunct3, h⟩⟩
    · rw [operand_of_register (.inl hop), getAluSignal_rem hfunct7 hop hfunct3]
      exact h
    · rw [operand_of_register (.inr hop)]
      rcases hfunct3 with hfunct3 | hfunct3 | hfunct3
      · rw [getAluSignal_divuw hfunct7 hop hfunct3]
        exact h
      · rw [getAluSignal_remw hfunct7 hop hfunct3]
        exact .inl h
      · rw [getAluSignal_remuw hfunct7 hop hfunct3]
        exact h
    · rw [operand_of_register (.inr hop), getAluSignal_remw hfunct7 hop hfunct3]
      exact .inr h

theorem executeInteger_avoids {c : Core}
    (h : ¬ TrapsHost c.currentInstruction c.registers)
    (hcontrol : c.controlUnit = .setControlSignals c.currentInstruction) :
    Loop.Avoids Fault.divisionTrap c.executeInteger := by
  refine .bind ?_ fun _ => .ok _
  rw [hcontrol]
  exact Alu.execute_avoids (mt (trapping_iff _ _).mp h)

theorem execute_avoids {fpu : Fpu} {c : Core} (h : ¬ TrapsHost c.currentInstruction c.registers)
    (hcontrol : c.controlUnit = .setControlSignals c.currentInstruction) :
    Loop.Avoids Fault.divisionTrap (c.execute fpu) :=
  .ite c.handleSyscall_avoids (.ite (.ok _) (.ite (.ok _) (.ite (.ok _)
    (.bind (executeInteger_avoids h hcontrol) fun _ => .ok _))))

/-- A cycle on any other word does not trap the host. -/
theorem fetchCycle_avoids {fpu : Fpu} {c : Core} {w : Instr}
    (hw : c.memory.readWord c.programCounter = .ok w) (h : ¬ TrapsHost w c.registers) :
    Loop.Avoids Fault.divisionTrap (c.fetchCycle fpu) := by
  have hfetch : c.fetch = .ok
      { c with currentInstruction := w, programCounter := c.programCounter + 4 } := by
    rw [Core.fetch, hw]
    rfl
  intro hfault
  rw [Core.fetchCycle, hfetch, Loop.bind_ok] at hfault
  rcases Loop.bind_eq_error hfault with hdecode | ⟨c₁, hdecode, hrest⟩
  · exact Core.decode_avoids _ hdecode
  · have hframe := decode_frame hdecode
    have hexecute : Loop.Avoids Fault.divisionTrap (c₁.execute fpu) := by
      rw [hframe]
      exact execute_avoids h rfl
    exact Loop.Avoids.bind hexecute (fun r => .bind (r.1.writeMemory_avoids) fun _ => .ok _) hrest

/-- The arithmetic unit divides within what the host defines, and no cycle traps the host,
exactly on the words and register files that `TrapsHost` leaves out. -/
theorem definedOn_iff (w : Instr) (r : RegisterFile) :
    (Alu.DefinedOn w r ∧ ∀ (fpu : Fpu) (c : Core), c.registers = r →
      c.memory.readWord c.programCounter = .ok w →
      c.fetchCycle fpu ≠ .error .divisionTrap) ↔ ¬ TrapsHost w r := by
  have hdefined : Alu.DefinedOn w r ↔ ¬ TrapsHost w r :=
    (Alu.divisionDefined_iff _ _ _).trans (not_congr (trapping_iff w r))
  constructor
  · exact fun h => hdefined.mp h.1
  · intro h
    refine ⟨hdefined.mpr h, fun fpu c hr hw => fetchCycle_avoids hw ?_⟩
    rw [hr]
    exact h

/-- `rem x3, x1, x2` of the least doubleword by minus one. -/
theorem not_definedOn_rem : ¬ ∀ w r, Alu.DefinedOn w r := by
  intro h
  refine (Alu.divisionDefined_iff _ _ _).mp (h 0x0220E1B3#32
    ((RegisterFile.reset.writeGpr 1 (BitVec.intMin 64)).writeGpr 2 (-1))) ?_
  exact ⟨by decide, by decide⟩

end RiscvSim
