import Mathlib.Data.BitVec

/-! Machine words, the ways a command can end abnormally, and arrays with
checked indices. -/

namespace RiscvSim

abbrev Byte := BitVec 8
abbrev Instr := BitVec 32
abbrev Word := BitVec 64

/-- Ends of the simulator process inside a command. An exception escapes from
the VM thread, so no later command sees the state that raised it. -/
inductive Fault where
  /-- `std::out_of_range` of the memory. -/
  | memoryOutOfRange
  /-- `std::out_of_range` of the register file. -/
  | invalidRegister
  /-- An index outside one of the unit's arrays. -/
  | arrayIndex
  /-- A trapping integer division of the host. -/
  | divisionTrap
  /-- `exit(0)` of the exit system call. -/
  | exited
  /-- A read system call that waits for input that never comes. -/
  | blocked
  /-- A stall loop that outlived its budget; `drain_ne_stuck` excludes it. -/
  | stuck
  deriving DecidableEq, Repr

def readAt {α : Type} {n : Nat} (v : Vector α n) : Int → Except Fault α
  | .ofNat i => match v[i]? with
    | some x => .ok x
    | none => .error .arrayIndex
  | .negSucc _ => .error .arrayIndex

def writeAt {α : Type} {n : Nat} (v : Vector α n) (i : Int) (x : α) :
    Except Fault (Vector α n) :=
  if 0 ≤ i ∧ i < n then .ok (v.setIfInBounds i.toNat x) else .error .arrayIndex

theorem readAt_ofNat {α : Type} {n i : Nat} (v : Vector α n) (h : i < n) :
    readAt v (i : Int) = .ok v[i] := by
  change (match v[i]? with | some x => Except.ok x | none => .error Fault.arrayIndex) = _
  rw [Vector.getElem?_eq_getElem h]

theorem writeAt_ofNat {α : Type} {n i : Nat} (v : Vector α n) (x : α) (h : i < n) :
    writeAt v (i : Int) x = .ok (v.setIfInBounds i x) := by
  simp only [writeAt, Int.toNat_natCast]
  rw [if_pos (by omega)]

end RiscvSim
