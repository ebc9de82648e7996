import RiscvSim.Vm

/-! Sequences of commands to the virtual machine. -/

namespace RiscvSim

/-- The commands; the two runs are cut off by a stop request after a number of turns. -/
inductive Command where
  | run (turns : Nat)
  | debugRun (turns : Nat)
  | step
  | undo
  | redo
  | reset
  deriving DecidableEq, Repr

/-- The architectural state. -/
@[ext] structure Arch where
  programCounter : Word
  registers : RegisterFile
  memory : Memory
  instructionsRetired : BitVec 32
  cycleS : BitVec 32

def Core.arch (c : Core) : Arch :=
  ⟨c.programCounter, c.registers, c.memory, c.instructionsRetired, c.cycleS⟩

/-- The same architectural state, caches, progress and flags of the unit. -/
structure SameResult (c c' : Core) : Prop where
  arch : c.arch = c'.arch
  bigmul : c.bigmul.toBigmulState = c'.bigmul.toBigmulState

theorem SameResult.refl (c : Core) : SameResult c c := ⟨rfl, rfl⟩

namespace Vm

/-- The word that the next fetch reads. -/
def nextWord (v : Vm) : Except Fault Instr := v.core.memory.readWord v.core.programCounter

/-- The next instruction is an LDBM or a BIGMUL. -/
def AtCustom (v : Vm) : Prop :=
  ∃ w, v.nextWord = .ok w ∧ (Instr.opcode w = 0b0101010#7 ∨ Instr.opcode w = 0b0111111#7)

def exec (fpu : Fpu) (limit : Word) (v : Vm) : Command → Except Fault Vm
  | .run turns => do return (Loop.final (← v.run fpu limit turns)).1
  | .debugRun turns => do return (Loop.final (← v.debugRun fpu limit turns)).1
  | .step => v.step fpu
  | .undo => v.undo
  | .redo => v.redo
  | .reset => .ok v.reset

def execAll (fpu : Fpu) (limit : Word) : List Command → Vm → Except Fault Vm
  | [], v => .ok v
  | command :: commands, v => do execAll fpu limit commands (← v.exec fpu limit command)

theorem execAll_cons {fpu : Fpu} {limit : Word} {command : Command} {v w : Vm}
    (h : v.exec fpu limit command = .ok w) (commands : List Command) :
    execAll fpu limit (command :: commands) v = execAll fpu limit commands w := by
  rw [execAll, h, Loop.bind_ok]

theorem execAll_append {fpu : Fpu} {limit : Word} {commands : List Command} {v w : Vm}
    (h : execAll fpu limit commands v = .ok w) (commands' : List Command) :
    execAll fpu limit (commands ++ commands') v = execAll fpu limit commands' w := by
  induction commands generalizing v with
  | nil => exact congrArg _ (Except.ok.inj h)
  | cons command commands ih =>
    obtain ⟨u, hu, hrest⟩ := Loop.bind_eq_ok h
    rw [List.cons_append, execAll_cons hu, ih hrest]

theorem preview_eq_ok {v v' : Vm} (h : v.preview = .ok v') :
    ∃ w, v.core.memory.readWord v.core.programCounter = .ok w ∧ v' = v.noteState w := by
  obtain ⟨w, hw, h⟩ := Loop.bind_eq_ok h
  exact ⟨w, hw, (Except.ok.inj h).symm⟩

theorem preview_of_nextWord {v : Vm} {w : Instr} (h : v.nextWord = .ok w) :
    v.preview = .ok (v.noteState w) := by
  have hread : v.core.memory.readWord v.core.programCounter = .ok w := h
  rw [preview, hread]
  rfl

theorem step_eq_ok {fpu : Fpu} {v v' : Vm} (h : v.step fpu = .ok v')
    (hpc : v.core.programCounter < v.programSize) :
    ∃ v₁ v₂, v.preview = .ok v₁ ∧ v₁.executeInstruction fpu = .ok v₂ ∧ v' = v₂.commit := by
  obtain ⟨v₁, hpreview, h⟩ := Loop.bind_eq_ok h
  obtain ⟨w, -, rfl⟩ := preview_eq_ok hpreview
  rw [noteState_core, noteState_programSize, if_pos hpc] at h
  obtain ⟨v₂, hexec, h⟩ := Loop.bind_eq_ok h
  exact ⟨_, v₂, hpreview, hexec, (Except.ok.inj h).symm⟩

theorem step_eq_of_ge {fpu : Fpu} {v v' : Vm} (h : v.step fpu = .ok v')
    (hpc : ¬ v.core.programCounter < v.programSize) : v.preview = .ok v' := by
  obtain ⟨v₁, hpreview, h⟩ := Loop.bind_eq_ok h
  obtain ⟨w, -, rfl⟩ := preview_eq_ok hpreview
  rw [noteState_core, noteState_programSize, if_neg hpc] at h
  rw [hpreview]
  exact h

/-- A turn of `DebugRun` that goes round again has executed one instruction. -/
theorem debugTurn_eq_yield {fpu : Fpu} {limit : Word} {r r' : Vm × Word}
    (h : debugTurn fpu limit r = .ok (.yield r')) :
    (r.1.core.programCounter < r.1.programSize ∧ ¬ r.2 > limit ∧
      r.1.core.programCounter ∉ r.1.breakpoints) ∧
    ∃ v₁ v₂, r.1.preview = .ok v₁ ∧ v₁.executeInstruction fpu = .ok v₂ ∧
      r' = (v₂.commit, r.2 + 1) := by
  obtain ⟨v, executed⟩ := r
  unfold debugTurn at h
  dsimp only at h
  split at h
  · exact nomatch h
  split at h
  · exact nomatch h
  rename_i hpc hlimit
  obtain ⟨v₁, hpreview, h⟩ := Loop.bind_eq_ok h
  obtain ⟨w, -, rfl⟩ := preview_eq_ok hpreview
  by_cases hbreak : v.core.programCounter ∈ v.breakpoints
  · rw [noteState_core, noteState_breakpoints, if_pos hbreak] at h
    exact nomatch h
  · rw [noteState_core, noteState_breakpoints, if_neg hbreak] at h
    obtain ⟨v₂, hexec, h⟩ := Loop.bind_eq_ok h
    injection h with h
    injection h with h
    exact ⟨⟨not_not.mp hpc, hlimit, hbreak⟩, _, v₂, hpreview, hexec, h.symm⟩

/-- `DebugRun` leaves its loop without a change to the machine, or at a breakpoint. -/
theorem debugTurn_eq_done {fpu : Fpu} {limit : Word} {r r' : Vm × Word}
    (h : debugTurn fpu limit r = .ok (.done r')) :
    r' = r ∨ r' = ({ r.1 with currentDelta := .empty }, r.2) := by
  obtain ⟨v, executed⟩ := r
  unfold debugTurn at h
  dsimp only at h
  split at h
  · injection h with h
    injection h with h
    exact .inl h.symm
  split at h
  · injection h with h
    injection h with h
    exact .inl h.symm
  obtain ⟨v₁, hpreview, h⟩ := Loop.bind_eq_ok h
  obtain ⟨w, -, rfl⟩ := preview_eq_ok hpreview
  by_cases hbreak : v.core.programCounter ∈ v.breakpoints
  · rw [noteState_core, noteState_breakpoints, if_pos hbreak] at h
    injection h with h
    injection h with h
    exact .inr h.symm
  · rw [noteState_core, noteState_breakpoints, if_neg hbreak] at h
    obtain ⟨v₂, -, h⟩ := Loop.bind_eq_ok h
    exact nomatch h

/-- A turn of `Run` that goes round again has stalled or fetched. -/
theorem runTurn_eq_yield {fpu : Fpu} {limit : Word} {r r' : Vm × Word}
    (h : runTurn fpu limit r = .ok (.yield r')) :
    (r.1.core.programCounter < r.1.programSize ∧ ¬ r.2 > limit) ∧
    (r.1.core.busy = true ∧ r.1.stallCycle = .ok r'.1 ∧ r'.2 = r.2 ∨
      r.1.core.busy = false ∧ r.1.fetchCycle fpu = .ok r'.1 ∧ r'.2 = r.2 + 1) := by
  obtain ⟨v, executed⟩ := r
  unfold runTurn at h
  dsimp only at h
  split at h
  · exact nomatch h
  split at h
  · exact nomatch h
  rename_i hpc hlimit
  refine ⟨⟨not_not.mp hpc, hlimit⟩, ?_⟩
  split at h
  · rename_i hbusy
    obtain ⟨v', hv', h⟩ := Loop.bind_eq_ok h
    injection h with h
    injection h with h
    exact .inl ⟨hbusy, h ▸ hv', h ▸ rfl⟩
  · rename_i hbusy
    obtain ⟨v', hv', h⟩ := Loop.bind_eq_ok h
    injection h with h
    injection h with h
    exact .inr ⟨by simpa using hbusy, h ▸ hv', h ▸ rfl⟩

theorem runTurn_eq_done {fpu : Fpu} {limit : Word} {r r' : Vm × Word}
    (h : runTurn fpu limit r = .ok (.done r')) :
    r' = r ∧ (¬ r.1.core.programCounter < r.1.programSize ∨ r.2 > limit) := by
  obtain ⟨v, executed⟩ := r
  unfold runTurn at h
  dsimp only at h
  split at h
  · rename_i hpc
    injection h with h
    injection h with h
    exact ⟨h.symm, .inl hpc⟩
  split at h
  · rename_i hlimit
    injection h with h
    injection h with h
    exact ⟨h.symm, .inr hlimit⟩
  split at h
  · obtain ⟨v', -, h⟩ := Loop.bind_eq_ok h
    exact nomatch h
  · obtain ⟨v', -, h⟩ := Loop.bind_eq_ok h
    exact nomatch h

theorem runTurn_stall {fpu : Fpu} {limit : Word} {r : Vm × Word} {v : Vm}
    (hpc : r.1.core.programCounter < r.1.programSize) (hlimit : ¬ r.2 > limit)
    (hbusy : r.1.core.busy = true) (h : r.1.stallCycle = .ok v) :
    runTurn fpu limit r = .ok (.yield (v, r.2)) := by
  obtain ⟨w, executed⟩ := r
  simp only [runTurn]
  rw [if_neg (not_not.mpr hpc), if_neg hlimit, if_pos hbusy, h]
  rfl

theorem runTurn_fetch {fpu : Fpu} {limit : Word} {r : Vm × Word} {v : Vm}
    (hpc : r.1.core.programCounter < r.1.programSize) (hlimit : ¬ r.2 > limit)
    (hbusy : r.1.core.busy = false) (h : r.1.fetchCycle fpu = .ok v) :
    runTurn fpu limit r = .ok (.yield (v, r.2 + 1)) := by
  obtain ⟨w, executed⟩ := r
  simp only [runTurn]
  rw [if_neg (not_not.mpr hpc), if_neg hlimit, if_neg (by simp [hbusy]), h]
  rfl

theorem runTurn_end {fpu : Fpu} {limit : Word} {r : Vm × Word}
    (h : ¬ r.1.core.programCounter < r.1.programSize ∨ r.2 > limit) :
    runTurn fpu limit r = .ok (.done r) := by
  obtain ⟨w, executed⟩ := r
  simp only [runTurn]
  by_cases hpc : w.core.programCounter < w.programSize
  · rw [if_neg (not_not.mpr hpc), if_pos (h.resolve_left (not_not.mpr hpc))]
  · rw [if_pos hpc]

theorem applyDelta_eq_ok {c c' : Core} {d : StepDelta} {value : RegisterChange → Word}
    {bytes : MemoryChange → List Byte} {pc : Word}
    (h : c.applyDelta d value bytes pc = .ok c') :
    ∃ memory, Core.writeBytesBack c.memory bytes d.memoryChanges = .ok memory ∧
      c' = { c with
        bigmul := if d.customInstrExecuted = .none then c.bigmul
          else c.bigmul.restore d.bigmulState
        registers := Core.writeRegisters c.registers value d.registerChanges
        memory
        programCounter := pc } := by
  obtain ⟨memory, hmemory, h⟩ := Loop.bind_eq_ok h
  exact ⟨memory, hmemory, (Except.ok.inj h).symm⟩

theorem undo_eq_ok {v v' : Vm} {d : StepDelta} {ds : List StepDelta} (h : v.undo = .ok v')
    (hstack : v.undoStack = d :: ds) :
    ∃ c, v.core.applyDelta d RegisterChange.oldValue MemoryChange.oldBytes d.oldPc = .ok c ∧
      v' = { v with
        core := { c with
          instructionsRetired := c.instructionsRetired - 1, cycleS := c.cycleS - 1 }
        undoStack := ds
        redoStack := d :: v.redoStack } := by
  unfold undo at h
  rw [hstack] at h
  obtain ⟨c, hc, h⟩ := Loop.bind_eq_ok h
  exact ⟨c, hc, (Except.ok.inj h).symm⟩

theorem redo_eq_ok {v v' : Vm} {d : StepDelta} {ds : List StepDelta} (h : v.redo = .ok v')
    (hstack : v.redoStack = d :: ds) :
    ∃ c, v.core.applyDelta d RegisterChange.newValue MemoryChange.newBytes d.newPc = .ok c ∧
      v' = { v with
        core := { c with
          instructionsRetired := c.instructionsRetired + 1, cycleS := c.cycleS + 1 }
        undoStack := d :: v.undoStack
        redoStack := ds } := by
  unfold redo at h
  rw [hstack] at h
  obtain ⟨c, hc, h⟩ := Loop.bind_eq_ok h
  exact ⟨c, hc, (Except.ok.inj h).symm⟩

theorem undo_nil {v v' : Vm} (h : v.undo = .ok v') (hstack : v.undoStack = []) : v' = v := by
  rw [undo, hstack] at h
  exact (Except.ok.inj h).symm

theorem redo_nil {v v' : Vm} (h : v.redo = .ok v') (hstack : v.redoStack = []) : v' = v := by
  rw [redo, hstack] at h
  exact (Except.ok.inj h).symm

theorem loadProgram_eq_ok {config : Config} {program : AssembledProgram} {v v' : Vm}
    (h : v.loadProgram config program = .ok v') :
    ∃ memory programSize breakpoints,
      v' = { v with core := { v.core with memory }, programSize, breakpoints } := by
  obtain ⟨⟨memory, counter⟩, -, h⟩ := Loop.bind_eq_ok h
  obtain ⟨memory', -, h⟩ := Loop.bind_eq_ok h
  exact ⟨memory', _, _, (Except.ok.inj h).symm⟩

/-- The command, issued at the first machine, fetches an instruction at the second. -/
inductive Fetches (fpu : Fpu) (limit : Word) (v : Vm) : Command → Vm → Prop where
  | run {turns k : Nat} {w : Vm} {executed : Word} (hk : k < turns)
      (hrun : v.run fpu limit k = .ok (.yield (w, executed)))
      (hpc : w.core.programCounter < w.programSize) (hlimit : ¬ executed > limit)
      (hstall : w.core.busy = false) : Fetches fpu limit v (.run turns) w
  | debugRun {turns k : Nat} {w : Vm} {executed : Word} (hk : k < turns)
      (hrun : v.debugRun fpu limit k = .ok (.yield (w, executed)))
      (hpc : w.core.programCounter < w.programSize) (hlimit : ¬ executed > limit)
      (hbreak : w.core.programCounter ∉ w.breakpoints) : Fetches fpu limit v (.debugRun turns) w
  | step (hpc : v.core.programCounter < v.programSize) : Fetches fpu limit v .step v

end Vm

end RiscvSim
