import RiscvSim.Recorded
import RiscvSim.Stall
import RiscvSim.Timeline

/-! The deltas of plain instructions: a step pushes a delta that leads from the
machine before it to the machine after it, and undo and redo follow it. -/

namespace RiscvSim

/-- The delta leads from `s` to `t` and back. -/
structure Linked (d : StepDelta) (s t : Arch) : Prop where
  custom : d.customInstrExecuted = .none
  oldPc : d.oldPc = s.programCounter
  newPc : d.newPc = t.programCounter
  registers : RegistersLinked d.registerChanges s.registers t.registers
  memory : MemoryLinked d.memoryChanges s.memory t.memory
  instructionsRetired : t.instructionsRetired = s.instructionsRetired + 1
  cycleS : t.cycleS = s.cycleS + 1

namespace Vm

/-- No change is waiting in the current delta. -/
structure NoChanges (v : Vm) : Prop where
  register : v.currentDelta.registerChanges = []
  memory : v.currentDelta.memoryChanges = []

/-- The next instruction is a plain word. -/
def AtPlainWord (v : Vm) : Prop :=
  ∃ w, v.core.memory.readWord v.core.programCounter = .ok w ∧ PlainWord w

/-- What one executed instruction does to the history. -/
structure Pushed (v v' : Vm) (d : StepDelta) : Prop where
  undoStack : v'.undoStack = d :: v.undoStack
  redoStack : v'.redoStack = []
  noChanges : v'.NoChanges
  programSize : v'.programSize = v.programSize
  breakpoints : v'.breakpoints = v.breakpoints
  linked : Linked d v.core.arch v'.core.arch
  bigmul : v'.core.bigmul = v.core.bigmul
  notBusy : v'.core.busy = false

theorem instruction_pushed {fpu : Fpu} {v v₁ v₂ : Vm} (hnone : v.NoChanges) (hat : v.AtPlainWord)
    (hpreview : v.preview = .ok v₁) (hexec : v₁.executeInstruction fpu = .ok v₂) :
    ∃ d, Pushed v v₂.commit d := by
  obtain ⟨w, hw, hplain⟩ := hat
  obtain ⟨w', hw', rfl⟩ := preview_eq_ok hpreview
  obtain rfl : w = w' := Except.ok.inj (hw.symm.trans hw')
  obtain ⟨v₃, hfetch, hdrain⟩ := Loop.bind_eq_ok hexec
  obtain ⟨changes, hcycle, hv₃⟩ := fetchCycle_eq_ok hfetch
  have hlinked := fetchCycle_linked hw hplain hcycle
  rw [drains_of_not_busy hlinked.notBusy] at hdrain
  obtain rfl := Except.ok.inj hdrain
  have hnone' : (v.noteState w).NoChanges := ⟨hnone.register, hnone.memory⟩
  have hregister : v₃.currentDelta.registerChanges = changes.registerChanges := by
    rw [hv₃]
    simp only [StepDelta.record, hnone'.register, List.nil_append]
  have hmemory : v₃.currentDelta.memoryChanges = changes.memoryChanges := by
    rw [hv₃]
    simp only [StepDelta.record, hnone'.memory, List.nil_append]
  have hcustom : v₃.currentDelta.customInstrExecuted = .none := by
    rw [hv₃]
    simp only [noteState, if_neg hplain.notLdbm, if_neg hplain.notBigmul]
    rfl
  have hold : v₃.currentDelta.oldPc = v.core.programCounter := by rw [hv₃]; rfl
  exact ⟨{ v₃.currentDelta with newPc := v₃.core.programCounter },
    { undoStack := by rw [hv₃]; rfl
      redoStack := rfl
      noChanges := ⟨rfl, rfl⟩
      programSize := by rw [hv₃]; rfl
      breakpoints := by rw [hv₃]; rfl
      linked :=
        { custom := hcustom
          oldPc := hold
          newPc := rfl
          registers := hregister ▸ hlinked.registers
          memory := hmemory ▸ hlinked.memory
          instructionsRetired := hlinked.instructionsRetired
          cycleS := hlinked.cycleS }
      bigmul := hlinked.bigmul
      notBusy := hlinked.notBusy }⟩

theorem step_pushed {fpu : Fpu} {v v' : Vm} (hnone : v.NoChanges) (hat : v.AtPlainWord)
    (hpc : v.core.programCounter < v.programSize) (h : v.step fpu = .ok v') :
    ∃ d, Pushed v v' d := by
  obtain ⟨v₁, v₂, hpreview, hexec, rfl⟩ := step_eq_ok h hpc
  exact instruction_pushed hnone hat hpreview hexec

theorem undo_cons {v : Vm} {d : StepDelta} {ds : List StepDelta} {core : Core}
    (hstack : v.undoStack = d :: ds)
    (h : v.core.applyDelta d RegisterChange.oldValue MemoryChange.oldBytes d.oldPc = .ok core) :
    v.undo = .ok { v with
      core := { core with
        instructionsRetired := core.instructionsRetired - 1, cycleS := core.cycleS - 1 }
      undoStack := ds
      redoStack := d :: v.redoStack } := by
  unfold undo
  rw [hstack]
  dsimp only
  rw [h]
  rfl

theorem redo_cons {v : Vm} {d : StepDelta} {ds : List StepDelta} {core : Core}
    (hstack : v.redoStack = d :: ds)
    (h : v.core.applyDelta d RegisterChange.newValue MemoryChange.newBytes d.newPc = .ok core) :
    v.redo = .ok { v with
      core := { core with
        instructionsRetired := core.instructionsRetired + 1, cycleS := core.cycleS + 1 }
      undoStack := d :: v.undoStack
      redoStack := ds } := by
  unfold redo
  rw [hstack]
  dsimp only
  rw [h]
  rfl

/-- Undo follows the newest delta back. -/
theorem undo_linked {v : Vm} {d : StepDelta} {ds : List StepDelta} {s : Arch}
    (hstack : v.undoStack = d :: ds) (hlink : Linked d s v.core.arch) :
    ∃ v', v.undo = .ok v' ∧ v'.core.arch = s ∧ v'.core.bigmul = v.core.bigmul ∧
      v' = { v with core := v'.core, undoStack := ds, redoStack := d :: v.redoStack } := by
  have happly : v.core.applyDelta d RegisterChange.oldValue MemoryChange.oldBytes d.oldPc =
      .ok { v.core with
        registers := s.registers, memory := s.memory, programCounter := s.programCounter } := by
    have hback : Core.writeBytesBack v.core.memory MemoryChange.oldBytes d.memoryChanges =
        .ok s.memory := hlink.memory.back
    have hregisters : Core.writeRegisters v.core.registers RegisterChange.oldValue
        d.registerChanges = s.registers := hlink.registers.back
    unfold Core.applyDelta
    rw [if_pos hlink.custom, hback, hregisters, hlink.oldPc]
    rfl
  refine ⟨_, undo_cons hstack happly, ?_, rfl, rfl⟩
  have hretired : v.core.instructionsRetired = s.instructionsRetired + 1 :=
    hlink.instructionsRetired
  have hcycle : v.core.cycleS = s.cycleS + 1 := hlink.cycleS
  simp only [Core.arch, hretired, hcycle, BitVec.add_sub_cancel]

/-- Redo follows the delta undone last. -/
theorem redo_linked {v : Vm} {d : StepDelta} {ds : List StepDelta} {t : Arch}
    (hstack : v.redoStack = d :: ds) (hlink : Linked d v.core.arch t) :
    ∃ v', v.redo = .ok v' ∧ v'.core.arch = t ∧ v'.core.bigmul = v.core.bigmul ∧
      v' = { v with core := v'.core, undoStack := d :: v.undoStack, redoStack := ds } := by
  have happly : v.core.applyDelta d RegisterChange.newValue MemoryChange.newBytes d.newPc =
      .ok { v.core with
        registers := t.registers, memory := t.memory, programCounter := t.programCounter } := by
    have hforth : Core.writeBytesBack v.core.memory MemoryChange.newBytes d.memoryChanges =
        .ok t.memory := hlink.memory.forth
    have hregisters : Core.writeRegisters v.core.registers RegisterChange.newValue
        d.registerChanges = t.registers := hlink.registers.forth
    unfold Core.applyDelta
    rw [if_pos hlink.custom, hforth, hregisters, hlink.newPc]
    rfl
  refine ⟨_, redo_cons hstack happly, ?_, rfl, rfl⟩
  have hretired : t.instructionsRetired = v.core.instructionsRetired + 1 :=
    hlink.instructionsRetired
  have hcycle : t.cycleS = v.core.cycleS + 1 := hlink.cycleS
  simp only [Core.arch, ← hretired, ← hcycle]

end Vm

end RiscvSim
