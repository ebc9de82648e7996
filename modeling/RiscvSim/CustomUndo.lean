import RiscvSim.BusyFetch

/-! Undo and redo of LDBM and BIGMUL. The delta keeps the unit as it was before the
instruction and counts one cycle; the stall cycles and the stored product are lost. -/

namespace RiscvSim

/-- A cycle that fetches counts one cycle. -/
theorem fetchCycle_cycleS {fpu : Fpu} {c c' : Core} {changes : Changes}
    (h : c.fetchCycle fpu = .ok (c', changes)) : c'.cycleS = c.cycleS + 1 := by
  obtain ⟨w, c₁, c₂, c₃, executed, stored, -, hdecode, hexec, hmem, rfl, -⟩ :=
    fetchCycle_stages h
  have h₁ : c₁.cycleS = c.cycleS := by rw [decode_frame hdecode]
  have h₂ : c₂.cycleS = c₁.cycleS := (execute_frame hexec).cycleS
  have h₃ : c₃.cycleS = c₂.cycleS := by rw [(writeMemory_frame hmem).1]
  rw [writeBack_frame]
  dsimp only
  rw [h₃, h₂, h₁]

namespace Vm

variable {fpu : Fpu} {v v₁ v₂ v₃ : Vm}

theorem iter_stallCycle_cycleS {n : Nat} {v w : Vm} (h : Loop.iter stallCycle n v = .ok w) :
    w.core.cycleS = v.core.cycleS + BitVec.ofNat 32 n := by
  induction n generalizing v with
  | zero =>
    obtain rfl := Except.ok.inj h
    simp
  | succ n ih =>
    obtain ⟨u, hu, h⟩ := Loop.bind_eq_ok h
    rw [ih h, (stallCycle_frame hu).2.cycleS, BitVec.ofNat_add, BitVec.add_comm (BitVec.ofNat 32 n),
      BitVec.add_assoc]
    rfl

/-- A step of LDBM or BIGMUL has at least one stall cycle, and far fewer than the
counter of cycles can hold. -/
theorem step_custom_cycleS (hidle : v.core.bigmul.Idle) (hat : v.AtCustom)
    (hpc : v.core.programCounter < v.programSize) (h : v.step fpu = .ok v₁) :
    ∃ n, 0 < n ∧ n < 2 * drainBudget ∧
      v₁.core.cycleS = v.core.cycleS + 1 + BitVec.ofNat 32 n := by
  obtain ⟨w, hw, hop⟩ := hat
  obtain ⟨v₀, u, hpreview, hexec, rfl⟩ := step_eq_ok h hpc
  obtain ⟨x, -, hv₀⟩ := preview_eq_ok hpreview
  have hcore₀ : v₀.core = v.core := by rw [hv₀, noteState_core]
  obtain ⟨u₁, hfetch, hdrain⟩ := Loop.bind_eq_ok hexec
  obtain ⟨changes, hcycle, -⟩ := fetchCycle_eq_ok hfetch
  rw [hcore₀] at hcycle
  have hbusy : u₁.core.busy = true := by
    rcases hop with hop | hop
    · exact Bool.or_eq_true_iff.mpr (.inl (fetchCycle_ldbm hw hop hidle.ldbmDone hcycle))
    · exact Bool.or_eq_true_iff.mpr (.inr (fetchCycle_bigmul hw hop hidle.bigmulDone hcycle))
  obtain ⟨n, hn, hiter, hend, -⟩ := drains_eq_iter hdrain
  refine ⟨n, Nat.pos_of_ne_zero ?_, hn, ?_⟩
  · rintro rfl
    obtain rfl := Except.ok.inj hiter
    exact nomatch hbusy.symm.trans hend
  · change u.core.cycleS = _
    rw [iter_stallCycle_cycleS hiter, fetchCycle_cycleS hcycle]

/-- What a step of LDBM or BIGMUL pushes. -/
theorem step_custom_delta (hat : v.AtCustom) (hpc : v.core.programCounter < v.programSize)
    (h : v.step fpu = .ok v₁) :
    ∃ d, v₁.undoStack = d :: v.undoStack ∧ d.customInstrExecuted ≠ .none ∧
      d.bigmulState = v.core.bigmul.toBigmulState ∧ d.oldPc = v.core.programCounter ∧
      d.newPc = v₁.core.programCounter := by
  obtain ⟨w, hw, hop⟩ := hat
  obtain ⟨v₀, u, hpreview, hexec, rfl⟩ := step_eq_ok h hpc
  obtain ⟨x, hx, rfl⟩ := preview_eq_ok hpreview
  obtain rfl : w = x := Except.ok.inj (hw.symm.trans hx)
  have hsame := executeInstruction_history hexec
  refine ⟨{ u.currentDelta with newPc := u.core.programCounter }, ?_, ?_, hsame.bigmulState,
    hsame.oldPc, rfl⟩
  · rw [commit, hsame.undoStack]
    rfl
  · change u.currentDelta.customInstrExecuted ≠ _
    rw [hsame.custom]
    rcases hop with hop | hop
    · simp [noteState, hop]
    · simp [noteState, hop]

/-- The architectural state and the whole unit, as far as a program can see them. -/
structure Restored (v v' : Vm) : Prop where
  result : SameResult v'.core v.core
  sizeOfOperand : v'.core.bigmul.sizeOfOperand = v.core.bigmul.sizeOfOperand

/-- Step and Undo restore the machine, and Redo restores the machine after the Step. -/
def UndoRedoExact (fpu : Fpu) (v : Vm) : Prop :=
  ∃ v₁ v₂ v₃, v.step fpu = .ok v₁ ∧ v₁.undo = .ok v₂ ∧ Restored v v₂ ∧
    v₂.redo = .ok v₃ ∧ Restored v₁ v₃

/-- Undo after a step of LDBM or BIGMUL restores the program counter and the state of
the unit, and leaves the stall cycles counted. -/
theorem undo_custom (hidle : v.core.bigmul.Idle) (hat : v.AtCustom)
    (hpc : v.core.programCounter < v.programSize) (hstep : v.step fpu = .ok v₁)
    (hundo : v₁.undo = .ok v₂) :
    v₂.core.programCounter = v.core.programCounter ∧
      v₂.core.bigmul.toBigmulState = v.core.bigmul.toBigmulState ∧
      ∃ n, 0 < n ∧ n < 2 * drainBudget ∧
        v₂.core.cycleS = v.core.cycleS + BitVec.ofNat 32 n := by
  obtain ⟨d, hstack, hcustom, hstate, hold, -⟩ := step_custom_delta hat hpc hstep
  obtain ⟨n, hpos, hlt, hcycle⟩ := step_custom_cycleS hidle hat hpc hstep
  obtain ⟨c, hc, rfl⟩ := undo_eq_ok hundo hstack
  obtain ⟨memory, -, rfl⟩ := applyDelta_eq_ok hc
  refine ⟨hold, ?_, n, hpos, hlt, ?_⟩
  · simp only [if_neg hcustom]
    exact hstate
  · change v₁.core.cycleS - 1 = _
    rw [hcycle, BitVec.add_assoc, BitVec.add_comm 1, ← BitVec.add_assoc, BitVec.add_sub_cancel]

/-- Redo puts the unit back to where it was before the instruction, not after it. -/
theorem redo_custom (hat : v.AtCustom)
    (hpc : v.core.programCounter < v.programSize) (hstep : v.step fpu = .ok v₁)
    (hundo : v₁.undo = .ok v₂) (hredo : v₂.redo = .ok v₃) :
    v₃.core.programCounter = v₁.core.programCounter ∧
      v₃.core.bigmul.toBigmulState = v.core.bigmul.toBigmulState := by
  obtain ⟨d, hstack, hcustom, hstate, -, hnew⟩ := step_custom_delta hat hpc hstep
  obtain ⟨c, hc, rfl⟩ := undo_eq_ok hundo hstack
  obtain ⟨c', hc', rfl⟩ := redo_eq_ok hredo rfl
  obtain ⟨memory, -, rfl⟩ := applyDelta_eq_ok hc'
  refine ⟨hnew, ?_⟩
  simp only [if_neg hcustom]
  exact hstate

/-- No step of LDBM or BIGMUL is undone exactly. -/
theorem not_undoRedoExact (hidle : v.core.bigmul.Idle) (hat : v.AtCustom)
    (hpc : v.core.programCounter < v.programSize) : ¬ UndoRedoExact fpu v := by
  rintro ⟨v₁, v₂, v₃, hstep, hundo, hrestored, -, -⟩
  obtain ⟨-, -, n, hpos, hlt, hcycle⟩ := undo_custom hidle hat hpc hstep hundo
  have hsame : v₂.core.cycleS = v.core.cycleS := congrArg Arch.cycleS hrestored.result.arch
  rw [hcycle] at hsame
  have hzero : (BitVec.ofNat 32 n).toNat = (0 : BitVec 32).toNat := by
    congr 1
    rw [← BitVec.add_right_inj v.core.cycleS, hsame]
    simp
  rw [BitVec.toNat_ofNat] at hzero
  have hbudget : drainBudget = 16384 := rfl
  rw [Nat.mod_eq_of_lt (by omega)] at hzero
  exact absurd hzero (by simpa using Nat.pos_iff_ne_zero.mp hpos)

/-- `ldbm` of the operands at `x1` and `x4`. -/
def loadOnly : AssembledProgram := ⟨[0b0000000_00100_00001_000_00000_0101010], []⟩

/-- The counter of cycles before a step of the LDBM, after it and after its undo. -/
theorem loadOnly_cycleS :
    ((initial 0x1000).reset.loadProgram ⟨0x100, 100⟩ loadOnly >>= fun v₀ =>
      v₀.step .zero >>= fun v₁ => v₁.undo >>= fun v₂ =>
      .ok (v₀.nextWord, decide (v₀.core.programCounter < v₀.programSize),
        [v₀, v₁, v₂].map fun v => v.core.cycleS)) =
      .ok (.ok 0b0000000_00100_00001_000_00000_0101010, true, [0, 16, 15]) := by
  decide +kernel

theorem undo_not_exact_of_ldbm :
    ¬ ∀ v : Vm, v.core.bigmul.Idle → v.AtCustom → v.core.programCounter < v.programSize →
      (∃ v₁, v.step .zero = .ok v₁) → UndoRedoExact .zero v := by
  intro hexact
  obtain ⟨v₀, hload, h⟩ := Loop.bind_eq_ok loadOnly_cycleS
  obtain ⟨v₁, hstep, h⟩ := Loop.bind_eq_ok h
  obtain ⟨v₂, hundo, h⟩ := Loop.bind_eq_ok h
  injection h with h
  simp only [List.map_cons, List.map_nil, Prod.mk.injEq, List.cons.injEq, decide_eq_true_eq] at h
  obtain ⟨hword, hpc, hcycle₀, -, hcycle₂, -⟩ := h
  have hidle : v₀.core.bigmul.Idle := by
    obtain ⟨memory, programSize, breakpoints, rfl⟩ := loadProgram_eq_ok hload
    exact ⟨rfl, rfl⟩
  obtain ⟨v₁', v₂', v₃, hstep', hundo', hrestored, -⟩ :=
    hexact v₀ hidle ⟨_, hword, .inl (by decide)⟩ hpc ⟨v₁, hstep⟩
  obtain rfl := Except.ok.inj (hstep.symm.trans hstep')
  obtain rfl := Except.ok.inj (hundo.symm.trans hundo')
  have hsame : v₂.core.cycleS = v₀.core.cycleS := congrArg Arch.cycleS hrestored.result.arch
  rw [hcycle₀, hcycle₂] at hsame
  exact absurd hsame (by decide)

/-- The LDBM of the program just loaded. -/
theorem not_undoRedoExact_ldbm :
    ∃ v₀, (initial 0x1000).reset.loadProgram ⟨0x100, 100⟩ loadOnly = .ok v₀ ∧
      ¬ UndoRedoExact .zero v₀ := by
  obtain ⟨v₀, hload, h⟩ := Loop.bind_eq_ok loadOnly_cycleS
  obtain ⟨v₁, hstep, h⟩ := Loop.bind_eq_ok h
  obtain ⟨v₂, hundo, h⟩ := Loop.bind_eq_ok h
  injection h with h
  simp only [Prod.mk.injEq, decide_eq_true_eq] at h
  obtain ⟨hword, hpc, -⟩ := h
  have hidle : v₀.core.bigmul.Idle := by
    obtain ⟨memory, programSize, breakpoints, rfl⟩ := loadProgram_eq_ok hload
    exact ⟨rfl, rfl⟩
  exact ⟨v₀, hload, not_undoRedoExact hidle ⟨_, hword, .inl (by decide)⟩ hpc⟩

end Vm

end RiscvSim
