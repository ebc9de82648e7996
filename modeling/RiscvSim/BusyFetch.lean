import Mathlib.Logic.Relation
import RiscvSim.Stall

/-! Fetching with a busy unit. `Step` and `DebugRun` do not look at the stall condition
before they fetch; when they are issued while it is false, every fetch is idle. -/

namespace RiscvSim

/-- Neither operation of the unit is in progress. -/
structure BigmulState.Idle (u : BigmulState) : Prop where
  ldbmDone : u.ldbmDone = true
  bigmulDone : u.bigmulDone = true

/-- An unfinished operation is the one that the control unit has started. -/
structure Core.Started (c : Core) : Prop where
  ldbm : c.bigmul.ldbmDone = false → c.controlUnit.ldbmStart = true
  bigmul : c.bigmul.bigmulDone = false → c.controlUnit.bigmulStart = true

theorem Core.Started.idle {c : Core} (h : c.Started) (hbusy : c.busy = false) :
    c.bigmul.Idle := by
  obtain ⟨hldbm, hbigmul⟩ := Bool.or_eq_false_iff.mp hbusy
  constructor
  · by_contra hdone
    rw [Bool.not_eq_true] at hdone
    simp [Core.ldbmBusy, hdone, h.ldbm hdone] at hldbm
  · by_contra hdone
    rw [Bool.not_eq_true] at hdone
    simp [Core.bigmulBusy, hdone, h.bigmul hdone] at hbigmul

theorem Core.Started.of_idle {c : Core} (h : c.bigmul.Idle) : c.Started :=
  ⟨fun hd => absurd (h.ldbmDone.symm.trans hd) (by decide),
    fun hd => absurd (h.bigmulDone.symm.trans hd) (by decide)⟩

theorem Core.Started.progress {c c' : Core} (h : c.Started)
    (hcontrol : c'.controlUnit = c.controlUnit) (hunit : UnitProgress c.bigmul c'.bigmul) :
    c'.Started := by
  constructor
  · intro hdone
    rw [hcontrol]
    refine h.ldbm (Bool.not_eq_true _ ▸ fun hd => ?_)
    rw [hunit.ldbmDone hd] at hdone
    exact nomatch hdone
  · intro hdone
    rw [hcontrol]
    refine h.bigmul (Bool.not_eq_true _ ▸ fun hd => ?_)
    rw [hunit.bigmulDone hd] at hdone
    exact nomatch hdone

/-- Decoding with an idle unit leaves at most the operation it started. -/
theorem decode_started {c c' : Core} (hidle : c.bigmul.Idle) (h : c.decode = .ok c') :
    c'.Started := by
  unfold Core.decode at h
  dsimp only at h
  split at h
  · rename_i hldbm
    obtain ⟨a, -, h⟩ := Loop.bind_eq_ok h
    obtain ⟨b, -, h⟩ := Loop.bind_eq_ok h
    obtain rfl := Except.ok.inj h
    exact ⟨fun _ => hldbm.2.1, fun hd => absurd (hidle.bigmulDone.symm.trans hd) (by decide)⟩
  · split at h
    · rename_i hbigmul
      obtain ⟨a, -, h⟩ := Loop.bind_eq_ok h
      obtain ⟨b, -, h⟩ := Loop.bind_eq_ok h
      obtain rfl := Except.ok.inj h
      exact ⟨fun hd => absurd (hidle.ldbmDone.symm.trans hd) (by decide), fun _ => hbigmul.2.1⟩
    · obtain rfl := Except.ok.inj h
      exact .of_idle hidle

theorem fetchCycle_started {fpu : Fpu} {c c' : Core} {changes : Changes}
    (hidle : c.bigmul.Idle) (h : c.fetchCycle fpu = .ok (c', changes)) : c'.Started := by
  obtain ⟨w, c₁, c₂, c₃, executed, stored, -, hdecode, hexec, hmem, rfl, -⟩ :=
    fetchCycle_stages h
  have hframe := execute_frame hexec
  obtain ⟨hc₃, hprogress⟩ := writeMemory_frame hmem
  have hcontrol₃ : c₃.controlUnit = c₂.controlUnit := by rw [hc₃]
  have h₁ : c₁.Started := decode_started (by exact hidle) hdecode
  have h₂ : c₂.Started := h₁.progress hframe.controlUnit (hframe.bigmul ▸ .refl _)
  have h₃ : c₃.Started := h₂.progress hcontrol₃ hprogress
  rw [writeBack_frame]
  exact ⟨h₃.ldbm, h₃.bigmul⟩

namespace Vm

/-- One instruction with its stall cycles goes from an idle unit to an idle unit. -/
theorem executeInstruction_idle {fpu : Fpu} {v v' : Vm} (hidle : v.core.bigmul.Idle)
    (h : v.executeInstruction fpu = .ok v') : v'.core.bigmul.Idle := by
  obtain ⟨v₁, hfetch, h⟩ := Loop.bind_eq_ok h
  obtain ⟨v₂, hldbm, hbigmul⟩ := Loop.bind_eq_ok h
  obtain ⟨changes, hcycle, -⟩ := fetchCycle_eq_ok hfetch
  have h₂ : v₂.core.Started := by
    refine drain_invariant (fun u => u.core.Started) (fun u u' hu hstall => ?_)
      (fetchCycle_started hidle hcycle) hldbm
    have hframe := (stallWrite_frame hstall).2
    exact hu.progress hframe.controlUnit hframe.progress
  have h₃ : v'.core.Started ∧ v'.core.ldbmBusy = false := by
    refine drain_invariant (fun u => u.core.Started ∧ u.core.ldbmBusy = false)
      (fun u u' hu hstall => ?_) ⟨h₂, drain_end hldbm⟩ hbigmul
    have hframe := (stallBigmul_frame hstall).2
    exact ⟨hu.1.progress hframe.controlUnit hframe.progress, hframe.ldbmBusy hu.2⟩
  exact h₃.1.idle (Bool.or_eq_false_iff.mpr ⟨h₃.2, drain_end hbigmul⟩)

/-- What holds between commands: no operation is orphaned, and the snapshots that Undo
and Redo restore are idle. -/
structure Orderly (v : Vm) : Prop where
  started : v.core.Started
  snapshots : ∀ d ∈ v.undoStack ++ v.redoStack, d.customInstrExecuted ≠ .none →
    d.bigmulState.Idle

theorem Orderly.sameHistory {v v' : Vm} (h : v.Orderly) (hsame : SameHistory v v')
    (hstarted : v'.core.Started) : v'.Orderly :=
  ⟨hstarted, by rw [hsame.undoStack, hsame.redoStack]; exact h.snapshots⟩

/-- An instruction executed from an idle unit. -/
theorem Orderly.instruction {fpu : Fpu} {v v₁ v₂ : Vm} (h : v.Orderly)
    (hidle : v.core.bigmul.Idle) (hpreview : v.preview = .ok v₁)
    (hexec : v₁.executeInstruction fpu = .ok v₂) :
    v₂.commit.Orderly ∧ v₂.commit.core.bigmul.Idle := by
  obtain ⟨w, -, rfl⟩ := preview_eq_ok hpreview
  have hidle₂ := executeInstruction_idle (by exact hidle) hexec
  have hsame := executeInstruction_history hexec
  refine ⟨⟨.of_idle hidle₂, fun d hd hcustom => ?_⟩, hidle₂⟩
  rcases List.mem_cons.mp (by simpa [commit] using hd) with rfl | hd
  · have hstate : v₂.currentDelta.bigmulState = v.core.bigmul.snapshot := hsame.bigmulState
    rw [hstate]
    exact hidle
  · rw [hsame.undoStack] at hd
    exact h.snapshots d (List.mem_append_left _ hd) hcustom

/-- Restoring an idle snapshot, or none, leaves no operation orphaned. -/
theorem applyDelta_started {c c' : Core} {d : StepDelta} {value : RegisterChange → Word}
    {bytes : MemoryChange → List Byte} {pc : Word} (hstarted : c.Started)
    (hsnapshot : d.customInstrExecuted ≠ .none → d.bigmulState.Idle)
    (h : c.applyDelta d value bytes pc = .ok c') : c'.Started := by
  obtain ⟨memory, -, rfl⟩ := applyDelta_eq_ok h
  by_cases hcustom : d.customInstrExecuted = .none
  · simp only [if_pos hcustom]
    exact ⟨hstarted.ldbm, hstarted.bigmul⟩
  · simp only [if_neg hcustom]
    exact .of_idle (hsnapshot hcustom)

theorem Orderly.undo {v v' : Vm} (h : v.Orderly) (hundo : v.undo = .ok v') : v'.Orderly := by
  cases hstack : v.undoStack with
  | nil => exact undo_nil hundo hstack ▸ h
  | cons d ds =>
    obtain ⟨c, hc, rfl⟩ := undo_eq_ok hundo hstack
    have hsnapshots := h.snapshots
    rw [hstack] at hsnapshots
    have hstarted := applyDelta_started h.started (hsnapshots d (by simp)) hc
    refine ⟨⟨hstarted.ldbm, hstarted.bigmul⟩, fun e he => hsnapshots e ?_⟩
    simp only [List.mem_append, List.mem_cons] at he ⊢
    tauto

theorem Orderly.redo {v v' : Vm} (h : v.Orderly) (hredo : v.redo = .ok v') : v'.Orderly := by
  cases hstack : v.redoStack with
  | nil => exact redo_nil hredo hstack ▸ h
  | cons d ds =>
    obtain ⟨c, hc, rfl⟩ := redo_eq_ok hredo hstack
    have hsnapshots := h.snapshots
    rw [hstack] at hsnapshots
    have hstarted := applyDelta_started h.started (hsnapshots d (by simp)) hc
    refine ⟨⟨hstarted.ldbm, hstarted.bigmul⟩, fun e he => hsnapshots e ?_⟩
    simp only [List.mem_append, List.mem_cons] at he ⊢
    tauto

theorem Orderly.reset {v : Vm} : v.reset.Orderly :=
  ⟨.of_idle ⟨rfl, rfl⟩, nofun⟩

/-- A turn of `Run` keeps order: it fetches only when no operation is in progress. -/
theorem Orderly.runTurn {fpu : Fpu} {limit : Word} {r r' : Vm × Word} (h : r.1.Orderly)
    (hturn : Vm.runTurn fpu limit r = .ok (.yield r')) : r'.1.Orderly := by
  rcases (runTurn_eq_yield hturn).2 with ⟨-, hstall, -⟩ | ⟨hbusy, hfetch, -⟩
  · obtain ⟨hsame, hframe⟩ := stallCycle_frame hstall
    exact h.sameHistory hsame (h.started.progress hframe.controlUnit hframe.progress)
  · obtain ⟨changes, hcycle, -⟩ := fetchCycle_eq_ok hfetch
    exact h.sameHistory (fetchCycle_history hfetch)
      (fetchCycle_started (h.started.idle hbusy) hcycle)

theorem Orderly.run {fpu : Fpu} {limit : Word} {turns : Nat} {v : Vm}
    {r : ForInStep (Vm × Word)} (h : v.Orderly) (hrun : v.run fpu limit turns = .ok r) :
    (Loop.final r).1.Orderly :=
  Loop.run_invariant (fun r => r.1.Orderly) (fun _ _ hs ht => hs.runTurn ht)
    (fun _ _ hs ht => (runTurn_eq_done ht).1 ▸ hs) h hrun

theorem Orderly.debugRun {fpu : Fpu} {limit : Word} {turns : Nat} {v : Vm}
    {r : ForInStep (Vm × Word)} (h : v.Orderly)
    (hidle : v.core.programCounter < v.programSize → v.core.bigmul.Idle)
    (hrun : v.debugRun fpu limit turns = .ok r) :
    (Loop.final r).1.Orderly ∧ ((Loop.final r).1.core.programCounter <
      (Loop.final r).1.programSize → (Loop.final r).1.core.bigmul.Idle) := by
  refine Loop.run_invariant (fun r : Vm × Word => r.1.Orderly ∧
    (r.1.core.programCounter < r.1.programSize → r.1.core.bigmul.Idle))
    (fun s t hs ht => ?_) (fun s t hs ht => ?_) ⟨h, hidle⟩ hrun
  · obtain ⟨⟨hpc, -⟩, v₁, v₂, hpreview, hexec, rfl⟩ := debugTurn_eq_yield ht
    obtain ⟨horderly, hidle₂⟩ := hs.1.instruction (hs.2 hpc) hpreview hexec
    exact ⟨horderly, fun _ => hidle₂⟩
  · rcases debugTurn_eq_done ht with rfl | rfl
    · exact hs
    · exact ⟨⟨hs.1.started, hs.1.snapshots⟩, hs.2⟩

/-- `Step` and `DebugRun` are issued while the stall condition of `Run` is false. -/
def NotStalled (v : Vm) : Command → Prop
  | .step | .debugRun _ => v.core.programCounter < v.programSize → v.core.busy = false
  | .run _ | .undo | .redo | .reset => True

theorem Orderly.exec {fpu : Fpu} {limit : Word} {v v' : Vm} {command : Command}
    (h : v.Orderly) (hok : v.NotStalled command) (hexec : v.exec fpu limit command = .ok v') :
    v'.Orderly := by
  cases command with
  | run turns =>
    obtain ⟨r, hr, hexec⟩ := Loop.bind_eq_ok hexec
    exact Except.ok.inj hexec ▸ h.run hr
  | debugRun turns =>
    obtain ⟨r, hr, hexec⟩ := Loop.bind_eq_ok hexec
    exact Except.ok.inj hexec ▸ (h.debugRun (fun hpc => h.started.idle (hok hpc)) hr).1
  | step =>
    by_cases hpc : v.core.programCounter < v.programSize
    · obtain ⟨v₁, v₂, hpreview, hinstr, rfl⟩ := step_eq_ok hexec hpc
      exact (h.instruction (h.started.idle (hok hpc)) hpreview hinstr).1
    · obtain ⟨w, -, rfl⟩ := preview_eq_ok (step_eq_of_ge hexec hpc)
      exact ⟨h.started, h.snapshots⟩
  | undo => exact h.undo hexec
  | redo => exact h.redo hexec
  | reset => exact Except.ok.inj hexec ▸ .reset

theorem Orderly.fetches {fpu : Fpu} {limit : Word} {v w : Vm} {command : Command}
    (h : v.Orderly) (hok : v.NotStalled command) (hfetch : v.Fetches fpu limit command w) :
    w.core.bigmul.Idle := by
  cases hfetch with
  | run hk hrun hpc hlimit hstall => exact (h.run hrun).started.idle hstall
  | debugRun hk hrun hpc hlimit hbreak =>
    have hdebug := h.debugRun (fun hpc => h.started.idle (hok hpc)) hrun
    exact hdebug.2 hpc
  | step hpc => exact h.started.idle (hok hpc)

/-- One command that is `ok` in the state before it. -/
def Next (fpu : Fpu) (limit : Word) (ok : Vm → Command → Prop) (v v' : Vm) : Prop :=
  ∃ command, ok v command ∧ v.exec fpu limit command = .ok v'

/-- The commands that are `ok` at `v` fetch with an idle unit, and an operation in
progress is that of the instruction decoded last. -/
def FetchesIdle (fpu : Fpu) (limit : Word) (ok : Vm → Command → Prop) (v : Vm) : Prop :=
  (∀ command w, ok v command → v.Fetches fpu limit command w → w.core.bigmul.Idle) ∧
    v.core.Started

/-- `ldbm` of the operands at `x1` and `x4`, and `addi x1, x0, 1`. -/
def loadThenAdd : AssembledProgram :=
  ⟨[0b0000000_00100_00001_000_00000_0101010, 0x00100093], []⟩

set_option maxRecDepth 4096 in
/-- One cycle of `Run` on the LDBM, and a stop request. -/
theorem loadThenAdd_run :
    ((initial 0x1000).reset.loadProgram ⟨0x100, 100⟩ loadThenAdd >>= fun v₀ =>
      v₀.exec .zero 100 (.run 1) >>= fun v₁ =>
      .ok (decide (v₁.core.programCounter < v₁.programSize), v₁.core.busy,
        v₁.core.bigmul.ldbmDone)) = .ok (true, true, false) := by
  rfl

end Vm

end RiscvSim
