import RiscvSim.History
import RiscvSim.IntegerCycle

/-! Undo and redo on integer instructions: the depth of the undo stack determines the
architectural state. -/

namespace RiscvSim

namespace Vm

variable {fpu : Fpu} {limit : Word}

/-- Two machines with the same program that a program cannot tell apart. -/
structure SameArch (v w : Vm) : Prop where
  arch : v.core.arch = w.core.arch
  programSize : v.programSize = w.programSize

/-- The next instruction is an integer word. -/
def AtIntegerWord (v : Vm) : Prop := ∃ w, v.nextWord = .ok w ∧ isIntegerWord w = true

theorem AtIntegerWord.plain {v : Vm} (h : v.AtIntegerWord) : v.AtPlainWord := by
  obtain ⟨w, hw, hint⟩ := h
  exact ⟨w, hw, plainWord_of_integer hint⟩

theorem SameArch.nextWord {v w : Vm} (h : SameArch v w) : v.nextWord = w.nextWord := by
  have hmemory : v.core.memory = w.core.memory := congrArg Arch.memory h.arch
  have hpc : v.core.programCounter = w.core.programCounter := congrArg Arch.programCounter h.arch
  rw [Vm.nextWord, Vm.nextWord, hmemory, hpc]

theorem executeInstruction_of_not_busy {v v₁ : Vm} (hfetch : v.fetchCycle fpu = .ok v₁)
    (h : v₁.core.busy = false) : v.executeInstruction fpu = .ok v₁ := by
  rw [executeInstruction, hfetch, Loop.bind_ok, drains_of_not_busy h]

/-- A step on an integer word is the instruction on the architectural state. -/
theorem step_integer {v v' : Vm} {x : Instr} (hx : v.nextWord = .ok x)
    (hint : isIntegerWord x = true) (hpc : v.core.programCounter < v.programSize)
    (hstep : v.step fpu = .ok v') :
    ∃ changes, IntegerCycle.run v.core.arch x = .ok (v'.core.arch, changes) := by
  obtain ⟨v₀, v₂, hpreview, hexec, rfl⟩ := step_eq_ok hstep hpc
  obtain ⟨y, -, hv₀⟩ := preview_eq_ok hpreview
  have hcore : v₀.core = v.core := by rw [hv₀, noteState_core]
  obtain ⟨v₁, hfetch, hdrain⟩ := Loop.bind_eq_ok hexec
  obtain ⟨changes, hcycle, -⟩ := fetchCycle_eq_ok hfetch
  rw [hcore] at hcycle
  have hlinked := fetchCycle_linked hx (plainWord_of_integer hint) hcycle
  rw [drains_of_not_busy hlinked.notBusy] at hdrain
  obtain rfl := Except.ok.inj hdrain
  have hrun : (v.core.fetchCycle fpu).map _ = _ := fetchCycle_integer hx hint
  rw [hcycle] at hrun
  exact ⟨changes, hrun.symm⟩

theorem step_of_fetchCycle {v : Vm} {x : Instr} {c : Core} {changes : Changes}
    (hx : v.nextWord = .ok x) (hpc : v.core.programCounter < v.programSize)
    (hcycle : v.core.fetchCycle fpu = .ok (c, changes)) (hbusy : c.busy = false) :
    ∃ v', v.step fpu = .ok v' ∧ v'.core = c ∧ v'.programSize = v.programSize := by
  have hfetch : (v.noteState x).fetchCycle fpu =
      .ok ({ v.noteState x with core := c }.record changes) := by
    rw [Vm.fetchCycle, noteState_core, hcycle]
    rfl
  refine ⟨({ v.noteState x with core := c }.record changes).commit, ?_, rfl, rfl⟩
  rw [step, preview_of_nextWord hx, Loop.bind_ok, noteState_core, noteState_programSize,
    if_pos hpc, executeInstruction_of_not_busy hfetch hbusy]
  rfl

theorem step_of_integer {v : Vm} {x : Instr} {a : Arch} {changes : Changes}
    (hx : v.nextWord = .ok x) (hint : isIntegerWord x = true)
    (hpc : v.core.programCounter < v.programSize)
    (hrun : IntegerCycle.run v.core.arch x = .ok (a, changes)) :
    ∃ v', v.step fpu = .ok v' ∧ v'.core.arch = a ∧ v'.programSize = v.programSize := by
  have hmap : (v.core.fetchCycle fpu).map _ = _ := fetchCycle_integer hx hint
  rw [hrun] at hmap
  cases hcycle : v.core.fetchCycle fpu with
  | error e =>
    rw [hcycle] at hmap
    cases hmap
  | ok r =>
    rw [hcycle] at hmap
    have harch : r.1.arch = a := congrArg Prod.fst (Except.ok.inj hmap)
    have hbusy := (fetchCycle_linked hx (plainWord_of_integer hint) hcycle).notBusy
    obtain ⟨v', hstep, hcore, hsize⟩ := step_of_fetchCycle hx hpc hcycle hbusy
    exact ⟨v', hstep, by rw [hcore, harch], hsize⟩

/-- A step on an integer word depends on the architectural state only. -/
theorem SameArch.step {v w v' : Vm} (h : SameArch v w) (hat : v.AtIntegerWord)
    (hpc : v.core.programCounter < v.programSize) (hstep : v.step fpu = .ok v') :
    ∃ w', w.step fpu = .ok w' ∧ w'.core.arch = v'.core.arch ∧ w'.programSize = w.programSize := by
  obtain ⟨x, hx, hint⟩ := hat
  obtain ⟨changes, hrun⟩ := step_integer hx hint hpc hstep
  have hpc' : w.core.programCounter < w.programSize := by
    have heq : v.core.programCounter = w.core.programCounter := congrArg Arch.programCounter h.arch
    rw [← heq, ← h.programSize]
    exact hpc
  exact step_of_integer (h.nextWord ▸ hx) hint hpc' (h.arch ▸ hrun)

/-- The architectural state after `k` steps from `v₀`. -/
def AfterSteps (fpu : Fpu) (v₀ : Vm) (k : Nat) (a : Arch) : Prop :=
  ∃ w, Loop.iter (Vm.step fpu) k v₀ = .ok w ∧ w.core.arch = a ∧ w.programSize = v₀.programSize

/-- The stacks represent a history whose states are the iterates of `Step`. -/
structure Tracked (fpu : Fpu) (v₀ v : Vm) (h : Timeline Arch) : Prop where
  present : h.present = v.core.arch
  represents : Timeline.Represents Linked v.undoStack v.redoStack h
  tracks : h.Tracks (AfterSteps fpu v₀)
  noChanges : v.NoChanges
  programSize : v.programSize = v₀.programSize

variable {v₀ v v' : Vm} {h : Timeline Arch}

theorem Tracked.start (hundo : v₀.undoStack = []) (hredo : v₀.redoStack = [])
    (hnone : v₀.NoChanges) : Tracked fpu v₀ v₀ (.start v₀.core.arch) :=
  ⟨rfl, by rw [hundo, hredo]; exact .start Linked _, .start ⟨v₀, rfl, rfl, rfl⟩, hnone, rfl⟩

/-- The architectural state is that after as many steps as the undo stack is deep. -/
theorem Tracked.afterSteps (ht : Tracked fpu v₀ v h) :
    AfterSteps fpu v₀ v.undoStack.length v.core.arch := by
  have hpresent := ht.tracks.present
  rw [ht.represents.length_past, ht.present] at hpresent
  exact hpresent

theorem Tracked.step (ht : Tracked fpu v₀ v h) (hat : v.AtIntegerWord)
    (hpc : v.core.programCounter < v.programSize) (hstep : v.step fpu = .ok v') :
    Tracked fpu v₀ v' (h.commit v'.core.arch) := by
  obtain ⟨d, hpush⟩ := step_pushed ht.noChanges hat.plain hpc hstep
  obtain ⟨w, hw, harch, hsize⟩ := ht.afterSteps
  obtain ⟨w', hw', harch', hsize'⟩ :=
    SameArch.step ⟨harch.symm, ht.programSize.trans hsize.symm⟩ hat hpc hstep
  refine ⟨rfl, ?_, ht.tracks.commit ?_, hpush.noChanges, hpush.programSize.trans ht.programSize⟩
  · rw [hpush.undoStack, hpush.redoStack]
    exact ht.represents.commit (ht.present ▸ hpush.linked)
  · rw [ht.represents.length_past]
    exact ⟨w', by rw [Loop.iter_succ_last, hw, Loop.bind_ok, hw'], harch', hsize'.trans hsize⟩

theorem Tracked.step_end (ht : Tracked fpu v₀ v h)
    (hpc : ¬ v.core.programCounter < v.programSize) (hstep : v.step fpu = .ok v') :
    Tracked fpu v₀ v' h ∧ v'.undoStack = v.undoStack := by
  obtain ⟨w, -, rfl⟩ := preview_eq_ok (step_eq_of_ge hstep hpc)
  exact ⟨⟨ht.present, ht.represents, ht.tracks, ⟨ht.noChanges.register, ht.noChanges.memory⟩,
    ht.programSize⟩, rfl⟩

theorem Tracked.undo (ht : Tracked fpu v₀ v h) :
    ∃ v', v.undo = .ok v' ∧ Tracked fpu v₀ v' h.undo ∧
      v'.undoStack.length = v.undoStack.length - 1 ∧
      v'.redoStack.length = v.redoStack.length + min 1 v.undoStack.length := by
  have hr := ht.represents
  cases hstack : v.undoStack with
  | nil =>
    rw [hstack] at hr
    refine ⟨v, by rw [Vm.undo, hstack], ?_, by rw [hstack]; rfl, rfl⟩
    rw [hr.undo_nil]
    exact ht
  | cons d ds =>
    rw [hstack] at hr
    obtain ⟨hlink, hr'⟩ := hr.undo
    rw [ht.present] at hlink
    obtain ⟨v', hv', harch, -, hvm⟩ := undo_linked hstack hlink
    refine ⟨v', hv', ⟨harch.symm, ?_, ht.tracks.undo, ?_, ?_⟩, ?_, ?_⟩
    · rw [hvm]
      exact hr'
    · rw [hvm]
      exact ⟨ht.noChanges.register, ht.noChanges.memory⟩
    · rw [hvm]
      exact ht.programSize
    · rw [hvm, List.length_cons]
      rfl
    · rw [hvm, List.length_cons, List.length_cons]
      omega

theorem Tracked.redo (ht : Tracked fpu v₀ v h) :
    ∃ v', v.redo = .ok v' ∧ Tracked fpu v₀ v' h.redo ∧
      v'.undoStack.length = v.undoStack.length + min 1 v.redoStack.length ∧
      v'.redoStack.length = v.redoStack.length - 1 := by
  have hr := ht.represents
  cases hstack : v.redoStack with
  | nil =>
    rw [hstack] at hr
    refine ⟨v, by rw [Vm.redo, hstack], ?_, rfl, by rw [hstack]; rfl⟩
    rw [hr.redo_nil]
    exact ht
  | cons d ds =>
    rw [hstack] at hr
    obtain ⟨hlink, hr'⟩ := hr.redo
    rw [ht.present] at hlink
    obtain ⟨v', hv', harch, -, hvm⟩ := redo_linked hstack hlink
    refine ⟨v', hv', ⟨harch.symm, ?_, ht.tracks.redo, ?_, ?_⟩, ?_, ?_⟩
    · rw [hvm]
      exact hr'
    · rw [hvm]
      exact ⟨ht.noChanges.register, ht.noChanges.memory⟩
    · rw [hvm]
      exact ht.programSize
    · rw [hvm, List.length_cons, List.length_cons]
      omega
    · rw [hvm, List.length_cons]
      rfl

/-- Steps, undos and redos in which every step inside the program is on an integer word
and does not fault. -/
def IntegerSteps (fpu : Fpu) : List Command → Vm → Prop
  | [], _ => True
  | .step :: commands, v => (v.core.programCounter < v.programSize → v.AtIntegerWord) ∧
      ∃ v', v.step fpu = .ok v' ∧ IntegerSteps fpu commands v'
  | .undo :: commands, v => ∀ v', v.undo = .ok v' → IntegerSteps fpu commands v'
  | .redo :: commands, v => ∀ v', v.redo = .ok v' → IntegerSteps fpu commands v'
  | .run _ :: _, _ | .debugRun _ :: _, _ | .reset :: _, _ => False

variable (limit) in
theorem Tracked.execAll (ht : Tracked fpu v₀ v h) {commands : List Command}
    (hcommands : IntegerSteps fpu commands v) :
    ∃ v' h', Vm.execAll fpu limit commands v = .ok v' ∧ Tracked fpu v₀ v' h' := by
  induction commands generalizing v h with
  | nil => exact ⟨v, h, rfl, ht⟩
  | cons command commands ih =>
    cases command with
    | step =>
      obtain ⟨hat, u, hu, hrest⟩ := hcommands
      have hu' : ∃ h', Tracked fpu v₀ u h' := by
        by_cases hpc : v.core.programCounter < v.programSize
        · exact ⟨_, ht.step (hat hpc) hpc hu⟩
        · exact ⟨h, (ht.step_end hpc hu).1⟩
      obtain ⟨h', hu'⟩ := hu'
      rw [execAll_cons (by exact hu)]
      exact ih hu' hrest
    | undo =>
      obtain ⟨u, hu, hu', -⟩ := ht.undo
      rw [execAll_cons (by exact hu)]
      exact ih hu' (hcommands u hu)
    | redo =>
      obtain ⟨u, hu, hu', -⟩ := ht.redo
      rw [execAll_cons (by exact hu)]
      exact ih hu' (hcommands u hu)
    | run turns => exact hcommands.elim
    | debugRun turns => exact hcommands.elim
    | reset => exact hcommands.elim

variable (limit) in
theorem Tracked.undos (ht : Tracked fpu v₀ v h) (k : Nat) :
    ∃ v' h', Vm.execAll fpu limit (List.replicate k .undo) v = .ok v' ∧ Tracked fpu v₀ v' h' ∧
      v'.undoStack.length = v.undoStack.length - k ∧
      v'.redoStack.length = v.redoStack.length + min k v.undoStack.length := by
  induction k generalizing v h with
  | zero => exact ⟨v, h, rfl, ht, rfl, by omega⟩
  | succ k ih =>
    obtain ⟨u, hu, hu', hundo, hredo⟩ := ht.undo
    obtain ⟨v', h', hv', htracked, hundo', hredo'⟩ := ih hu'
    refine ⟨v', h', ?_, htracked, by omega, by omega⟩
    rw [List.replicate_succ, execAll_cons (by exact hu), hv']

variable (limit) in
theorem Tracked.redos (ht : Tracked fpu v₀ v h) (k : Nat) :
    ∃ v' h', Vm.execAll fpu limit (List.replicate k .redo) v = .ok v' ∧ Tracked fpu v₀ v' h' ∧
      v'.undoStack.length = v.undoStack.length + min k v.redoStack.length := by
  induction k generalizing v h with
  | zero => exact ⟨v, h, rfl, ht, by omega⟩
  | succ k ih =>
    obtain ⟨u, hu, hu', hundo, hredo⟩ := ht.redo
    obtain ⟨v', h', hv', htracked, hundo'⟩ := ih hu'
    refine ⟨v', h', ?_, htracked, by omega⟩
    rw [List.replicate_succ, execAll_cons (by exact hu), hv']

variable (limit) in
/-- `k` steps push at most `k` deltas. -/
theorem Tracked.steps (ht : Tracked fpu v₀ v h) {k : Nat}
    (hsteps : IntegerSteps fpu (List.replicate k .step) v) (hredo : v.redoStack = []) :
    ∃ v' h', Vm.execAll fpu limit (List.replicate k .step) v = .ok v' ∧ Tracked fpu v₀ v' h' ∧
      v'.undoStack.length ≤ v.undoStack.length + k ∧ v'.redoStack = [] := by
  induction k generalizing v h with
  | zero => exact ⟨v, h, rfl, ht, by omega, hredo⟩
  | succ k ih =>
    obtain ⟨hat, u, hu, hrest⟩ := hsteps
    have hu' : ∃ h', Tracked fpu v₀ u h' ∧ u.undoStack.length ≤ v.undoStack.length + 1 ∧
        u.redoStack = [] := by
      by_cases hpc : v.core.programCounter < v.programSize
      · obtain ⟨d, hpush⟩ := step_pushed ht.noChanges (hat hpc).plain hpc hu
        exact ⟨_, ht.step (hat hpc) hpc hu, by rw [hpush.undoStack]; simp, hpush.redoStack⟩
      · obtain ⟨w, -, rfl⟩ := preview_eq_ok (step_eq_of_ge hu hpc)
        exact ⟨h, (ht.step_end hpc hu).1, Nat.le_succ _, hredo⟩
    obtain ⟨h', hu', hdepth, hredo'⟩ := hu'
    obtain ⟨v', h'', hv', htracked, hdepth', hredo''⟩ := ih hu' hrest hredo'
    refine ⟨v', h'', ?_, htracked, by omega, hredo''⟩
    rw [List.replicate_succ, execAll_cons (by exact hu), hv']

/-- The same depth is the same architectural state. -/
theorem Tracked.arch_eq {w : Vm} {h' : Timeline Arch} (ht : Tracked fpu v₀ v h)
    (ht' : Tracked fpu v₀ w h') (hdepth : v.undoStack.length = w.undoStack.length) :
    v.core.arch = w.core.arch := by
  obtain ⟨x, hx, harch, -⟩ := ht.afterSteps
  obtain ⟨y, hy, harch', -⟩ := ht'.afterSteps
  rw [hdepth] at hx
  obtain rfl := Except.ok.inj (hx.symm.trans hy)
  exact harch.symm.trans harch'

/-- A step drops the undone future and keeps the past. -/
theorem step_stacks (hpc : v.core.programCounter < v.programSize) (hstep : v.step fpu = .ok v') :
    v'.redoStack = [] ∧ ∃ d, v'.undoStack = d :: v.undoStack := by
  obtain ⟨v₁, v₂, hpreview, hexec, rfl⟩ := step_eq_ok hstep hpc
  obtain ⟨w, -, rfl⟩ := preview_eq_ok hpreview
  have hsame := executeInstruction_history hexec
  exact ⟨rfl, _, by rw [commit, hsame.undoStack]; rfl⟩

theorem tracked_of_load {config : Config} {program : AssembledProgram}
    (hload : v.reset.loadProgram config program = .ok v₀) :
    Tracked fpu v₀ v₀ (.start v₀.core.arch) ∧ v₀.undoStack = [] ∧ v₀.redoStack = [] := by
  obtain ⟨memory, programSize, breakpoints, rfl⟩ := loadProgram_eq_ok hload
  exact ⟨.start rfl rfl ⟨rfl, rfl⟩, rfl, rfl⟩

/-- Any sequence of steps, undos and redos on integer words leaves the architectural
state after as many steps as the undo stack is deep. In particular `k` undos after `k`
steps restore the loaded state and `k` redos the state after the steps, and a step after
an undo drops the undone states and no others. -/
theorem arch_of_undo_depth {config : Config} {program : AssembledProgram}
    (hload : v.reset.loadProgram config program = .ok v₀) :
    (∀ commands, IntegerSteps fpu commands v₀ →
      ∃ v', execAll fpu limit commands v₀ = .ok v' ∧
        ∃ w, Loop.iter (step fpu) v'.undoStack.length v₀ = .ok w ∧ v'.core.arch = w.core.arch) ∧
    (∀ k, IntegerSteps fpu (List.replicate k .step) v₀ →
      ∃ v₁ v₂ v₃, execAll fpu limit (List.replicate k .step) v₀ = .ok v₁ ∧
        execAll fpu limit (List.replicate k .undo) v₁ = .ok v₂ ∧
        execAll fpu limit (List.replicate k .redo) v₂ = .ok v₃ ∧
        v₂.core.arch = v₀.core.arch ∧ v₃.core.arch = v₁.core.arch) ∧
    (∀ v' v₁ v₂ : Vm, v'.undo = .ok v₁ → v₁.core.programCounter < v₁.programSize →
      v₁.step fpu = .ok v₂ → v₂.redoStack = [] ∧ ∃ d, v₂.undoStack = d :: v₁.undoStack) := by
  obtain ⟨hstart, hundo, hredo⟩ :
    Tracked fpu v₀ v₀ (.start v₀.core.arch) ∧ v₀.undoStack = [] ∧ v₀.redoStack = [] :=
    tracked_of_load hload
  refine ⟨fun commands hcommands => ?_, fun k hsteps => ?_, fun _ v₁ v₂ _ hpc hstep => ?_⟩
  · obtain ⟨v', h', hv', ht⟩ := hstart.execAll limit hcommands
    obtain ⟨w, hw, harch, -⟩ := ht.afterSteps
    exact ⟨v', hv', w, hw, harch.symm⟩
  · obtain ⟨v₁, h₁, hv₁, ht₁, hdepth₁, hredo₁⟩ := hstart.steps limit hsteps hredo
    obtain ⟨v₂, h₂, hv₂, ht₂, hdepth₂, hredo₂⟩ := ht₁.undos limit k
    obtain ⟨v₃, h₃, hv₃, ht₃, hdepth₃⟩ := ht₂.redos limit k
    rw [hundo, List.length_nil] at hdepth₁
    rw [hredo₁, List.length_nil] at hredo₂
    refine ⟨v₁, v₂, v₃, hv₁, hv₂, hv₃, ht₂.arch_eq hstart ?_, ht₃.arch_eq ht₁ (by omega)⟩
    rw [hdepth₂, hundo, List.length_nil]
    omega
  · exact step_stacks hpc hstep

/-- A step, an undo and a redo of `addi x1, x0, 1`. -/
theorem arch_of_undo_depth_add :
    ∃ v₀ v', (initial 0x1000).reset.loadProgram ⟨0x100, 100⟩ ⟨[0x00100093], []⟩ = .ok v₀ ∧
      execAll .zero 100 [.step, .undo, .redo] v₀ = .ok v' ∧
      ∃ w, Loop.iter (step .zero) v'.undoStack.length v₀ = .ok w ∧
        v'.core.arch = w.core.arch := by
  have hvalues : ((initial 0x1000).reset.loadProgram ⟨0x100, 100⟩ ⟨[0x00100093], []⟩ >>=
      fun v₀ => v₀.step .zero >>= fun _ => .ok v₀.nextWord) = .ok (.ok 0x00100093) := by
    decide +kernel
  obtain ⟨v₀, hload, h⟩ := Loop.bind_eq_ok hvalues
  obtain ⟨v₁, hstep, h⟩ := Loop.bind_eq_ok h
  have hinteger : IntegerSteps .zero [.step, .undo, .redo] v₀ :=
    ⟨fun _ => ⟨_, Except.ok.inj h, by decide⟩, v₁, hstep, fun _ _ _ _ => trivial⟩
  have hexec : ∃ v', execAll .zero 100 _ v₀ = .ok v' ∧ _ := (arch_of_undo_depth hload).1 _ hinteger
  obtain ⟨v', hv', w, hw, harch⟩ := hexec
  exact ⟨v₀, v', hload, hv', w, hw, harch⟩

end Vm

end RiscvSim
