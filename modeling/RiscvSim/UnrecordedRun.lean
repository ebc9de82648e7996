import Mathlib.Logic.Relation
import RiscvSim.History

/-! Undo after an unrecorded run. `Run` changes the machine without pushing a delta,
so undo is exact in the runs of commands that never let one pass between. -/

namespace RiscvSim

/-- The machine and, for each delta on its stacks, the state before its instruction. -/
structure Noted where
  vm : Vm
  undos : List Arch
  redos : List Arch

namespace Noted

def debugTurn (fpu : Fpu) (limit : Word) :
    Noted × Word → Except Fault (ForInStep (Noted × Word))
  | (n, executed) => do
    match ← Vm.debugTurn fpu limit (n.vm, executed) with
    | .done r => return .done (⟨r.1, n.undos, n.redos⟩, r.2)
    | .yield r => return .yield (⟨r.1, n.vm.core.arch :: n.undos, []⟩, r.2)

/-- A command and what it does to the notes. -/
def exec (fpu : Fpu) (limit : Word) (n : Noted) : Command → Except Fault Noted
  | .debugRun turns => do
    return (Loop.final (← Loop.run (debugTurn fpu limit) turns (n, 0))).1
  | .step => do
    let vm ← n.vm.step fpu
    if n.vm.core.programCounter < n.vm.programSize then
      return ⟨vm, n.vm.core.arch :: n.undos, []⟩
    else return { n with vm }
  | .undo => do
    let vm ← n.vm.undo
    match n.vm.undoStack, n.undos with
    | _ :: _, s :: undos => return ⟨vm, undos, s :: n.redos⟩
    | _, _ => return { n with vm }
  | .redo => do
    let vm ← n.vm.redo
    match n.vm.redoStack, n.redos with
    | _ :: _, s :: redos => return ⟨vm, s :: n.undos, redos⟩
    | _, _ => return { n with vm }
  | .reset => return ⟨n.vm.reset, [], []⟩
  | .run turns => do return { n with vm := ← n.vm.exec fpu limit (.run turns) }

/-- The notes of an exact history: the states that the undo stack leads back to, and
for the redo stack the states it starts from. -/
structure Exact (n : Noted) (h : Timeline Arch) : Prop where
  present : h.present = n.vm.core.arch
  represents : Timeline.Represents Linked n.vm.undoStack n.vm.redoStack h
  undos : n.undos = h.past
  redos : n.redos = (h.present :: h.future).dropLast

variable {fpu : Fpu} {limit : Word} {n n' : Noted} {h : Timeline Arch}

theorem exact_start {v : Vm} (hundo : v.undoStack = []) (hredo : v.redoStack = []) :
    Exact ⟨v, [], []⟩ (.start v.core.arch) :=
  ⟨rfl, by rw [hundo, hredo]; exact .start Linked _, rfl, rfl⟩

theorem Exact.push (hn : Exact n h) {v : Vm} {d : StepDelta} (hpush : n.vm.Pushed v d) :
    Exact ⟨v, n.vm.core.arch :: n.undos, []⟩ (h.commit v.core.arch) where
  present := rfl
  represents := by
    rw [hpush.undoStack, hpush.redoStack]
    exact hn.represents.commit (hn.present ▸ hpush.linked)
  undos := by rw [hn.undos, ← hn.present]; rfl
  redos := rfl

theorem Exact.undos_eq_nil (hn : Exact n h) (hstack : n.vm.undoStack = []) : n.undos = [] := by
  have hlen := hn.represents.length_past
  rw [hstack] at hlen
  rw [hn.undos]
  exact List.length_eq_zero_iff.mp hlen

/-- Undo of an exact history goes back to the noted state. -/
theorem Exact.undo (hn : Exact n h) {d : StepDelta} {ds : List StepDelta}
    (hstack : n.vm.undoStack = d :: ds) :
    ∃ s undos v, n.undos = s :: undos ∧ n.vm.undo = .ok v ∧ v.core.arch = s ∧
      Exact ⟨v, undos, s :: n.redos⟩ h.undo := by
  have hr := hn.represents
  rw [hstack] at hr
  obtain ⟨hlink, hr'⟩ := hr.undo
  obtain ⟨past, present, future⟩ := h
  cases past with
  | nil => exact hr.past.elim
  | cons s past =>
    rw [hn.present] at hlink
    obtain ⟨v, hv, harch, -, hvm⟩ := Vm.undo_linked hstack hlink
    refine ⟨s, past, v, hn.undos, hv, harch, harch.symm, ?_, rfl, ?_⟩
    · rw [hvm]
      exact hr'
    · rw [hn.redos]
      rfl

theorem Exact.redo (hn : Exact n h) {d : StepDelta} {ds : List StepDelta}
    (hstack : n.vm.redoStack = d :: ds) :
    ∃ s redos v, n.redos = s :: redos ∧ n.vm.redo = .ok v ∧
      Exact ⟨v, s :: n.undos, redos⟩ h.redo := by
  have hr := hn.represents
  rw [hstack] at hr
  obtain ⟨hlink, hr'⟩ := hr.redo
  obtain ⟨past, present, future⟩ := h
  cases future with
  | nil => exact hr.future.elim
  | cons t future =>
    rw [hn.present] at hlink
    obtain ⟨v, hv, harch, -, hvm⟩ := Vm.redo_linked hstack hlink
    refine ⟨present, (t :: future).dropLast, v, hn.redos, hv, harch.symm, ?_, ?_, rfl⟩
    · rw [hvm]
      exact hr'
    · rw [hn.undos]
      rfl

theorem Exact.notes_eq_nil (hn : Exact n h) (hundo : n.vm.undoStack = [])
    (hredo : n.vm.redoStack = []) : n.undos = [] ∧ n.redos = [] := by
  have hr := hn.represents
  have hlen := hr.length_past
  rw [hundo] at hlen
  rw [hredo] at hr
  refine ⟨hn.undos.trans (List.length_eq_zero_iff.mp hlen), ?_⟩
  obtain ⟨past, present, future⟩ := h
  cases future with
  | nil => exact hn.redos
  | cons t future => exact hr.future.elim

/-- `DebugRun` on the notes is `DebugRun` on the machine. -/
theorem debugRun_vm (fpu : Fpu) (limit : Word) (turns : Nat) (n : Noted) :
    (∀ r, Loop.run (debugTurn fpu limit) turns (n, 0) = .ok (.yield r) →
      n.vm.debugRun fpu limit turns = .ok (.yield (r.1.vm, r.2))) ∧
    ∀ r, Loop.run (debugTurn fpu limit) turns (n, 0) = .ok (.done r) →
      n.vm.debugRun fpu limit turns = .ok (.done (r.1.vm, r.2)) := by
  have hyield : ∀ s s' t, s' = (s.1.vm, s.2) → debugTurn fpu limit s = .ok (.yield t) →
      ∃ t', Vm.debugTurn fpu limit s' = .ok (.yield t') ∧ t' = (t.1.vm, t.2) := by
    rintro s _ t rfl ht
    obtain ⟨u, hu, ht⟩ := Loop.bind_eq_ok ht
    cases u with
    | done u => exact nomatch ht
    | yield u =>
      injection ht with ht
      injection ht with ht
      exact ⟨u, hu, ht ▸ rfl⟩
  have hdone : ∀ s s' t, s' = (s.1.vm, s.2) → debugTurn fpu limit s = .ok (.done t) →
      ∃ t', Vm.debugTurn fpu limit s' = .ok (.done t') ∧ t' = (t.1.vm, t.2) := by
    rintro s _ t rfl ht
    obtain ⟨u, hu, ht⟩ := Loop.bind_eq_ok ht
    cases u with
    | done u =>
      injection ht with ht
      injection ht with ht
      exact ⟨u, hu, ht ▸ rfl⟩
    | yield u => exact nomatch ht
  have hsim := Loop.run_simulates (fun s t => t = (s.1.vm, s.2)) hyield hdone (n := turns)
    (s := (n, 0)) rfl
  constructor
  · intro r hr
    obtain ⟨t, ht, rfl⟩ := hsim.1 r hr
    exact ht
  · intro r hr
    obtain ⟨t, ht, rfl⟩ := hsim.2 r hr
    exact ht

theorem debugTurn_yield {r r' : Noted × Word}
    (hturn : debugTurn fpu limit r = .ok (.yield r')) :
    ∃ v, Vm.debugTurn fpu limit (r.1.vm, r.2) = .ok (.yield (v, r'.2)) ∧
      r'.1 = ⟨v, r.1.vm.core.arch :: r.1.undos, []⟩ := by
  obtain ⟨u, hu, ht⟩ := Loop.bind_eq_ok hturn
  cases u with
  | done u => exact nomatch ht
  | yield u =>
    injection ht with ht
    injection ht with ht
    subst ht
    exact ⟨u.1, hu, rfl⟩

theorem debugTurn_done {r r' : Noted × Word}
    (hturn : debugTurn fpu limit r = .ok (.done r')) :
    r' = r ∨ r' = ({ r.1 with vm := { r.1.vm with currentDelta := .empty } }, r.2) := by
  obtain ⟨u, hu, ht⟩ := Loop.bind_eq_ok hturn
  cases u with
  | done u =>
    injection ht with ht
    injection ht with ht
    subst ht
    rcases Vm.debugTurn_eq_done hu with rfl | rfl
    · exact .inl rfl
    · exact .inr rfl
  | yield u => exact nomatch ht

end Noted

namespace Vm

/-- A command whose changes Undo can account for: `Run` has no history to disturb, and
`Step` and `DebugRun` do not start from changes that `Run` left behind. -/
def Undisturbed (v : Vm) : Command → Prop
  | .run turns => turns ≠ 0 → v.core.programCounter < v.programSize →
      v.undoStack = [] ∧ v.redoStack = []
  | .debugRun _ | .step => v.core.programCounter < v.programSize → v.NoChanges
  | .undo | .redo | .reset => True

/-- Every instruction that the command fetches is a plain word. -/
def PlainCommand (fpu : Fpu) (limit : Word) (v : Vm) (command : Command) : Prop :=
  ∀ w, v.Fetches fpu limit command w → w.AtPlainWord

theorem run_of_not_started {fpu : Fpu} {limit : Word} {turns : Nat} {v : Vm}
    {r : ForInStep (Vm × Word)} (h : v.run fpu limit turns = .ok r)
    (hstart : ¬ (turns ≠ 0 ∧ v.core.programCounter < v.programSize)) : (Loop.final r).1 = v := by
  cases turns with
  | zero => exact Except.ok.inj h ▸ rfl
  | succ turns =>
    have hpc : ¬ v.core.programCounter < v.programSize := fun hpc => hstart ⟨by omega, hpc⟩
    have hturn : runTurn fpu limit (v, 0) = .ok (.done (v, 0)) := by
      rw [runTurn, if_pos hpc]
    rw [run, Loop.run_succ_done hturn] at h
    exact Except.ok.inj h ▸ rfl

theorem run_stacks {fpu : Fpu} {limit : Word} {turns : Nat} {v : Vm}
    {r : ForInStep (Vm × Word)} (h : v.run fpu limit turns = .ok r) :
    (Loop.final r).1.undoStack = v.undoStack ∧ (Loop.final r).1.redoStack = v.redoStack := by
  refine Loop.run_invariant (fun r => r.1.undoStack = v.undoStack ∧ r.1.redoStack = v.redoStack)
    (fun s t hs ht => ?_) (fun s t hs ht => ?_) ⟨rfl, rfl⟩ h
  · rcases (runTurn_eq_yield ht).2 with ⟨-, hstall, -⟩ | ⟨-, hfetch, -⟩
    · have hsame := (stallCycle_frame hstall).1
      exact ⟨hsame.undoStack.trans hs.1, hsame.redoStack.trans hs.2⟩
    · have hsame := fetchCycle_history hfetch
      exact ⟨hsame.undoStack.trans hs.1, hsame.redoStack.trans hs.2⟩
  · exact (runTurn_eq_done ht).1 ▸ hs

end Vm

namespace Noted

variable {fpu : Fpu} {limit : Word} {n n' : Noted} {h : Timeline Arch}

theorem Exact.debugRun (hn : Exact n h) {turns : Nat} {r : ForInStep (Noted × Word)}
    (hok : n.vm.core.programCounter < n.vm.programSize → n.vm.NoChanges)
    (hplain : n.vm.PlainCommand fpu limit (.debugRun turns))
    (hrun : Loop.run (debugTurn fpu limit) turns (n, 0) = .ok r) :
    ∃ h, Exact (Loop.final r).1 h := by
  refine (Loop.run_invariant_along (fun r : Noted × Word => (∃ h, Exact r.1 h) ∧
    (r.1.vm.core.programCounter < r.1.vm.programSize → r.1.vm.NoChanges))
    (fun k s t hk hs hP ht => ?_) (fun s t hP ht => ?_) ⟨⟨h, hn⟩, hok⟩ hrun).1
  · obtain ⟨⟨h, hs'⟩, hnone⟩ := hP
    obtain ⟨v, hv, ht'⟩ := debugTurn_yield ht
    obtain ⟨⟨hpc, hlimit, hbreak⟩, v₁, v₂, hpreview, hexec, hr⟩ := Vm.debugTurn_eq_yield hv
    obtain rfl : v = v₂.commit := congrArg Prod.fst hr
    have hat := hplain s.1.vm (.debugRun hk ((debugRun_vm ..).1 _ hs) hpc hlimit hbreak)
    obtain ⟨d, hpush⟩ := Vm.instruction_pushed (hnone hpc) hat hpreview hexec
    rw [ht']
    exact ⟨⟨_, hs'.push hpush⟩, fun _ => hpush.noChanges⟩
  · obtain ⟨⟨h, hs'⟩, hnone⟩ := hP
    rcases debugTurn_done ht with rfl | rfl
    · exact ⟨⟨h, hs'⟩, hnone⟩
    · exact ⟨⟨h, hs'.present, hs'.represents, hs'.undos, hs'.redos⟩, fun _ => ⟨rfl, rfl⟩⟩

/-- An undisturbed command keeps the notes exact. -/
theorem Exact.exec (hn : Exact n h) {command : Command} (hok : n.vm.Undisturbed command)
    (hplain : n.vm.PlainCommand fpu limit command) (hexec : n.exec fpu limit command = .ok n') :
    ∃ h, Exact n' h := by
  cases command with
  | run turns =>
    obtain ⟨v, hv, hexec⟩ := Loop.bind_eq_ok hexec
    obtain rfl := Except.ok.inj hexec
    obtain ⟨r, hr, hv⟩ := Loop.bind_eq_ok hv
    obtain rfl := Except.ok.inj hv
    by_cases hstart : turns ≠ 0 ∧ n.vm.core.programCounter < n.vm.programSize
    · -- the history is empty and starts anew
      obtain ⟨hundo, hredo⟩ := hok hstart.1 hstart.2
      obtain ⟨hundos, hredos⟩ := hn.notes_eq_nil hundo hredo
      obtain ⟨hundo', hredo'⟩ := Vm.run_stacks hr
      rw [hundos, hredos]
      exact ⟨_, exact_start (hundo'.trans hundo) (hredo'.trans hredo)⟩
    · rw [Vm.run_of_not_started hr hstart]
      exact ⟨h, hn⟩
  | debugRun turns =>
    obtain ⟨r, hr, hexec⟩ := Loop.bind_eq_ok hexec
    obtain rfl := Except.ok.inj hexec
    exact hn.debugRun hok hplain hr
  | step =>
    obtain ⟨v, hv, hexec⟩ := Loop.bind_eq_ok hexec
    by_cases hpc : n.vm.core.programCounter < n.vm.programSize
    · rw [if_pos hpc] at hexec
      obtain rfl := Except.ok.inj hexec
      obtain ⟨d, hpush⟩ := Vm.step_pushed (hok hpc) (hplain _ (.step hpc)) hpc hv
      exact ⟨_, hn.push hpush⟩
    · rw [if_neg hpc] at hexec
      obtain rfl := Except.ok.inj hexec
      obtain ⟨w, -, rfl⟩ := Vm.preview_eq_ok (Vm.step_eq_of_ge hv hpc)
      exact ⟨h, hn.present, hn.represents, hn.undos, hn.redos⟩
  | undo =>
    obtain ⟨v, hv, hexec⟩ := Loop.bind_eq_ok hexec
    cases hstack : n.vm.undoStack with
    | nil =>
      rw [hstack] at hexec
      obtain rfl := Except.ok.inj hexec
      obtain rfl := Vm.undo_nil hv hstack
      exact ⟨h, hn⟩
    | cons d ds =>
      obtain ⟨s, undos, v', hundos, hv', -, hexact⟩ := hn.undo hstack
      obtain rfl : v = v' := Except.ok.inj (hv.symm.trans hv')
      rw [hstack, hundos] at hexec
      obtain rfl := Except.ok.inj hexec
      exact ⟨_, hexact⟩
  | redo =>
    obtain ⟨v, hv, hexec⟩ := Loop.bind_eq_ok hexec
    cases hstack : n.vm.redoStack with
    | nil =>
      rw [hstack] at hexec
      obtain rfl := Except.ok.inj hexec
      obtain rfl := Vm.redo_nil hv hstack
      exact ⟨h, hn⟩
    | cons d ds =>
      obtain ⟨s, redos, v', hredos, hv', hexact⟩ := hn.redo hstack
      obtain rfl : v = v' := Except.ok.inj (hv.symm.trans hv')
      rw [hstack, hredos] at hexec
      obtain rfl := Except.ok.inj hexec
      exact ⟨_, hexact⟩
  | reset =>
    obtain rfl := Except.ok.inj hexec
    exact ⟨_, exact_start rfl rfl⟩

/-- The notes do not change what a command does. -/
theorem exec_vm {command : Command} (hexec : n.exec fpu limit command = .ok n') :
    n.vm.exec fpu limit command = .ok n'.vm := by
  cases command with
  | run turns =>
    obtain ⟨v, hv, hexec⟩ := Loop.bind_eq_ok hexec
    exact Except.ok.inj hexec ▸ hv
  | debugRun turns =>
    obtain ⟨r, hr, hexec⟩ := Loop.bind_eq_ok hexec
    obtain rfl := Except.ok.inj hexec
    cases r with
    | done r => rw [Vm.exec, (debugRun_vm fpu limit turns n).2 r hr]; rfl
    | yield r => rw [Vm.exec, (debugRun_vm fpu limit turns n).1 r hr]; rfl
  | step =>
    obtain ⟨v, hv, hexec⟩ := Loop.bind_eq_ok hexec
    split at hexec
    · exact Except.ok.inj hexec ▸ hv
    · exact Except.ok.inj hexec ▸ hv
  | undo =>
    obtain ⟨v, hv, hexec⟩ := Loop.bind_eq_ok hexec
    split at hexec
    · exact Except.ok.inj hexec ▸ hv
    · exact Except.ok.inj hexec ▸ hv
  | redo =>
    obtain ⟨v, hv, hexec⟩ := Loop.bind_eq_ok hexec
    split at hexec
    · exact Except.ok.inj hexec ▸ hv
    · exact Except.ok.inj hexec ▸ hv
  | reset => exact Except.ok.inj hexec ▸ rfl

/-- Undo finds the program counter, the registers and the memory as they were before the
instruction whose delta it pops. -/
def UndoExact (n : Noted) : Prop :=
  n.vm.undoStack ≠ [] → ∃ s undos v, n.undos = s :: undos ∧ n.vm.undo = .ok v ∧
    v.core.programCounter = s.programCounter ∧ v.core.registers = s.registers ∧
    v.core.memory = s.memory

/-- One command of plain words that is `ok` in the state before it. -/
def Next (fpu : Fpu) (limit : Word) (ok : Vm → Command → Prop) (n n' : Noted) : Prop :=
  ∃ command, ok n.vm command ∧ n.vm.PlainCommand fpu limit command ∧
    n.exec fpu limit command = .ok n'

theorem Exact.undoExact (hn : Exact n h) : n.UndoExact := by
  intro hstack
  cases hs : n.vm.undoStack with
  | nil => exact absurd hs hstack
  | cons d ds =>
    obtain ⟨s, undos, v, hundos, hv, harch, -⟩ := hn.undo hs
    subst harch
    exact ⟨_, undos, v, hundos, hv, rfl, rfl, rfl⟩

theorem loadProgram_stacks {config : Config} {program : AssembledProgram} {v v₀ : Vm}
    (h : v.loadProgram config program = .ok v₀) :
    v₀.undoStack = v.undoStack ∧ v₀.redoStack = v.redoStack ∧
      v₀.currentDelta = v.currentDelta := by
  obtain ⟨memory, programSize, breakpoints, rfl⟩ := Vm.loadProgram_eq_ok h
  exact ⟨rfl, rfl, rfl⟩

/-- Undo is exact in every run of undisturbed commands on a program of plain words. -/
theorem undoExact_of_undisturbed {fpu : Fpu} {limit : Word} {config : Config}
    {program : AssembledProgram} {v v₀ : Vm} {n : Noted}
    (hload : v.reset.loadProgram config program = .ok v₀)
    (hrun : Relation.ReflTransGen (Next fpu limit Vm.Undisturbed) ⟨v₀, [], []⟩ n) :
    n.UndoExact := by
  obtain ⟨hundo, hredo, -⟩ := loadProgram_stacks hload
  have hexact : ∃ h, Exact n h := by
    induction hrun with
    | refl => exact ⟨_, exact_start hundo hredo⟩
    | tail _ hnext ih =>
      obtain ⟨h, hn⟩ := ih
      obtain ⟨command, hok, hplain, hexec⟩ := hnext
      exact hn.exec hok hplain hexec
  obtain ⟨h, hn⟩ := hexact
  exact hn.undoExact

/-- `addi x1, x0, 1` and `addi x2, x0, 2`. -/
def twoWrites : AssembledProgram := ⟨[0x00100093, 0x00200113], []⟩

def smallConfig : Config := ⟨0x100, 100⟩

theorem plainCommand_step {v : Vm} (h : v.AtPlainWord) : v.PlainCommand fpu limit .step := by
  rintro w (_ | _ | _)
  exact h

theorem plainCommand_run_one {v : Vm} (h : v.AtPlainWord) :
    v.PlainCommand fpu limit (.run 1) := by
  rintro w ⟨hk, hrun, -, -, -⟩
  obtain rfl := Nat.lt_one_iff.mp hk
  injection hrun with hrun
  injection hrun with hrun
  have heq : v = w := congrArg Prod.fst hrun
  exact heq ▸ h

set_option maxRecDepth 4096 in
/-- A step, one instruction of `Run`, and an undo: what the machine finds in `x2`. -/
theorem overrun_values :
    ((Vm.initial 0x1000).reset.loadProgram smallConfig twoWrites >>= fun v₀ =>
      exec .zero 100 ⟨v₀, [], []⟩ .step >>= fun n₁ =>
      exec .zero 100 n₁ (.run 1) >>= fun n₂ => n₂.vm.undo >>= fun v =>
      .ok (v₀.core.memory.readWord v₀.core.programCounter,
        n₁.vm.core.memory.readWord n₁.vm.core.programCounter, n₁.vm.undoStack.length,
        n₂.vm.undoStack.length, n₂.undos.map (·.registers.readGpr 2), v.core.registers.readGpr 2)) =
      .ok (.ok 0x00100093, .ok 0x00200113, 1, 1, [0], 2) := by
  rfl

theorem undo_not_exact_after_run :
    ¬ ∀ v₀ n, (Vm.initial 0x1000).reset.loadProgram smallConfig twoWrites = .ok v₀ →
      Relation.ReflTransGen (Next .zero 100 fun _ _ => True) ⟨v₀, [], []⟩ n → n.UndoExact := by
  intro hexact
  obtain ⟨v₀, hload, h⟩ := Loop.bind_eq_ok overrun_values
  obtain ⟨n₁, hstep, h⟩ := Loop.bind_eq_ok h
  obtain ⟨n₂, hrun, h⟩ := Loop.bind_eq_ok h
  obtain ⟨v, hundo, h⟩ := Loop.bind_eq_ok h
  injection h with h
  simp only [Prod.mk.injEq] at h
  obtain ⟨hw₀, hw₁, -, hlen, hnotes, hx2⟩ := h
  have hplain₀ : v₀.AtPlainWord := ⟨_, hw₀, by constructor <;> decide⟩
  have hplain₁ : n₁.vm.AtPlainWord := ⟨_, hw₁, by constructor <;> decide⟩
  have hreach := (Relation.ReflTransGen.single (r := Next .zero 100 fun _ _ => True)
    ⟨.step, trivial, plainCommand_step hplain₀, hstep⟩).tail
    ⟨.run 1, trivial, plainCommand_run_one hplain₁, hrun⟩
  obtain ⟨s, undos, v', hundos, hv', -, hregisters, -⟩ := hexact v₀ n₂ hload hreach (by
    intro hnil
    rw [hnil] at hlen
    exact absurd hlen (by decide))
  obtain rfl : v = v' := Except.ok.inj (hundo.symm.trans hv')
  rw [hundos, List.map_cons, List.cons.injEq, ← hregisters, hx2] at hnotes
  exact absurd hnotes.1 (by decide)

/-- A run of one step. -/
theorem undoExact_of_undisturbed_step :
    ∃ v₀ n, (Vm.initial 0x1000).reset.loadProgram smallConfig twoWrites = .ok v₀ ∧
      exec .zero 100 ⟨v₀, [], []⟩ .step = .ok n ∧ n.vm.undoStack ≠ [] ∧ n.UndoExact := by
  obtain ⟨v₀, hload, h⟩ := Loop.bind_eq_ok overrun_values
  obtain ⟨n₁, hstep, h⟩ := Loop.bind_eq_ok h
  obtain ⟨n₂, hrun, h⟩ := Loop.bind_eq_ok h
  obtain ⟨v, hundo, h⟩ := Loop.bind_eq_ok h
  injection h with h
  simp only [Prod.mk.injEq] at h
  have hplain : v₀.AtPlainWord := ⟨_, h.1, by constructor <;> decide⟩
  have hnone : v₀.NoChanges := by
    constructor <;> rw [(loadProgram_stacks hload).2.2] <;> rfl
  refine ⟨v₀, n₁, hload, hstep, fun hnil => ?_, undoExact_of_undisturbed hload
    (.single ⟨.step, fun _ => hnone, plainCommand_step hplain, hstep⟩)⟩
  have hlen := h.2.2.1
  rw [hnil] at hlen
  exact absurd hlen (by decide)

end Noted

end RiscvSim
