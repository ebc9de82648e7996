import RiscvSim.Commands

/-! `DebugRun` as a sequence of steps. -/

namespace RiscvSim

namespace Vm

variable {fpu : Fpu} {limit : Word} {v w : Vm}

/-- A turn of `DebugRun` that executes an instruction does what `Step` does. -/
theorem debugTurn_eq_yield_iff {executed executed' : Word} :
    debugTurn fpu limit (v, executed) = .ok (.yield (w, executed')) ↔
      (v.core.programCounter < v.programSize ∧ ¬ executed > limit ∧
        v.core.programCounter ∉ v.breakpoints) ∧
      v.step fpu = .ok w ∧ executed' = executed + 1 := by
  constructor
  · intro h
    obtain ⟨hgo, v₁, v₂, hpreview, hexec, hr⟩ := debugTurn_eq_yield h
    obtain ⟨x, -, hv₁⟩ := preview_eq_ok hpreview
    injection hr with hw hexecuted
    refine ⟨hgo, ?_, hexecuted⟩
    rw [step, hpreview, Loop.bind_ok, hv₁, noteState_core, noteState_programSize, if_pos hgo.1,
      ← hv₁, hexec, hw]
    rfl
  · rintro ⟨⟨hpc, hlimit, hbreak⟩, hstep, rfl⟩
    obtain ⟨v₁, v₂, hpreview, hexec, rfl⟩ := step_eq_ok hstep hpc
    obtain ⟨x, -, hv₁⟩ := preview_eq_ok hpreview
    simp only [debugTurn]
    rw [if_neg (not_not.mpr hpc), if_neg hlimit, hpreview, Loop.bind_ok, hv₁, noteState_core,
      noteState_breakpoints, if_neg hbreak, ← hv₁, hexec]
    rfl

/-- After `m` steps `DebugRun` has one of its three reasons to leave its loop; it counts the
steps in a 64-bit integer. -/
def StopsAt (limit : Word) (m : Nat) (w : Vm) : Prop :=
  ¬ w.core.programCounter < w.programSize ∨ BitVec.ofNat 64 m > limit ∨
    w.core.programCounter ∈ w.breakpoints

/-- `m` is the least number of steps from `v` after which there is a reason to leave. -/
structure StepsToStop (fpu : Fpu) (limit : Word) (v : Vm) (m : Nat) (w : Vm) : Prop where
  steps : Loop.iter (step fpu) m v = .ok w
  stops : StopsAt limit m w
  least : ∀ k < m, ∀ u, Loop.iter (step fpu) k v = .ok u → ¬ StopsAt limit k u

/-- The loop of `DebugRun` follows the steps up to the first reason to leave. -/
theorem debugRun_of_steps {k : Nat} (h : Loop.iter (step fpu) k v = .ok w)
    (hgo : ∀ j < k, ∀ u, Loop.iter (step fpu) j v = .ok u → ¬ StopsAt limit j u) :
    v.debugRun fpu limit k = .ok (.yield (w, BitVec.ofNat 64 k)) := by
  induction k generalizing w with
  | zero =>
    obtain rfl := Except.ok.inj h
    rfl
  | succ k ih =>
    rw [Loop.iter_succ_last] at h
    obtain ⟨u, hu, hstep⟩ := Loop.bind_eq_ok h
    have hrun := ih hu fun j hj => hgo j (by omega)
    have hstop := hgo k (Nat.lt_succ_self k) u hu
    simp only [StopsAt, not_or, not_not] at hstop
    have hturn := debugTurn_eq_yield_iff.mpr ⟨hstop, hstep, rfl⟩
    rw [debugRun, Loop.run_add hrun, Loop.run_succ_yield hturn, BitVec.ofNat_add]
    rfl

theorem steps_currentDelta {m : Nat} (hdelta : v.currentDelta = .empty)
    (h : Loop.iter (step fpu) m v = .ok w)
    (hpc : ∀ k < m, ∀ u, Loop.iter (step fpu) k v = .ok u →
      u.core.programCounter < u.programSize) :
    w.currentDelta = .empty ∧ w.redoStack = if m = 0 then v.redoStack else [] := by
  cases m with
  | zero =>
    obtain rfl := Except.ok.inj h
    exact ⟨hdelta, rfl⟩
  | succ m =>
    rw [Loop.iter_succ_last] at h
    obtain ⟨u, hu, hstep⟩ := Loop.bind_eq_ok h
    obtain ⟨v₁, v₂, -, -, rfl⟩ := step_eq_ok hstep (hpc m (Nat.lt_succ_self m) u hu)
    exact ⟨rfl, rfl⟩

/-- The preview of an instruction leaves no trace once its delta is dropped. -/
theorem noteState_empty (h : w.currentDelta = .empty) (x : Instr) :
    { w.noteState x with currentDelta := .empty } = w := by
  rw [← h]
  rfl

/-- `DebugRun` ends in the state of the steps up to the first reason to leave, undo stack and
all; where that reason is a breakpoint it has read the instruction there. -/
theorem debugRun_eq_steps {m : Nat} (hdelta : v.currentDelta = .empty)
    (h : StepsToStop fpu limit v m w)
    (hread : w.core.programCounter ∈ w.breakpoints → w.core.programCounter < w.programSize →
      ¬ BitVec.ofNat 64 m > limit → ∃ x, w.nextWord = .ok x) :
    ∃ turns, v.debugRun fpu limit turns = .ok (.done (w, BitVec.ofNat 64 m)) ∧
      w.redoStack = if m = 0 then v.redoStack else [] := by
  have hrun := debugRun_of_steps h.steps h.least
  obtain ⟨hempty, hredo⟩ := steps_currentDelta hdelta h.steps fun k hk u hu => by
    have hstop := h.least k hk u hu
    simp only [StopsAt, not_or, not_not] at hstop
    exact hstop.1
  refine ⟨m + 1, ?_, hredo⟩
  rw [debugRun, Loop.run_add hrun]
  refine Loop.run_succ_done ?_
  simp only [debugTurn]
  by_cases hpc : w.core.programCounter < w.programSize
  · rw [if_neg (not_not.mpr hpc)]
    by_cases hlimit : BitVec.ofNat 64 m > limit
    · rw [if_pos hlimit]
    · have hbreak := (h.stops.resolve_left (not_not.mpr hpc)).resolve_left hlimit
      obtain ⟨x, hx⟩ := hread hbreak hpc hlimit
      rw [if_neg hlimit, preview_of_nextWord hx, Loop.bind_ok, noteState_core,
        noteState_breakpoints, if_pos hbreak]
      exact congrArg (fun u => Except.ok (ForInStep.done (u, BitVec.ofNat 64 m))) (noteState_empty hempty x)
  · rw [if_pos hpc]

/-- A breakpoint at the last two bytes of a memory of four. -/
def atUnreadableBreakpoint : Vm :=
  { initial 4 with
    core := { Core.initial 4 with programCounter := 2 }
    programSize := 4
    breakpoints := [2, 4] }

theorem debugRun_not_steps :
    ¬ ∀ (fpu : Fpu) (limit : Word) (v w : Vm) (m : Nat), v.currentDelta = .empty →
      StepsToStop fpu limit v m w →
      ∃ turns, v.debugRun fpu limit turns = .ok (.done (w, BitVec.ofNat 64 m)) := by
  intro h
  have hstops : StepsToStop .zero 10 atUnreadableBreakpoint 0 atUnreadableBreakpoint :=
    ⟨rfl, .inr (.inr (List.mem_cons_self ..)), fun k hk => absurd hk (by omega)⟩
  obtain ⟨turns, hrun⟩ := h .zero 10 _ _ _ rfl hstops
  cases turns with
  | zero => cases hrun
  | succ turns =>
    have hturn : debugTurn .zero 10 (atUnreadableBreakpoint, 0) = .error .memoryOutOfRange := by
      rfl
    rw [debugRun, Loop.run_succ_error hturn] at hrun
    cases hrun

/-- Two steps of a program of two instructions. -/
theorem debugRun_eq_steps_adds :
    ∃ v w turns, StepsToStop .zero 10 v 2 w ∧
      v.debugRun .zero 10 turns = .ok (.done (w, BitVec.ofNat 64 2)) ∧
      w.redoStack = if 2 = 0 then v.redoStack else [] := by
  have hvalues : ((initial 0x1000).reset.loadProgram ⟨0x100, 100⟩ ⟨[0x00100093, 0x00100113], []⟩ >>=
      fun v₀ => v₀.step .zero >>= fun v₁ => v₁.step .zero >>= fun v₂ =>
        .ok ([v₀, v₁, v₂].map fun v => (decide (v.core.programCounter < v.programSize),
          decide (v.core.programCounter ∈ v.breakpoints)), decide (v₀.currentDelta = .empty))) =
      .ok ([(true, false), (true, false), (false, true)], true) := by
    decide +kernel
  obtain ⟨v₀, -, h⟩ := Loop.bind_eq_ok hvalues
  obtain ⟨v₁, hstep, h⟩ := Loop.bind_eq_ok h
  obtain ⟨v₂, hstep', h⟩ := Loop.bind_eq_ok h
  injection h with h
  simp only [List.map_cons, List.map_nil, Prod.mk.injEq, List.cons.injEq, decide_eq_true_eq,
    decide_eq_false_iff_not] at h
  obtain ⟨⟨⟨hpc₀, hbreak₀⟩, ⟨hpc₁, hbreak₁⟩, ⟨hpc₂, -⟩, -⟩, hdelta⟩ := h
  have hsteps : StepsToStop .zero 10 v₀ 2 v₂ := by
    refine ⟨by rw [Loop.iter_succ, hstep, Loop.bind_ok, Loop.iter_succ, hstep']; rfl,
      .inl hpc₂, fun k hk u hu => ?_⟩
    have hcases : k = 0 ∨ k = 1 := by omega
    rcases hcases with rfl | rfl
    · obtain rfl := Except.ok.inj hu
      rintro (hpc | hlimit | hbreak)
      · exact hpc hpc₀
      · exact absurd hlimit (by decide)
      · exact hbreak₀ hbreak
    · rw [Loop.iter_succ, hstep] at hu
      obtain rfl := Except.ok.inj hu
      rintro (hpc | hlimit | hbreak)
      · exact hpc hpc₁
      · exact absurd hlimit (by decide)
      · exact hbreak₁ hbreak
  obtain ⟨turns, hrun, hredo⟩ := debugRun_eq_steps hdelta hsteps fun _ hpc => absurd hpc hpc₂
  exact ⟨v₀, v₂, turns, hsteps, hrun, hredo⟩

end Vm

end RiscvSim
