import RiscvSim.Commands
import RiscvSim.Stages

/-! Stall cycles: what they leave alone, and that they depend on the machine only. -/

namespace RiscvSim

/-- What a stall cycle leaves alone. -/
structure StallFrame (c c' : Core) : Prop where
  programCounter : c'.programCounter = c.programCounter
  registers : c'.registers = c.registers
  controlUnit : c'.controlUnit = c.controlUnit
  currentInstruction : c'.currentInstruction = c.currentInstruction
  instructionsRetired : c'.instructionsRetired = c.instructionsRetired
  cycleS : c'.cycleS = c.cycleS + 1
  progress : UnitProgress c.bigmul c'.bigmul

theorem StallFrame.ldbmBusy {c c' : Core} (h : StallFrame c c') (hbusy : c.ldbmBusy = false) :
    c'.ldbmBusy = false := by
  rw [Core.ldbmBusy, Bool.and_eq_false_iff, Bool.not_eq_false'] at hbusy ⊢
  rw [h.controlUnit]
  exact hbusy.imp_right h.progress.ldbmDone

namespace Vm

/-- The history is the same, up to changes recorded in the current delta. -/
structure SameHistory (v v' : Vm) : Prop where
  programSize : v'.programSize = v.programSize
  breakpoints : v'.breakpoints = v.breakpoints
  undoStack : v'.undoStack = v.undoStack
  redoStack : v'.redoStack = v.redoStack
  oldPc : v'.currentDelta.oldPc = v.currentDelta.oldPc
  bigmulState : v'.currentDelta.bigmulState = v.currentDelta.bigmulState
  custom : v'.currentDelta.customInstrExecuted = v.currentDelta.customInstrExecuted

theorem SameHistory.refl (v : Vm) : SameHistory v v := ⟨rfl, rfl, rfl, rfl, rfl, rfl, rfl⟩

theorem SameHistory.trans {v v' v'' : Vm} (h : SameHistory v v') (h' : SameHistory v' v'') :
    SameHistory v v'' :=
  ⟨h'.programSize.trans h.programSize, h'.breakpoints.trans h.breakpoints,
    h'.undoStack.trans h.undoStack, h'.redoStack.trans h.redoStack, h'.oldPc.trans h.oldPc,
    h'.bigmulState.trans h.bigmulState, h'.custom.trans h.custom⟩

theorem fetchCycle_eq_ok {fpu : Fpu} {v v' : Vm} (h : v.fetchCycle fpu = .ok v') :
    ∃ changes, v.core.fetchCycle fpu = .ok (v'.core, changes) ∧
      v' = { v with core := v'.core, currentDelta := v.currentDelta.record changes } := by
  obtain ⟨⟨core, changes⟩, hcore, h⟩ := Loop.bind_eq_ok h
  obtain rfl := Except.ok.inj h
  exact ⟨changes, hcore, rfl⟩

theorem fetchCycle_history {fpu : Fpu} {v v' : Vm} (h : v.fetchCycle fpu = .ok v') :
    SameHistory v v' := by
  obtain ⟨changes, -, hv⟩ := fetchCycle_eq_ok h
  rw [hv]
  exact ⟨rfl, rfl, rfl, rfl, rfl, rfl, rfl⟩

theorem stallWrite_frame {v v' : Vm} (h : v.stallWrite = .ok v') :
    SameHistory v v' ∧ StallFrame v.core v'.core := by
  obtain ⟨⟨c, changes⟩, hmem, h⟩ := Loop.bind_eq_ok h
  obtain ⟨hc, hprogress⟩ := writeMemory_frame hmem
  obtain rfl := Except.ok.inj h
  refine ⟨⟨rfl, rfl, rfl, rfl, rfl, rfl, rfl⟩, ?_⟩
  rw [hc]
  exact ⟨rfl, rfl, rfl, rfl, rfl, rfl, hprogress⟩

theorem stallExecute_frame {v v' : Vm} (h : v.stallExecute = .ok v') :
    SameHistory v v' ∧ StallFrame v.core v'.core := by
  obtain ⟨u, hu, h⟩ := Loop.bind_eq_ok h
  obtain rfl := Except.ok.inj h
  obtain ⟨hldbm, hbigmul⟩ := executeBigmul_flags hu
  exact ⟨⟨rfl, rfl, rfl, rfl, rfl, rfl, rfl⟩,
    ⟨rfl, rfl, rfl, rfl, rfl, rfl, ⟨fun hd => hldbm.trans hd, fun hd => hbigmul.trans hd⟩⟩⟩

theorem stallBigmul_frame {v v' : Vm} (h : v.stallBigmul = .ok v') :
    SameHistory v v' ∧ StallFrame v.core v'.core := by
  unfold stallBigmul at h
  split at h
  · exact stallWrite_frame h
  · exact stallExecute_frame h

theorem stallCycle_frame {v v' : Vm} (h : v.stallCycle = .ok v') :
    SameHistory v v' ∧ StallFrame v.core v'.core := by
  unfold stallCycle at h
  split at h
  · exact stallWrite_frame h
  · exact stallBigmul_frame h

theorem drain_of_false {cond : Vm → Bool} {body : Vm → Except Fault Vm} {v : Vm}
    (h : cond v = false) : drain cond body v = .ok v := by
  unfold drain drainBudget
  rw [Loop.run_succ_done (Loop.whileTurn_false h)]

theorem drains_of_not_busy {v : Vm} (h : v.core.busy = false) :
    (v.drainLdbm >>= fun w => w.drainBigmul) = .ok v := by
  obtain ⟨hldbm, hbigmul⟩ := Bool.or_eq_false_iff.mp h
  rw [drainLdbm, drain_of_false hldbm, Loop.bind_ok, drainBigmul, drain_of_false hbigmul]

/-- A drain that returned ran its body until the condition failed. -/
theorem drain_eq_ok {cond : Vm → Bool} {body : Vm → Except Fault Vm} {v w : Vm}
    (h : drain cond body v = .ok w) : ∃ n < drainBudget, Loop.iter body n v = .ok w ∧
      cond w = false ∧ ∀ k < n, ∃ u, Loop.iter body k v = .ok u ∧ cond u = true := by
  unfold drain at h
  split at h
  · exact nomatch h
  · rename_i u hrun
    obtain rfl := Except.ok.inj h
    exact Loop.iter_of_run_while hrun
  · exact nomatch h

theorem drain_invariant {cond : Vm → Bool} {body : Vm → Except Fault Vm} (P : Vm → Prop)
    (hbody : ∀ v v', P v → body v = .ok v' → P v') {v w : Vm} (hv : P v)
    (h : drain cond body v = .ok w) : P w := by
  obtain ⟨n, -, hiter, -⟩ := drain_eq_ok h
  exact Loop.iter_invariant P hbody hv hiter

theorem drain_end {cond : Vm → Bool} {body : Vm → Except Fault Vm} {v w : Vm}
    (h : drain cond body v = .ok w) : cond w = false := by
  obtain ⟨n, -, -, hend, -⟩ := drain_eq_ok h
  exact hend

theorem executeInstruction_history {fpu : Fpu} {v v' : Vm}
    (h : v.executeInstruction fpu = .ok v') : SameHistory v v' := by
  obtain ⟨v₁, hfetch, h⟩ := Loop.bind_eq_ok h
  obtain ⟨v₂, hldbm, hbigmul⟩ := Loop.bind_eq_ok h
  have h₂ : SameHistory v v₂ :=
    drain_invariant (SameHistory v) (fun _ _ hu hstall => hu.trans (stallWrite_frame hstall).1)
      (fetchCycle_history hfetch) hldbm
  exact drain_invariant (SameHistory v)
    (fun _ _ hu hstall => hu.trans (stallBigmul_frame hstall).1) h₂ hbigmul

/-- The same machine, whatever the histories are. -/
structure SameMachine (v w : Vm) : Prop where
  core : v.core = w.core
  programSize : v.programSize = w.programSize

variable {v v' w : Vm}

theorem SameMachine.fetchCycle {fpu : Fpu} (h : SameMachine v w) (hv : v.fetchCycle fpu = .ok v') :
    ∃ w', w.fetchCycle fpu = .ok w' ∧ SameMachine v' w' := by
  obtain ⟨⟨c, changes⟩, hcore, hv⟩ := Loop.bind_eq_ok hv
  obtain rfl := Except.ok.inj hv
  rw [h.core] at hcore
  have hw : w.fetchCycle fpu = .ok ({ w with core := c }.record changes) := by
    rw [Vm.fetchCycle, hcore]
    rfl
  exact ⟨_, hw, rfl, h.programSize⟩

theorem SameMachine.stallWrite (h : SameMachine v w) (hv : v.stallWrite = .ok v') :
    ∃ w', w.stallWrite = .ok w' ∧ SameMachine v' w' := by
  obtain ⟨⟨c, changes⟩, hcore, hv⟩ := Loop.bind_eq_ok hv
  obtain rfl := Except.ok.inj hv
  rw [h.core] at hcore
  have hw : w.stallWrite =
      .ok ({ w with core := { c with cycleS := c.cycleS + 1 } }.record changes) := by
    rw [Vm.stallWrite, hcore]
    rfl
  exact ⟨_, hw, rfl, h.programSize⟩

theorem SameMachine.stallExecute (h : SameMachine v w) (hv : v.stallExecute = .ok v') :
    ∃ w', w.stallExecute = .ok w' ∧ SameMachine v' w' := by
  obtain ⟨u, hcore, hv⟩ := Loop.bind_eq_ok hv
  obtain rfl := Except.ok.inj hv
  rw [h.core] at hcore
  have hw : w.stallExecute =
      .ok { w with core := { w.core with bigmul := u, cycleS := w.core.cycleS + 1 } } := by
    rw [Vm.stallExecute, hcore]
    rfl
  exact ⟨_, hw, by rw [h.core], h.programSize⟩

theorem SameMachine.stallBigmul (h : SameMachine v w) (hv : v.stallBigmul = .ok v') :
    ∃ w', w.stallBigmul = .ok w' ∧ SameMachine v' w' := by
  unfold Vm.stallBigmul at hv ⊢
  rw [h.core] at hv
  by_cases hwrite : w.core.bigmul.writeDone = true
  · rw [if_neg (by simpa using hwrite)] at hv ⊢
    exact h.stallExecute hv
  · rw [if_pos hwrite] at hv ⊢
    exact h.stallWrite hv

theorem SameMachine.stallCycle (h : SameMachine v w) (hv : v.stallCycle = .ok v') :
    ∃ w', w.stallCycle = .ok w' ∧ SameMachine v' w' := by
  unfold Vm.stallCycle at hv ⊢
  rw [h.core] at hv
  cases hbusy : w.core.ldbmBusy with
  | true =>
    rw [hbusy, if_pos rfl] at hv
    rw [if_pos rfl]
    exact h.stallWrite hv
  | false =>
    rw [hbusy, if_neg (by decide)] at hv
    rw [if_neg (by decide)]
    exact h.stallBigmul hv

theorem SameMachine.symm {v w : Vm} (h : SameMachine v w) : SameMachine w v :=
  ⟨h.core.symm, h.programSize.symm⟩

/-- The two stall loops of a step are stall cycles of `Run` until nothing is busy. -/
theorem drains_eq_iter {v w : Vm} (h : (v.drainLdbm >>= fun u => u.drainBigmul) = .ok w) :
    ∃ n < 2 * drainBudget, Loop.iter stallCycle n v = .ok w ∧ w.core.busy = false ∧
      ∀ k < n, ∃ u, Loop.iter stallCycle k v = .ok u ∧ u.core.busy = true := by
  obtain ⟨v₁, hldbm, hbigmul⟩ := Loop.bind_eq_ok h
  obtain ⟨m, hm, hiter, hend, hwhile⟩ := drain_eq_ok hldbm
  obtain ⟨n, hn, hiter', hend', hwhile'⟩ := drain_eq_ok hbigmul
  have hidle {k : Nat} {u : Vm} (hu : Loop.iter stallBigmul k v₁ = .ok u) :
      u.core.ldbmBusy = false :=
    Loop.iter_invariant (fun u => u.core.ldbmBusy = false)
      (fun s t hs ht => (stallBigmul_frame ht).2.ldbmBusy hs) hend hu
  -- each loop runs the stall cycle of `Run`
  have hfirst : ∀ k ≤ m, Loop.iter stallWrite k v = Loop.iter stallCycle k v := by
    intro k hk
    refine Loop.iter_congr fun j hj u hu => ?_
    obtain ⟨u', hu', hbusy⟩ := hwhile j (by omega)
    obtain rfl : u = u' := Except.ok.inj (hu.symm.trans hu')
    rw [stallCycle, if_pos hbusy]
  have hsecond (k : Nat) : Loop.iter stallBigmul k v₁ = Loop.iter stallCycle k v₁ := by
    refine Loop.iter_congr fun j hj u hu => ?_
    rw [stallCycle, if_neg (by simp [hidle hu])]
  have hsplit (k : Nat) : Loop.iter stallCycle (m + k) v = Loop.iter stallBigmul k v₁ := by
    rw [Loop.iter_add, ← hfirst m (Nat.le_refl m), hiter, Loop.bind_ok, hsecond]
  refine ⟨m + n, by omega, (hsplit n).trans hiter', Bool.or_eq_false_iff.mpr ⟨hidle hiter', hend'⟩, ?_⟩
  intro k hk
  rcases Nat.lt_or_ge k m with hlt | hge
  · obtain ⟨u, hu, hbusy⟩ := hwhile k hlt
    exact ⟨u, (hfirst k hlt.le).symm.trans hu, Bool.or_eq_true_iff.mpr (.inl hbusy)⟩
  · obtain ⟨j, rfl⟩ := Nat.exists_eq_add_of_le hge
    obtain ⟨u, hu, hbusy⟩ := hwhile' j (by omega)
    exact ⟨u, (hsplit j).trans hu, Bool.or_eq_true_iff.mpr (.inr hbusy)⟩

end Vm

end RiscvSim
