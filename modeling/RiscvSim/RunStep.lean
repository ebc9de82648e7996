import Mathlib.Tactic.IntervalCases
import RiscvSim.BusyFetch

/-! `Run` and repeated `Step`. `Run` waits for an operation of the unit at the top of its
next turn, `Step` before it returns, so they part where the loop of `Run` ends first. -/

namespace RiscvSim

theorem BigmulState.Idle.busy {c : Core} (h : c.bigmul.Idle) : c.busy = false := by
  simp [Core.busy, Core.ldbmBusy, Core.bigmulBusy, h.ldbmDone, h.bigmulDone]

namespace Vm

variable {fpu : Fpu} {limit : Word}

/-- `Run` takes one turn for each stall cycle while the program counter is in the program. -/
theorem run_of_iter_stallCycle {n : Nat} {v w : Vm} {executed : Word}
    (hpc : v.core.programCounter < v.programSize) (hlimit : ¬ executed > limit)
    (h : Loop.iter stallCycle n v = .ok w)
    (hbusy : ∀ k < n, ∃ u, Loop.iter stallCycle k v = .ok u ∧ u.core.busy = true) :
    Loop.run (runTurn fpu limit) n (v, executed) = .ok (.yield (w, executed)) := by
  induction n generalizing v with
  | zero =>
    obtain rfl := Except.ok.inj h
    rfl
  | succ n ih =>
    obtain ⟨u, hu, h⟩ := Loop.bind_eq_ok h
    obtain ⟨v', hv', hv⟩ := hbusy 0 (Nat.succ_pos n)
    obtain rfl := Except.ok.inj hv'
    have hturn : runTurn fpu limit (v, executed) = .ok (.yield (u, executed)) := by
      simp only [runTurn]
      rw [if_neg (not_not.mpr hpc), if_neg hlimit, if_pos hv, hu]
      rfl
    obtain ⟨hsame, hframe⟩ := stallCycle_frame hu
    rw [Loop.run_succ_yield hturn]
    refine ih ?_ h fun k hk => ?_
    · rw [hframe.programCounter, hsame.programSize]
      exact hpc
    · obtain ⟨t, ht, hbusy'⟩ := hbusy (k + 1) (by omega)
      rw [Loop.iter_succ, hu] at ht
      exact ⟨t, ht, hbusy'⟩

/-- A step of an idle machine: the fetch cycle and what follows it. -/
theorem step_eq_fetch {v w w' : Vm} (hsame : SameMachine v w) (hidle : w.core.bigmul.Idle)
    (hpc : w.core.programCounter < w.programSize) (h : w.step fpu = .ok w') :
    ∃ v₁ w₁, v.fetchCycle fpu = .ok v₁ ∧ SameMachine v₁ w₁ ∧
      (∃ changes, w.core.fetchCycle fpu = .ok (w₁.core, changes)) ∧
      (∃ u, (w₁.drainLdbm >>= fun u => u.drainBigmul) = .ok u ∧ w' = u.commit) ∧
      w'.core.bigmul.Idle := by
  obtain ⟨w₀, w₂, hpreview, hexec, rfl⟩ := step_eq_ok h hpc
  obtain ⟨x, -, hw₀⟩ := preview_eq_ok hpreview
  have hcore₀ : w₀.core = w.core := by rw [hw₀, noteState_core]
  have hsame₀ : SameMachine w₀ v := by
    rw [hw₀]
    exact ⟨hsame.core.symm, hsame.programSize.symm⟩
  have hidle' := executeInstruction_idle (hcore₀ ▸ hidle) hexec
  obtain ⟨w₁, hfetch, hdrain⟩ := Loop.bind_eq_ok hexec
  obtain ⟨changes, hcycle, -⟩ := fetchCycle_eq_ok hfetch
  obtain ⟨v₁, hv₁, hsame₁⟩ := hsame₀.fetchCycle hfetch
  exact ⟨v₁, w₁, hv₁, hsame₁.symm, ⟨changes, hcore₀ ▸ hcycle⟩, ⟨w₂, hdrain, rfl⟩, hidle'⟩

/-- Stalls leave the program counter and the size of the program alone. -/
theorem drains_frame {v w : Vm} (h : (v.drainLdbm >>= fun u => u.drainBigmul) = .ok w) :
    w.core.programCounter = v.core.programCounter ∧ w.programSize = v.programSize := by
  obtain ⟨n, -, hiter, -⟩ := drains_eq_iter h
  refine Loop.iter_invariant (fun u => u.core.programCounter = v.core.programCounter ∧
    u.programSize = v.programSize) (fun s t hs ht => ?_) ⟨rfl, rfl⟩ hiter
  obtain ⟨hsame, hframe⟩ := stallCycle_frame ht
  exact ⟨hframe.programCounter.trans hs.1, hsame.programSize.trans hs.2⟩

/-- A step that ends inside the program is a number of turns of `Run`. -/
theorem run_of_step {v w w' : Vm} {executed : Word} (hsame : SameMachine v w)
    (hidle : w.core.bigmul.Idle) (hpc : w.core.programCounter < w.programSize)
    (hlimit : ¬ executed > limit) (hlimit' : ¬ executed + 1 > limit)
    (h : w.step fpu = .ok w') (hpc' : w'.core.programCounter < w'.programSize) :
    ∃ turns v', Loop.run (runTurn fpu limit) turns (v, executed) =
      .ok (.yield (v', executed + 1)) ∧ SameMachine v' w' ∧ w'.core.bigmul.Idle := by
  obtain ⟨v₁, w₁, hfetch, hsame₁, -, ⟨u, hdrain, rfl⟩, hidle'⟩ := step_eq_fetch hsame hidle hpc h
  obtain ⟨hpcu, hsize⟩ := drains_frame hdrain
  obtain ⟨n, -, hiter, hend, hbusy⟩ := drains_eq_iter hdrain
  have hsim {k : Nat} {t : Vm} (ht : Loop.iter stallCycle k w₁ = .ok t) :
      ∃ t', Loop.iter stallCycle k v₁ = .ok t' ∧ SameMachine t t' :=
    Loop.iter_simulates SameMachine (fun _ _ _ hs ht => hs.stallCycle ht) hsame₁.symm ht
  obtain ⟨v', hv', hsame'⟩ := hsim hiter
  have hstart : Loop.run (runTurn fpu limit) 1 (v, executed) = .ok (.yield (v₁, executed + 1)) := by
    refine Loop.run_succ_yield (runTurn_fetch ?_ hlimit ?_ hfetch)
    · rw [hsame.core, hsame.programSize]
      exact hpc
    · rw [hsame.core]
      exact hidle.busy
  refine ⟨1 + n, v', ?_, ⟨hsame'.symm.core, hsame'.symm.programSize⟩, hidle'⟩
  rw [Loop.run_add hstart]
  refine run_of_iter_stallCycle ?_ hlimit' hv' fun k hk => ?_
  · rw [hsame₁.core, hsame₁.programSize, ← hpcu, ← hsize]
    exact hpc'
  · obtain ⟨t, ht, hbusy'⟩ := hbusy k hk
    obtain ⟨t', ht', hsame''⟩ := hsim ht
    exact ⟨t', ht', hsame''.core ▸ hbusy'⟩

theorem executed_le {limit : Word} {k n : Nat} (hk : k ≤ n) (hlimit : n < limit.toNat) :
    ¬ BitVec.ofNat 64 k > limit := by
  rw [gt_iff_lt, BitVec.lt_def, BitVec.toNat_ofNat, Nat.mod_eq_of_lt (by omega)]
  omega

/-- `Run` follows the steps that end inside the program. -/
theorem run_of_steps {v w : Vm} {n k : Nat} (hidle : v.core.bigmul.Idle)
    (hlimit : n < limit.toNat) (hk : k ≤ n) (h : Loop.iter (step fpu) k v = .ok w)
    (hpc : ∀ j ≤ k, ∃ u, Loop.iter (step fpu) j v = .ok u ∧
      u.core.programCounter < u.programSize) :
    ∃ turns v', v.run fpu limit turns = .ok (.yield (v', BitVec.ofNat 64 k)) ∧
      SameMachine v' w ∧ w.core.bigmul.Idle := by
  induction k generalizing w with
  | zero =>
    obtain rfl := Except.ok.inj h
    exact ⟨0, v, rfl, ⟨rfl, rfl⟩, hidle⟩
  | succ k ih =>
    rw [Loop.iter_succ_last] at h
    obtain ⟨u, hu, hstep⟩ := Loop.bind_eq_ok h
    obtain ⟨turns, v₁, hrun, hsame, hidle₁⟩ := ih (by omega) hu fun j hj => hpc j (by omega)
    have hpcu : u.core.programCounter < u.programSize := by
      obtain ⟨u', hu', hpcu⟩ := hpc k (Nat.le_succ k)
      obtain rfl := Except.ok.inj (hu.symm.trans hu')
      exact hpcu
    have hpcw : w.core.programCounter < w.programSize := by
      obtain ⟨w', hw', hpcw⟩ := hpc (k + 1) (Nat.le_refl _)
      rw [Loop.iter_succ_last, hu, Loop.bind_ok, hstep] at hw'
      exact Except.ok.inj hw' ▸ hpcw
    have hnext : BitVec.ofNat 64 k + 1 = BitVec.ofNat 64 (k + 1) := by
      rw [BitVec.ofNat_add]
      rfl
    have hlimit' : ¬ BitVec.ofNat 64 k + 1 > limit := hnext ▸ executed_le hk hlimit
    obtain ⟨turns', v₂, hrun', hsame', hidle'⟩ := run_of_step hsame hidle₁ hpcu
      (executed_le (by omega) hlimit) hlimit' hstep hpcw
    refine ⟨turns + turns', v₂, ?_, hsame', hidle'⟩
    rw [run, Loop.run_add hrun, hrun', hnext]

/-- Repeated steps from `v` reach the end of the program after `n` instructions at `w`. -/
structure StepsToEnd (fpu : Fpu) (v : Vm) (n : Nat) (w : Vm) : Prop where
  steps : Loop.iter (step fpu) n v = .ok w
  inside : ∀ k < n, ∃ u, Loop.iter (step fpu) k v = .ok u ∧ u.core.programCounter < u.programSize
  atEnd : ¬ w.core.programCounter < w.programSize

/-- The instruction executed last is an LDBM or a BIGMUL. -/
def LastIsCustom (fpu : Fpu) (v : Vm) (n : Nat) : Prop :=
  ∃ k u, n = k + 1 ∧ Loop.iter (step fpu) k v = .ok u ∧ u.AtCustom

/-- `Run` ends by itself with the result of the repeated steps. -/
def RunAgrees (fpu : Fpu) (limit : Word) (v w : Vm) : Prop :=
  ∃ turns u executed, v.run fpu limit turns = .ok (.done (u, executed)) ∧
    SameResult u.core w.core

/-- Where `Run` ends: after the fetch cycle of the last instruction. -/
theorem run_to_end {v w : Vm} {n : Nat} (hidle : v.core.bigmul.Idle)
    (hlimit : n < limit.toNat) (h : StepsToEnd fpu v n w) :
    (n = 0 ∧ w = v ∧ v.run fpu limit 1 = .ok (.done (v, 0))) ∨
    ∃ (k : Nat) (u u₁ : Vm) (turns : Nat) (v₁ : Vm) (changes : Changes), n = k + 1 ∧ Loop.iter (step fpu) k v = .ok u ∧
      u.core.bigmul.Idle ∧ u.core.fetchCycle fpu = .ok (u₁.core, changes) ∧
      (∃ x, (u₁.drainLdbm >>= fun u => u.drainBigmul) = .ok x ∧ w = x.commit) ∧
      v.run fpu limit turns = .ok (.done (v₁, BitVec.ofNat 64 k + 1)) ∧ v₁.core = u₁.core ∧
      w.core.bigmul.Idle := by
  cases n with
  | zero =>
    obtain rfl := Except.ok.inj h.steps
    exact .inl ⟨rfl, rfl, Loop.run_succ_done (runTurn_end (.inl h.atEnd))⟩
  | succ k =>
    have hsteps := h.steps
    rw [Loop.iter_succ_last] at hsteps
    obtain ⟨u, hu, hstep⟩ := Loop.bind_eq_ok hsteps
    obtain ⟨u', hu', hpc⟩ := h.inside k (Nat.lt_succ_self k)
    obtain rfl := Except.ok.inj (hu.symm.trans hu')
    obtain ⟨turns, v₀, hrun, hsame, hidleu⟩ := run_of_steps hidle hlimit (Nat.le_succ k) hu
      fun j hj => h.inside j (by omega)
    obtain ⟨v₁, u₁, hfetch, hsame₁, ⟨changes, hcycle⟩, ⟨x, hdrain, hx⟩, hidlew⟩ :=
      step_eq_fetch hsame hidleu hpc hstep
    refine .inr ⟨k, u, u₁, turns + 2, v₁, changes, rfl, hu, hidleu, hcycle, ⟨x, hdrain, hx⟩, ?_,
      hsame₁.core, hidlew⟩
    have hturn : runTurn fpu limit (v₀, BitVec.ofNat 64 k) = _ := runTurn_fetch
      (by rw [hsame.core, hsame.programSize]; exact hpc) (executed_le (Nat.le_succ k) hlimit)
      (by rw [hsame.core]; exact hidleu.busy) hfetch
    have hend : ¬ v₁.core.programCounter < v₁.programSize := by
      obtain ⟨hpcx, hsizex⟩ := drains_frame hdrain
      have hatEnd := h.atEnd
      rw [hx] at hatEnd
      rw [hsame₁.core, hsame₁.programSize, ← hpcx, ← hsizex]
      exact hatEnd
    rw [run, Loop.run_add hrun, Loop.run_succ_yield hturn, Loop.run_succ_done (runTurn_end (.inl hend))]

/-- `Run` ends as the repeated steps do exactly when the last instruction is no LDBM and
no BIGMUL. -/
theorem runAgrees_iff {config : Config} {program : AssembledProgram} {v v₀ w : Vm} {n : Nat}
    (hload : v.reset.loadProgram config program = .ok v₀)
    (hsteps : StepsToEnd fpu v₀ n w) (hlimit : n < limit.toNat) :
    RunAgrees fpu limit v₀ w ↔ ¬ LastIsCustom fpu v₀ n := by
  have hidle : v₀.core.bigmul.Idle := by
    obtain ⟨memory, programSize, breakpoints, rfl⟩ := loadProgram_eq_ok hload
    exact ⟨rfl, rfl⟩
  rcases run_to_end hidle hlimit hsteps with
    ⟨rfl, rfl, hrun⟩ | ⟨k, u, u₁, turns, v₁, changes, rfl, hu, hidleu, hcycle, hstep, hrun, hcore, hidlew⟩
  · constructor
    · rintro - ⟨k, u, hk, -⟩
      exact absurd hk (by omega)
    · exact fun _ => ⟨1, w, 0, hrun, .refl _⟩
  · constructor
    · rintro ⟨turns', u', executed, hrun', hresult⟩ ⟨k', y, hk', hy, x, hx, hop⟩
      obtain rfl : k = k' := by omega
      obtain rfl := Except.ok.inj (hu.symm.trans hy)
      have heq := Loop.run_done_unique hrun hrun'
      obtain rfl : v₁ = u' := congrArg Prod.fst heq
      -- the operation is still in progress where `Run` ends
      have hbusy : v₁.core.busy = true := by
        rw [hcore]
        rcases hop with hop | hop
        · exact Bool.or_eq_true_iff.mpr (.inl (fetchCycle_ldbm hx hop hidleu.ldbmDone hcycle))
        · exact Bool.or_eq_true_iff.mpr (.inr (fetchCycle_bigmul hx hop hidleu.bigmulDone hcycle))
      have hidle₁ : v₁.core.bigmul.Idle := by
        rw [hresult.bigmul]
        exact hidlew
      rw [hidle₁.busy] at hbusy
      exact nomatch hbusy
    · intro hlast
      obtain ⟨x, -, -, -, -, -, hx, -⟩ := fetchCycle_stages hcycle
      have hother : u₁.core.busy = false := by
        refine fetchCycle_other hx (fun hop => ?_) (fun hop => ?_) hcycle
        · exact hlast ⟨k, u, rfl, hu, x, hx, .inl hop⟩
        · exact hlast ⟨k, u, rfl, hu, x, hx, .inr hop⟩
      obtain ⟨y, hdrain, rfl⟩ := hstep
      rw [drains_of_not_busy hother] at hdrain
      obtain rfl := Except.ok.inj hdrain
      exact ⟨turns, v₁, _, hrun, by rw [hcore]; exact .refl _⟩

/-- `addi x1, x0, 1`, and `ldbm` of the operands at `x2` and `x4`. -/
def addThenLoad : AssembledProgram :=
  ⟨[0x00100093, 0b0000000_00100_00010_000_00000_0101010], []⟩

/-- `Run` and two steps on the program that ends with an LDBM. -/
theorem addThenLoad_run :
    ((initial 0x1000).reset.loadProgram ⟨0x100, 100⟩ addThenLoad >>= fun v₀ =>
      v₀.step .zero >>= fun v₁ => v₁.step .zero >>= fun v₂ => v₀.run .zero 100 3 >>= fun r =>
      .ok ([v₀, v₁, v₂].map fun v => decide (v.core.programCounter < v.programSize),
        v₂.core.bigmul.ldbmDone, match r with
          | .done r => some r.1.core.bigmul.ldbmDone
          | .yield _ => none)) = .ok ([true, true, false], true, some false) := by
  decide +kernel

theorem run_not_agrees_at_end :
    ¬ ∀ v₀ w n, (initial 0x1000).reset.loadProgram ⟨0x100, 100⟩ addThenLoad = .ok v₀ →
      StepsToEnd .zero v₀ n w → n < (100 : Word).toNat → RunAgrees .zero 100 v₀ w := by
  intro hagrees
  obtain ⟨v₀, hload, h⟩ := Loop.bind_eq_ok addThenLoad_run
  obtain ⟨v₁, hstep, h⟩ := Loop.bind_eq_ok h
  obtain ⟨v₂, hstep', h⟩ := Loop.bind_eq_ok h
  obtain ⟨r, hrun, h⟩ := Loop.bind_eq_ok h
  injection h with h
  simp only [List.map_cons, List.map_nil, Prod.mk.injEq, List.cons.injEq, decide_eq_true_eq,
    decide_eq_false_iff_not] at h
  obtain ⟨⟨hpc₀, hpc₁, hpc₂, -⟩, hdone, hleft⟩ := h
  have hsteps : StepsToEnd .zero v₀ 2 v₂ := by
    refine ⟨by rw [Loop.iter_succ, hstep, Loop.bind_ok, Loop.iter_succ, hstep']; rfl, ?_, hpc₂⟩
    intro k hk
    interval_cases k
    · exact ⟨v₀, rfl, hpc₀⟩
    · exact ⟨v₁, by rw [Loop.iter_succ, hstep]; rfl, hpc₁⟩
  obtain ⟨turns, u, executed, hrun', hresult⟩ := hagrees v₀ v₂ 2 hload hsteps (by decide)
  cases r with
  | yield r => exact nomatch hleft
  | done r =>
    obtain rfl := Loop.run_done_unique hrun hrun'
    have hflag : u.core.bigmul.ldbmDone = v₂.core.bigmul.ldbmDone :=
      congrArg BigmulState.ldbmDone hresult.bigmul
    rw [hdone] at hflag
    rw [Option.some.injEq, hflag] at hleft
    exact nomatch hleft

/-- The steps of the same program up to its LDBM, as a program of their own. -/
theorem runAgrees_iff_add :
    ∃ v₀ w, (initial 0x1000).reset.loadProgram ⟨0x100, 100⟩ ⟨[0x00100093], []⟩ = .ok v₀ ∧
      StepsToEnd .zero v₀ 1 w ∧ (RunAgrees .zero 100 v₀ w ↔ ¬ LastIsCustom .zero v₀ 1) := by
  have hvalues : ((initial 0x1000).reset.loadProgram ⟨0x100, 100⟩ ⟨[0x00100093], []⟩ >>=
      fun v₀ => v₀.step .zero >>= fun v₁ =>
        .ok ([v₀, v₁].map fun v => decide (v.core.programCounter < v.programSize))) =
      .ok [true, false] := by
    decide +kernel
  obtain ⟨v₀, hload, h⟩ := Loop.bind_eq_ok hvalues
  obtain ⟨v₁, hstep, h⟩ := Loop.bind_eq_ok h
  injection h with h
  simp only [List.map_cons, List.map_nil, List.cons.injEq, decide_eq_true_eq,
    decide_eq_false_iff_not] at h
  obtain ⟨hpc₀, hpc₁, -⟩ := h
  have hsteps : StepsToEnd .zero v₀ 1 v₁ := by
    refine ⟨by rw [Loop.iter_succ, hstep]; rfl, fun k hk => ?_, hpc₁⟩
    obtain rfl : k = 0 := by omega
    exact ⟨v₀, rfl, hpc₀⟩
  exact ⟨v₀, v₁, hload, hsteps, runAgrees_iff hload hsteps (by decide)⟩

end Vm

end RiscvSim
