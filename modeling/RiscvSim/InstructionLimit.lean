import RiscvSim.Budget
import RiscvSim.DebugSteps
import RiscvSim.Stall

/-! The instruction limit of `Run` and `DebugRun`. -/

namespace RiscvSim

namespace Vm

/-- The program counter is inside the program. -/
def Inside (v : Vm) : Prop := v.core.programCounter < v.programSize

instance (v : Vm) : Decidable v.Inside := inferInstanceAs (Decidable (_ < _))

/-- The loop of `Run` without its limit. -/
def freeTurn (fpu : Fpu) (v : Vm) : Except Fault (ForInStep Vm) :=
  if ¬ v.Inside then .ok (.done v)
  else if v.core.busy then do return .yield (← v.stallCycle)
  else do return .yield (← v.fetchCycle fpu)

/-- The loop of `DebugRun` without its limit, in steps. -/
def freeDebugTurn (fpu : Fpu) (v : Vm) : Except Fault (ForInStep Vm) :=
  if ¬ v.Inside then .ok (.done v)
  else if v.core.programCounter ∈ v.breakpoints then .ok (.done v)
  else do return .yield (← v.step fpu)

/-- A turn of `Run` retires an instruction unless the machine stalls. -/
def retires (v : Vm) : Bool := !v.core.busy

variable {fpu : Fpu} {limit : Word} {v w : Vm}

theorem freeTurn_eq_yield_iff :
    freeTurn fpu v = .ok (.yield w) ↔ v.Inside ∧
      (v.core.busy = true ∧ v.stallCycle = .ok w ∨
        v.core.busy = false ∧ v.fetchCycle fpu = .ok w) := by
  unfold freeTurn
  by_cases hin : v.Inside
  · rw [if_neg (not_not.mpr hin)]
    cases hbusy : v.core.busy with
    | true => cases v.stallCycle <;> simp [hin]
    | false => cases v.fetchCycle fpu <;> simp [hin]
  · rw [if_pos hin]
    simp [hin]

theorem freeDebugTurn_eq_yield_iff :
    freeDebugTurn fpu v = .ok (.yield w) ↔
      v.Inside ∧ v.core.programCounter ∉ v.breakpoints ∧ v.step fpu = .ok w := by
  unfold freeDebugTurn
  by_cases hin : v.Inside
  · rw [if_neg (not_not.mpr hin)]
    by_cases hbreak : v.core.programCounter ∈ v.breakpoints
    · rw [if_pos hbreak]
      simp [hbreak]
    · rw [if_neg hbreak]
      cases v.step fpu <;> simp [hin, hbreak]
  · rw [if_pos hin]
    simp [hin]

theorem budget_run (fpu : Fpu) (limit : Word) :
    Loop.Budget (runTurn fpu limit) (freeTurn fpu) retires limit := by
  intro v w i j
  rw [freeTurn_eq_yield_iff]
  constructor
  · intro h
    obtain ⟨⟨hpc, hlimit⟩, ⟨hbusy, hstall, hj⟩ | ⟨hbusy, hfetch, hj⟩⟩ := runTurn_eq_yield h
    · exact ⟨BitVec.not_lt.mp hlimit, ⟨hpc, .inl ⟨hbusy, hstall⟩⟩,
        hj.trans (if_neg (by simp [retires, hbusy])).symm⟩
    · exact ⟨BitVec.not_lt.mp hlimit, ⟨hpc, .inr ⟨hbusy, hfetch⟩⟩,
        hj.trans (if_pos (by simp [retires, hbusy])).symm⟩
  · rintro ⟨hlimit, ⟨hpc, ⟨hbusy, hstall⟩ | ⟨hbusy, hfetch⟩⟩, rfl⟩
    · rw [if_neg (by simp [retires, hbusy])]
      exact runTurn_stall hpc (BitVec.not_lt.mpr hlimit) hbusy hstall
    · rw [if_pos (by simp [retires, hbusy])]
      exact runTurn_fetch hpc (BitVec.not_lt.mpr hlimit) hbusy hfetch

theorem budget_debugRun (fpu : Fpu) (limit : Word) :
    Loop.Budget (debugTurn fpu limit) (freeDebugTurn fpu) (fun _ => true) limit := by
  intro v w i j
  rw [debugTurn_eq_yield_iff, freeDebugTurn_eq_yield_iff]
  constructor
  · rintro ⟨⟨hpc, hlimit, hbreak⟩, hstep, hj⟩
    exact ⟨BitVec.not_lt.mp hlimit, ⟨hpc, hbreak, hstep⟩, hj⟩
  · rintro ⟨hlimit, ⟨hpc, hbreak, hstep⟩, hj⟩
    exact ⟨⟨hpc, BitVec.not_lt.mpr hlimit, hbreak⟩, hstep, hj⟩

/-- What the documentation says of the limit, for a loop that counts the instructions it
retires: a positive limit bounds them, and the limit zero never ends the loop. -/
def LimitKept (turn : Word → Vm × Word → Except Fault (ForInStep (Vm × Word)))
    (retires : Vm → Bool) (limit : Word) (v : Vm) : Prop :=
  (limit ≠ 0 → ∀ n r, Loop.Budget.Reaches (turn limit) retires v n r → n ≤ limit.toNat) ∧
  (limit = 0 → ∀ n r, Loop.Budget.Reaches (turn limit) retires v n r →
    ¬ (r.1.Inside ∧ r.2 > limit))

/-- Without a limit the loop retires no more instructions than the limit, and no second one
where the limit is zero. -/
def EndsWithin (free : Vm → Except Fault (ForInStep Vm)) (retires : Vm → Bool) (limit : Word)
    (v : Vm) : Prop :=
  (limit ≠ 0 → ∀ n w, Loop.Counted free retires v n w → n ≤ limit.toNat) ∧
  (limit = 0 → ∀ w, Loop.Counted free retires v 1 w → ¬ w.Inside)

theorem limitKept_iff {turn : Word → Vm × Word → Except Fault (ForInStep (Vm × Word))}
    {free : Vm → Except Fault (ForInStep Vm)} {retires : Vm → Bool}
    (hbudget : ∀ limit, Loop.Budget (turn limit) free retires limit)
    (hback : ∀ v w, retires v = false → free v = .ok (.yield w) → w.Inside → v.Inside)
    (limit : Word) (v : Vm) :
    LimitKept turn retires limit v ↔ EndsWithin free retires limit v := by
  refine and_congr (imp_congr Iff.rfl (hbudget limit).keeps_iff) ?_
  constructor
  · rintro h rfl
    exact ((hbudget 0).zero_iff (by decide) hback).mp (h rfl)
  · rintro h rfl
    exact ((hbudget 0).zero_iff (by decide) hback).mpr (h rfl)

/-- `Run` and `DebugRun` keep to the limit as documented exactly where they would end by
themselves: a positive limit lets one instruction more pass, and the limit zero is a limit
of one. -/
theorem limit_kept_iff (fpu : Fpu) (limit : Word) (v : Vm) :
    (LimitKept (runTurn fpu) retires limit v ↔ EndsWithin (freeTurn fpu) retires limit v) ∧
    (LimitKept (debugTurn fpu) (fun _ => true) limit v ↔
      EndsWithin (freeDebugTurn fpu) (fun _ => true) limit v) := by
  refine ⟨limitKept_iff (budget_run fpu) (fun _ _ _ hturn _ => ?_) limit v,
    limitKept_iff (budget_debugRun fpu) (fun _ _ _ hturn _ => ?_) limit v⟩
  · exact (freeTurn_eq_yield_iff.mp hturn).1
  · exact (freeDebugTurn_eq_yield_iff.mp hturn).1

/-- Below the greatest limit one instruction too many is the most that passes. -/
theorem run_retires_le {n : Nat} {r : Vm × Word} (hlimit : limit.toNat + 1 < 2 ^ 64)
    (h : Loop.Budget.Reaches (runTurn fpu limit) retires v n r ∨
      Loop.Budget.Reaches (debugTurn fpu limit) (fun _ => true) v n r) :
    n ≤ limit.toNat + 1 := by
  rcases h with h | h
  · exact (budget_run fpu limit).le_succ hlimit h
  · exact (budget_debugRun fpu limit).le_succ hlimit h

/-- A program of two instructions under the limit zero. -/
theorem not_limitKept_zero :
    ¬ ∀ fpu limit v, LimitKept (runTurn fpu) retires limit v ∧
      LimitKept (debugTurn fpu) (fun _ => true) limit v := by
  intro h
  have hvalues : ((initial 0x1000).reset.loadProgram ⟨0x100, 0⟩ ⟨[0x00100093, 0x00100113], []⟩ >>=
      fun v₀ => v₀.fetchCycle .zero >>= fun v₁ =>
        .ok (decide v₀.Inside, v₀.core.busy, decide v₁.Inside)) = .ok (true, false, true) := by
    decide +kernel
  obtain ⟨v₀, -, hvalues⟩ := Loop.bind_eq_ok hvalues
  obtain ⟨v₁, hfetch, hvalues⟩ := Loop.bind_eq_ok hvalues
  injection hvalues with hvalues
  simp only [Prod.mk.injEq, decide_eq_true_eq] at hvalues
  obtain ⟨hin₀, hbusy, hin₁⟩ := hvalues
  have hturn : runTurn .zero 0 (v₀, 0) = .ok (.yield (v₁, 1)) :=
    runTurn_fetch hin₀ (show ¬ (0 : Word) > 0 by decide) hbusy hfetch
  have hreach : Loop.Budget.Reaches (runTurn .zero 0) retires v₀ 1 (v₁, 1) :=
    .count .start hturn (by simp [retires, hbusy])
  exact (h .zero 0 v₀).1.2 rfl 1 _ hreach ⟨hin₁, show (1 : Word) > 0 by decide⟩

end Vm

end RiscvSim
