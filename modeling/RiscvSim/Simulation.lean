import RiscvSim.Loop

/-! Runs of machines that take one step after another, and machines that follow the steps of
others. -/

namespace Simulation

/-- A run of `n` steps. -/
inductive Runs {σ : Type} (step : σ → σ → Prop) : Nat → σ → σ → Prop
  | refl (s : σ) : Runs step 0 s s
  | head {n : Nat} {s t u : σ} (h : step s t) (rest : Runs step n t u) : Runs step (n + 1) s u

/-- Every step from a state of the first machine is matched by a step from the related state of
the second. -/
def Simulates {σ τ : Type} (R : σ → τ → Prop) (step : σ → σ → Prop) (step' : τ → τ → Prop) : Prop :=
  ∀ s t s', R s t → step s s' → ∃ t', step' t t' ∧ R s' t'

namespace Runs

variable {σ : Type} {step : σ → σ → Prop}

theorem snoc {n : Nat} {s t u : σ} (h : Runs step n s t) (hstep : step t u) :
    Runs step (n + 1) s u := by
  induction h with
  | refl s => exact .head hstep (.refl u)
  | head h _ ih => exact .head h (ih hstep)

/-- A run stops on its way at every number of steps below its own. -/
theorem stop {n k : Nat} {s u : σ} (h : Runs step n s u) (hk : k < n) :
    ∃ t t', Runs step k s t ∧ step t t' := by
  induction h generalizing k with
  | refl s => exact absurd hk (Nat.not_lt_zero k)
  | head h _ ih =>
    cases k with
    | zero => exact ⟨_, _, .refl _, h⟩
    | succ k =>
      obtain ⟨t, t', hrun, hstep⟩ := ih (Nat.lt_of_succ_lt_succ hk)
      exact ⟨t, t', .head h hrun, hstep⟩

end Runs

/-- A run under a sequence of inputs. -/
inductive Traces {α σ : Type} (step : α → σ → σ → Prop) : List α → σ → σ → Prop
  | nil (s : σ) : Traces step [] s s
  | cons {a : α} {inputs : List α} {s t u : σ} (h : step a s t) (rest : Traces step inputs t u) :
      Traces step (a :: inputs) s u

namespace Simulates

variable {σ τ : Type} {step : σ → σ → Prop} {step' : τ → τ → Prop} {R : σ → τ → Prop}

theorem runs (h : Simulates R step step') {n : Nat} {s s' : σ} {t : τ} (hst : R s t)
    (hrun : Runs step n s s') : ∃ t', Runs step' n t t' ∧ R s' t' := by
  induction hrun generalizing t with
  | refl s => exact ⟨t, .refl t, hst⟩
  | head hstep _ ih =>
    obtain ⟨u, hu, hR⟩ := h _ _ _ hst hstep
    obtain ⟨t', hrun, hR'⟩ := ih hR
    exact ⟨t', .head hu hrun, hR'⟩

/-- Machines that follow each other input by input. -/
theorem traces {α : Type} {step : α → σ → σ → Prop} {step' : α → τ → τ → Prop}
    (h : ∀ a, Simulates R (step a) (step' a)) {inputs : List α} {s s' : σ} {t : τ} (hst : R s t)
    (hrun : Traces step inputs s s') : ∃ t', Traces step' inputs t t' ∧ R s' t' := by
  induction hrun generalizing t with
  | nil s => exact ⟨t, .nil t, hst⟩
  | cons hstep _ ih =>
    obtain ⟨u, hu, hR⟩ := h _ _ _ _ hst hstep
    obtain ⟨t', hrun, hR'⟩ := ih hR
    exact ⟨t', .cons hu hrun, hR'⟩

end Simulates

/-- Two machines that are given the same inputs. -/
theorem foldlM_follows {α ε σ τ : Type} {R : σ → τ → Prop} {next : σ → α → Option σ}
    {perform : τ → α → Except ε τ}
    (hstep : ∀ s t a s', R s t → next s a = some s' → ∃ t', perform t a = .ok t' ∧ R s' t')
    {inputs : List α} {s s' : σ} {t : τ} (hst : R s t) (h : inputs.foldlM next s = some s') :
    ∃ t', inputs.foldlM perform t = .ok t' ∧ R s' t' := by
  induction inputs generalizing s t with
  | nil =>
    obtain rfl := Option.some.inj h
    exact ⟨t, rfl, hst⟩
  | cons a inputs ih =>
    rw [List.foldlM_cons, Option.bind_eq_bind, Option.bind_eq_some_iff] at h
    obtain ⟨u, hu, hrest⟩ := h
    obtain ⟨v, hv, hR⟩ := hstep s t a u hst hu
    rw [List.foldlM_cons, hv]
    exact ih hR hrest

end Simulation

/-- A run of a deterministic machine repeats its step. -/
theorem Loop.iter_of_runs {ε σ : Type} {body : σ → Except ε σ} {n : Nat} {s t : σ}
    (h : Simulation.Runs (fun s t => body s = .ok t) n s t) : Loop.iter body n s = .ok t := by
  induction h with
  | refl s => rfl
  | head hstep _ ih => rw [Loop.iter_succ, hstep, Loop.bind_ok, ih]

/-- One turn more. -/
theorem Loop.run_snoc {ε σ : Type} {turn : σ → Except ε (ForInStep σ)} {n : Nat} {s t : σ}
    {r : ForInStep σ} (h : Loop.run turn n s = .ok (.yield t)) (hturn : turn t = .ok r) :
    Loop.run turn (n + 1) s = .ok r := by
  rw [Loop.run_add h]
  cases r with
  | done u => exact Loop.run_succ_done hturn
  | yield u => exact Loop.run_succ_yield hturn

/-- A loop whose rounds make progress returns where they end. -/
theorem Loop.exhaust_of_steps {ε σ : Type} {measure : σ → Nat} {cond : σ → Bool}
    {body : σ → Except ε σ} {s t : σ}
    (hdec : ∀ u v, Loop.Steps cond body s u → cond u = true → body u = .ok v → measure v < measure u)
    (h : Loop.Steps cond body s t) (hend : cond t = false) :
    Loop.exhaust measure cond body s = .ok t := by
  cases hrun : Loop.exhaust measure cond body s with
  | ok u =>
    obtain ⟨hu, huend⟩ := Loop.exhaust_steps hdec hrun
    rw [h.end_unique hu hend huend]
  | error e =>
    obtain ⟨u, hu, hcond, hbody⟩ := Loop.exhaust_error hrun
    cases hu.compare h hend with
    | refl =>
      rw [hend] at hcond
      cases hcond
    | step _ hbody' =>
      rw [hbody] at hbody'
      cases hbody'
