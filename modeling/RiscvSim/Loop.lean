import Mathlib.Logic.Basic
import Mathlib.Logic.Function.Iterate

/-! Loops of a stateful program that may raise an error. One turn of a loop
either goes round again or leaves; a run is cut off after a number of turns, and
that cut-off also stands for a stop request seen at the head of the loop. -/

namespace Loop

variable {ε σ : Type}

/-- A traversal only sees the function at the elements. -/
theorem mapM_congr {α β : Type} {f g : α → Except ε β} {l : List α} (h : ∀ a ∈ l, f a = g a) :
    l.mapM f = l.mapM g := by
  induction l with
  | nil => rfl
  | cons a l ih =>
    rw [List.mapM_cons, List.mapM_cons, h a List.mem_cons_self,
      ih fun b hb => h b (List.mem_cons_of_mem a hb)]

/-- Peel one computation off a sequence that returned. -/
theorem bind_eq_ok {α β : Type} {x : Except ε α} {f : α → Except ε β} {b : β}
    (h : x >>= f = .ok b) : ∃ a, x = .ok a ∧ f a = .ok b := by
  cases x with
  | error e => exact nomatch h
  | ok a => exact ⟨a, rfl, h⟩

/-- What a computation that returned shows of its result. -/
theorem exists_of_map {α β : Type} {x : Except ε α} {f : α → β} {b : β}
    (h : x.toOption.map f = some b) : ∃ a, x = .ok a ∧ f a = b := by
  cases x with
  | error e => cases h
  | ok a => exact ⟨a, rfl, Option.some.inj h⟩

/-- An error of a sequence is an error of one of its two parts. -/
theorem bind_eq_error {α β : Type} {x : Except ε α} {f : α → Except ε β} {e : ε}
    (h : x >>= f = .error e) : x = .error e ∨ ∃ a, x = .ok a ∧ f a = .error e := by
  cases x with
  | error e' => exact .inl (congrArg Except.error (Except.error.inj h))
  | ok a => exact .inr ⟨a, rfl, h⟩

@[simp] theorem bind_ok {α β : Type} (a : α) (f : α → Except ε β) :
    (Except.ok a >>= f : Except ε β) = f a := rfl

theorem bind_of_eq_ok {α β : Type} {x : Except ε α} {a : α} (h : x = .ok a) (f : α → Except ε β) :
    x >>= f = f a := by
  rw [h, bind_ok]

@[simp] theorem bind_error {α β : Type} (e : ε) (f : α → Except ε β) :
    (Except.error e >>= f : Except ε β) = .error e := rfl

/-- A traversal that returned applied the function to each element in its place. -/
theorem mapM_eq_ok {α β : Type} {f : α → Except ε β} {l : List α} {r : List β}
    (h : l.mapM f = .ok r) :
    r.length = l.length ∧
      ∀ (i : Nat) (a : α), l[i]? = some a → ∃ b, r[i]? = some b ∧ f a = .ok b := by
  induction l generalizing r with
  | nil =>
    obtain rfl : ([] : List β) = r := Except.ok.inj h
    exact ⟨rfl, nofun⟩
  | cons a l ih =>
    rw [List.mapM_cons] at h
    obtain ⟨b, hb, h⟩ := bind_eq_ok h
    obtain ⟨r', hr', h⟩ := bind_eq_ok h
    obtain rfl : b :: r' = r := Except.ok.inj h
    obtain ⟨hlength, hget⟩ := ih hr'
    refine ⟨congrArg Nat.succ hlength, fun i c hi => ?_⟩
    cases i with
    | zero =>
      obtain rfl : a = c := Option.some.inj hi
      exact ⟨b, rfl, hb⟩
    | succ i => exact hget i c hi

/-- A traversal returns if the function does at every element. -/
theorem mapM_total {α β : Type} {f : α → Except ε β} {l : List α}
    (h : ∀ a ∈ l, ∃ b, f a = .ok b) : ∃ r, l.mapM f = .ok r := by
  induction l with
  | nil => exact ⟨[], rfl⟩
  | cons a l ih =>
    obtain ⟨b, hb⟩ := h a List.mem_cons_self
    obtain ⟨r, hr⟩ := ih fun c hc => h c (List.mem_cons_of_mem a hc)
    refine ⟨b :: r, ?_⟩
    rw [List.mapM_cons, hb, bind_ok, hr, bind_ok]
    rfl

/-- The body run `n` times in a row. -/
def iter (body : σ → Except ε σ) : Nat → σ → Except ε σ
  | 0, s => .ok s
  | n + 1, s => body s >>= iter body n

theorem iter_zero (body : σ → Except ε σ) (s : σ) : iter body 0 s = .ok s := rfl

theorem iter_succ (body : σ → Except ε σ) (n : Nat) (s : σ) :
    iter body (n + 1) s = body s >>= iter body n := rfl

theorem iter_add (body : σ → Except ε σ) (m n : Nat) (s : σ) :
    iter body (m + n) s = iter body m s >>= iter body n := by
  induction m generalizing s with
  | zero => rw [Nat.zero_add]; rfl
  | succ m ih =>
    rw [Nat.succ_add, iter_succ, iter_succ]
    cases hb : body s with
    | error e => rfl
    | ok t => exact ih t

theorem iter_succ_last (body : σ → Except ε σ) (n : Nat) (s : σ) :
    iter body (n + 1) s = iter body n s >>= body := by
  rw [iter_add]
  cases iter body n s with
  | error e => rfl
  | ok t =>
    change (body t >>= fun u => .ok u) = body t
    cases body t <;> rfl

theorem iter_congr {body body' : σ → Except ε σ} {n : Nat} {s : σ}
    (h : ∀ k < n, ∀ t, iter body k s = .ok t → body t = body' t) :
    iter body n s = iter body' n s := by
  induction n generalizing s with
  | zero => rfl
  | succ n ih =>
    rw [iter_succ, iter_succ, ← h 0 (Nat.succ_pos n) s rfl]
    cases hb : body s with
    | error e => rfl
    | ok t =>
      refine ih fun k hk u hu => h (k + 1) (Nat.succ_lt_succ hk) u ?_
      rw [iter_succ, hb]
      exact hu

/-- Related states have related iterates. -/
theorem iter_simulates {τ : Type} {body : σ → Except ε σ} {body' : τ → Except ε τ}
    (R : σ → τ → Prop)
    (hbody : ∀ s s' t, R s s' → body s = .ok t → ∃ t', body' s' = .ok t' ∧ R t t')
    {n : Nat} {s t : σ} {s' : τ} (hs : R s s') (h : iter body n s = .ok t) :
    ∃ t', iter body' n s' = .ok t' ∧ R t t' := by
  induction n generalizing s s' with
  | zero => exact ⟨s', rfl, Except.ok.inj h ▸ hs⟩
  | succ n ih =>
    obtain ⟨u, hu, h⟩ := bind_eq_ok h
    obtain ⟨u', hu', hR⟩ := hbody s s' u hs hu
    obtain ⟨t', ht', hR'⟩ := ih hR h
    exact ⟨t', by rw [iter_succ, hu', bind_ok, ht'], hR'⟩

/-- An invariant of the body is an invariant of its iterates. -/
theorem iter_invariant {body : σ → Except ε σ} (P : σ → Prop)
    (hbody : ∀ s t, P s → body s = .ok t → P t) {n : Nat} {s t : σ}
    (hs : P s) (h : iter body n s = .ok t) : P t := by
  induction n generalizing s with
  | zero => exact Except.ok.inj h ▸ hs
  | succ n ih =>
    obtain ⟨u, hu, ht⟩ := bind_eq_ok h
    exact ih (hbody s u hs hu) ht

/-- Iterates of the body only see the first state through the first turn. -/
theorem iter_congr_first {body : σ → Except ε σ} {s s' : σ} (h : body s = body s') {n : Nat}
    (hn : 0 < n) : iter body n s = iter body n s' := by
  cases n with
  | zero => exact absurd hn (Nat.lt_irrefl 0)
  | succ n => rw [iter_succ, iter_succ, h]

/-- A body that lowers the potential of an invariant until it is done gets there. -/
theorem iter_until {body : σ → Except ε σ} {Inv : Nat → σ → Prop} {Done : σ → Prop}
    (hbody : ∀ m s, Inv m s → ∃ t, body s = .ok t ∧ ((∃ r < m, Inv r t) ∨ Done t))
    {m : Nat} {s : σ} (hs : Inv m s) :
    ∃ n t, 0 < n ∧ iter body n s = .ok t ∧ Done t ∧
      ∀ k < n, ∃ u, iter body k s = .ok u ∧ ∃ r, Inv r u := by
  induction m using Nat.strongRecOn generalizing s with
  | ind m ih =>
    obtain ⟨t, ht, ⟨r, hr, hinv⟩ | hdone⟩ := hbody m s hs
    · obtain ⟨n, v, -, hv, hdone, hbusy⟩ := ih r hr hinv
      refine ⟨n + 1, v, Nat.succ_pos n, by rw [iter_succ, ht, bind_ok, hv], hdone, ?_⟩
      intro k hk
      cases k with
      | zero => exact ⟨s, rfl, m, hs⟩
      | succ k =>
        obtain ⟨u, hu, hinv⟩ := hbusy k (by omega)
        exact ⟨u, by rw [iter_succ, ht, bind_ok, hu], hinv⟩
    · refine ⟨1, t, Nat.one_pos, by rw [iter_succ, ht]; rfl, hdone, ?_⟩
      intro k hk
      obtain rfl : k = 0 := by omega
      exact ⟨s, rfl, m, hs⟩

/-- A mark that moves on with every turn of a body that is not done. -/
theorem iter_track {γ : Type} {body : σ → Except ε σ} (At : γ → σ → Prop) (Done : σ → Prop)
    (move : γ → γ)
    (hbody : ∀ g s t, At g s → body s = .ok t → ¬ Done t → At (move g) t)
    {n : Nat} {g : γ} {s t : σ} (hs : At g s) (h : iter body n s = .ok t)
    (hbusy : ∀ k ≤ n, ∀ u, iter body k s = .ok u → ¬ Done u) : At (move^[n] g) t := by
  induction n generalizing g s with
  | zero => exact Except.ok.inj h ▸ hs
  | succ n ih =>
    obtain ⟨u, hu, ht⟩ := bind_eq_ok h
    have hfirst : iter body 1 s = .ok u := by rw [iter_succ, hu]; rfl
    have hmove := hbody g s u hs hu (hbusy 1 (Nat.succ_le_succ (Nat.zero_le n)) u hfirst)
    refine ih hmove ht fun k hk w hw => hbusy (k + 1) (Nat.succ_le_succ hk) w ?_
    rw [iter_succ, hu]
    exact hw

/-- `.done s` when the loop left by itself at `s`, `.yield s` when it was cut off. -/
def run (turn : σ → Except ε (ForInStep σ)) : Nat → σ → Except ε (ForInStep σ)
  | 0, s => .ok (.yield s)
  | n + 1, s => match turn s with
    | .error e => .error e
    | .ok (.done t) => .ok (.done t)
    | .ok (.yield t) => run turn n t

/-- The turn of `while (cond) body`. -/
def whileTurn (cond : σ → Bool) (body : σ → Except ε σ) (s : σ) :
    Except ε (ForInStep σ) :=
  if cond s then do return .yield (← body s) else .ok (.done s)

variable {turn : σ → Except ε (ForInStep σ)}

theorem run_succ_done {n : Nat} {s t : σ} (h : turn s = .ok (.done t)) :
    run turn (n + 1) s = .ok (.done t) := by
  simp only [run, h]

theorem run_succ_yield {n : Nat} {s t : σ} (h : turn s = .ok (.yield t)) :
    run turn (n + 1) s = run turn n t := by
  simp only [run, h]

theorem run_succ_error {n : Nat} {s : σ} {e : ε} (h : turn s = .error e) :
    run turn (n + 1) s = .error e := by
  simp only [run, h]

/-- Where a run ended, by itself or cut off. -/
def final : ForInStep σ → σ
  | .done s => s
  | .yield s => s

/-- As `run_invariant`, for a property that the turns preserve along this run. -/
theorem run_invariant_along (P : σ → Prop) {n : Nat} {s : σ} {r : ForInStep σ}
    (hyield : ∀ k u w, k < n → run turn k s = .ok (.yield u) → P u →
      turn u = .ok (.yield w) → P w)
    (hdone : ∀ u w, P u → turn u = .ok (.done w) → P w) (hs : P s)
    (h : run turn n s = .ok r) : P (final r) := by
  induction n generalizing s with
  | zero => exact Except.ok.inj h ▸ hs
  | succ n ih =>
    cases ht : turn s with
    | error e =>
      rw [run_succ_error ht] at h
      exact nomatch h
    | ok q =>
      cases q with
      | done u =>
        rw [run_succ_done ht] at h
        exact Except.ok.inj h ▸ hdone s u hs ht
      | yield u =>
        rw [run_succ_yield ht] at h
        refine ih (fun k w w' hk hrun => ?_) (hyield 0 s u (by omega) rfl hs ht) h
        exact hyield (k + 1) w w' (by omega) (by rw [run_succ_yield ht]; exact hrun)

/-- What every turn preserves holds wherever the run is cut off or leaves. -/
theorem run_invariant (P : σ → Prop)
    (hyield : ∀ s t, P s → turn s = .ok (.yield t) → P t)
    (hdone : ∀ s t, P s → turn s = .ok (.done t) → P t) {n : Nat} {s : σ} {r : ForInStep σ}
    (hs : P s) (h : run turn n s = .ok r) : P (final r) :=
  run_invariant_along P (fun _ u w _ _ => hyield u w) hdone hs h

/-- A run that was cut off goes on from there. -/
theorem run_add {m : Nat} {s t : σ} (h : run turn m s = .ok (.yield t)) (n : Nat) :
    run turn (m + n) s = run turn n t := by
  induction m generalizing s with
  | zero =>
    obtain rfl : s = t := by injection h with h; injection h
    rw [Nat.zero_add]
  | succ m ih =>
    rw [Nat.succ_add]
    cases ht : turn s with
    | error e =>
      rw [run_succ_error ht] at h
      exact nomatch h
    | ok r =>
      cases r with
      | done u =>
        rw [run_succ_done ht] at h
        exact nomatch h
      | yield u =>
        rw [run_succ_yield ht] at h ⊢
        exact ih h

/-- More turns do not change a run that left by itself. -/
theorem run_mono {m n : Nat} {s t : σ} (hmn : m ≤ n) (h : run turn m s = .ok (.done t)) :
    run turn n s = .ok (.done t) := by
  induction m generalizing n s with
  | zero => exact nomatch h
  | succ m ih =>
    obtain ⟨n, rfl⟩ : ∃ k, n = k + 1 := ⟨n - 1, by omega⟩
    cases ht : turn s with
    | error e => rw [run_succ_error ht] at h; exact nomatch h
    | ok r =>
      cases r with
      | done u => rw [run_succ_done ht] at h ⊢; exact h
      | yield u =>
        rw [run_succ_yield ht] at h ⊢
        exact ih (by omega) h

/-- More turns do not change a run that was not cut off. -/
theorem run_settled {m n : Nat} {s : σ} (hmn : m ≤ n)
    (h : ∀ t, run turn m s ≠ .ok (.yield t)) : run turn n s = run turn m s := by
  induction m generalizing n s with
  | zero => exact absurd rfl (h s)
  | succ m ih =>
    obtain ⟨n, rfl⟩ : ∃ k, n = k + 1 := ⟨n - 1, by omega⟩
    cases ht : turn s with
    | error e => rw [run_succ_error ht, run_succ_error ht]
    | ok r =>
      cases r with
      | done u => rw [run_succ_done ht, run_succ_done ht]
      | yield u =>
        rw [run_succ_yield ht] at h ⊢
        rw [run_succ_yield ht]
        exact ih (by omega) h

/-- A run leaves at one place only. -/
theorem run_done_unique {m n : Nat} {s t u : σ} (h : run turn m s = .ok (.done t))
    (h' : run turn n s = .ok (.done u)) : t = u := by
  have ht := run_mono (Nat.le_max_left m n) h
  rw [run_mono (Nat.le_max_right m n) h'] at ht
  injection ht with ht
  injection ht with ht
  exact ht.symm

/-- Loops whose turns are related stay related. -/
theorem run_simulates {τ : Type} {turn' : τ → Except ε (ForInStep τ)} (R : σ → τ → Prop)
    (hyield : ∀ s s' t, R s s' → turn s = .ok (.yield t) →
      ∃ t', turn' s' = .ok (.yield t') ∧ R t t')
    (hdone : ∀ s s' t, R s s' → turn s = .ok (.done t) → ∃ t', turn' s' = .ok (.done t') ∧ R t t')
    {n : Nat} {s : σ} {s' : τ} (hs : R s s') :
    (∀ t, run turn n s = .ok (.yield t) → ∃ t', run turn' n s' = .ok (.yield t') ∧ R t t') ∧
      ∀ t, run turn n s = .ok (.done t) → ∃ t', run turn' n s' = .ok (.done t') ∧ R t t' := by
  induction n generalizing s s' with
  | zero =>
    refine ⟨fun t h => ?_, nofun⟩
    obtain rfl : s = t := by injection h with h; injection h
    exact ⟨s', rfl, hs⟩
  | succ n ih =>
    cases ht : turn s with
    | error e =>
      rw [run_succ_error ht]
      exact ⟨nofun, nofun⟩
    | ok r =>
      cases r with
      | done u =>
        rw [run_succ_done ht]
        refine ⟨nofun, fun t h => ?_⟩
        obtain rfl : u = t := by injection h with h; injection h
        obtain ⟨u', hu', hR⟩ := hdone s s' u hs ht
        exact ⟨u', run_succ_done hu', hR⟩
      | yield u =>
        obtain ⟨u', hu', hR⟩ := hyield s s' u hs ht
        rw [run_succ_yield ht, run_succ_yield hu']
        exact ih hR

/-- Two turns, or two runs, that end in the same way at related states. -/
def Lockstep {τ : Type} (R D : σ → τ → Prop) :
    Except ε (ForInStep σ) → Except ε (ForInStep τ) → Prop
  | .error _, .error _ => True
  | .ok (.yield s), .ok (.yield t) => R s t
  | .ok (.done s), .ok (.done t) => D s t
  | _, _ => False

theorem Lockstep.imp {τ : Type} {R R' D : σ → τ → Prop} {x : Except ε (ForInStep σ)}
    {y : Except ε (ForInStep τ)} (h : Lockstep R D x y) (hR : ∀ s t, R s t → R' s t) :
    Lockstep R' D x y := by
  cases x with
  | error e => cases y <;> exact h
  | ok r =>
    cases y with
    | error e => cases r <;> exact h.elim
    | ok r' =>
      cases r with
      | done s => cases r' <;> exact h
      | yield s =>
        cases r' with
        | done t => exact h.elim
        | yield t => exact hR s t h

/-- Two computations that both raise an error, or return related values. -/
def Both {α β : Type} (R : α → β → Prop) : Except ε α → Except ε β → Prop
  | .error _, .error _ => True
  | .ok a, .ok b => R a b
  | _, _ => False

theorem Both.ok_left {α β : Type} {R : α → β → Prop} {x : Except ε α} {y : Except ε β} {a : α}
    (h : Both R x y) (hx : x = .ok a) : ∃ b, y = .ok b ∧ R a b := by
  subst hx
  cases y with
  | error e => exact h.elim
  | ok b => exact ⟨b, rfl, h⟩

theorem Both.ok_right {α β : Type} {R : α → β → Prop} {x : Except ε α} {y : Except ε β} {b : β}
    (h : Both R x y) (hy : y = .ok b) : ∃ a, x = .ok a ∧ R a b := by
  subst hy
  cases x with
  | error e => exact h.elim
  | ok a => exact ⟨a, rfl, h⟩

theorem Both.imp {α β : Type} {R S : α → β → Prop} {x : Except ε α} {y : Except ε β}
    (h : Both R x y) (hRS : ∀ a b, R a b → S a b) : Both S x y := by
  cases x with
  | error e =>
    cases y with
    | error e' => trivial
    | ok b => exact h
  | ok a =>
    cases y with
    | error e' => exact h
    | ok b => exact hRS a b h

theorem Both.of_eq {α : Type} {x y : Except ε α} (h : y = x) : Both (fun a b => b = a) x y := by
  subst h
  cases y with
  | error e => trivial
  | ok a => exact rfl

theorem Both.bind {α β γ δ : Type} {R : α → β → Prop} {S : γ → δ → Prop} {x : Except ε α}
    {y : Except ε β} {f : α → Except ε γ} {g : β → Except ε δ} (h : Both R x y)
    (hfg : ∀ a b, R a b → Both S (f a) (g b)) : Both S (x >>= f) (y >>= g) := by
  cases x with
  | error e =>
    cases y with
    | error e' => trivial
    | ok b => exact h.elim
  | ok a =>
    cases y with
    | error e' => exact h.elim
    | ok b => exact hfg a b h

theorem Both.bind_eq {α γ δ : Type} {S : γ → δ → Prop} {x y : Except ε α} {f : α → Except ε γ}
    {g : α → Except ε δ} (h : y = x) (hfg : ∀ a, Both S (f a) (g a)) :
    Both S (x >>= f) (y >>= g) := by
  refine (of_eq h).bind fun a b hab => ?_
  rw [hab]
  exact hfg a

theorem Both.ite {α β : Type} {R : α → β → Prop} {c : Prop} [Decidable c] {x x' : Except ε α}
    {y y' : Except ε β} (h : c → Both R x y) (h' : ¬ c → Both R x' y') :
    Both R (if c then x else x') (if c then y else y') := by
  split
  · exact h ‹c›
  · exact h' ‹¬ c›

theorem Both.whileTurn {τ : Type} {cond : σ → Bool} {body : σ → Except ε σ} {cond' : τ → Bool}
    {body' : τ → Except ε τ} {R D : σ → τ → Prop} {s : σ} {t : τ} (hcond : cond' t = cond s)
    (hbody : cond s = true → Both R (body s) (body' t)) (hdone : cond s = false → D s t) :
    Lockstep R D (Loop.whileTurn cond body s) (Loop.whileTurn cond' body' t) := by
  unfold Loop.whileTurn
  rw [hcond]
  cases hc : cond s with
  | false => exact hdone hc
  | true =>
    have hboth := hbody hc
    cases hx : body s with
    | error e =>
      cases hy : body' t with
      | error e' => trivial
      | ok b =>
        rw [hx, hy] at hboth
        exact hboth.elim
    | ok a =>
      rw [hx] at hboth
      cases hy : body' t with
      | error e' =>
        rw [hy] at hboth
        exact hboth.elim
      | ok b =>
        rw [hy] at hboth
        exact hboth

/-- Two loops whose turns stay in lockstep along their runs have runs in lockstep. -/
theorem run_lockstep {τ : Type} {turn' : τ → Except ε (ForInStep τ)} (R : Nat → σ → τ → Prop)
    (D : σ → τ → Prop) {n : Nat} {s : σ} {s' : τ}
    (hturn : ∀ k u u', run turn k s = .ok (.yield u) → R k u u' →
      Lockstep (R (k + 1)) D (turn u) (turn' u')) (hs : R 0 s s') :
    Lockstep (R n) D (run turn n s) (run turn' n s') := by
  induction n generalizing R s s' with
  | zero => exact hs
  | succ n ih =>
    have hfirst := hturn 0 s s' rfl hs
    cases ht : turn s with
    | error e =>
      cases ht' : turn' s' with
      | error e' => rw [run_succ_error ht, run_succ_error ht']; trivial
      | ok r => rw [ht, ht'] at hfirst; exact hfirst.elim
    | ok r =>
      cases ht' : turn' s' with
      | error e => rw [ht, ht'] at hfirst; cases r <;> exact hfirst.elim
      | ok r' =>
        rw [ht, ht'] at hfirst
        cases r with
        | done u =>
          cases r' with
          | done u' => rw [run_succ_done ht, run_succ_done ht']; exact hfirst
          | yield u' => exact hfirst.elim
        | yield u =>
          cases r' with
          | done u' => exact hfirst.elim
          | yield u' =>
            rw [run_succ_yield ht, run_succ_yield ht']
            refine ih (fun k => R (k + 1)) (fun k w w' hrun hR => ?_) hfirst
            exact hturn (k + 1) w w' (by rw [run_succ_yield ht]; exact hrun) hR

variable {cond : σ → Bool} {body : σ → Except ε σ}

theorem whileTurn_true {s t : σ} (hc : cond s = true) (hb : body s = .ok t) :
    whileTurn cond body s = .ok (.yield t) := by
  simp only [whileTurn, hc, hb]
  rfl

theorem whileTurn_false {s : σ} (hc : cond s = false) :
    whileTurn cond body s = .ok (.done s) := by
  simp [whileTurn, hc]

theorem whileTurn_eq_yield {s t : σ} (h : whileTurn cond body s = .ok (.yield t)) :
    cond s = true ∧ body s = .ok t := by
  cases hc : cond s with
  | false => rw [whileTurn_false hc] at h; exact nomatch h
  | true =>
    simp only [whileTurn, hc, if_true] at h
    obtain ⟨u, hu, ht⟩ := bind_eq_ok h
    injection ht with ht
    injection ht with ht
    exact ⟨rfl, ht ▸ hu⟩

theorem whileTurn_eq_error {s : σ} {e : ε} (h : whileTurn cond body s = .error e) :
    cond s = true ∧ body s = .error e := by
  cases hc : cond s with
  | false => rw [whileTurn_false hc] at h; exact nomatch h
  | true =>
    cases hb : body s with
    | error e' =>
      simp only [whileTurn, hc, hb, if_true, bind_error] at h
      obtain rfl := Except.error.inj h
      exact ⟨rfl, rfl⟩
    | ok u => rw [whileTurn_true hc hb] at h; exact nomatch h

theorem whileTurn_eq_done {s t : σ} (h : whileTurn cond body s = .ok (.done t)) :
    cond s = false ∧ t = s := by
  cases hc : cond s with
  | false =>
    rw [whileTurn_false hc] at h
    injection h with h
    injection h with h
    exact ⟨rfl, h.symm⟩
  | true =>
    cases hb : body s with
    | error e => simp only [whileTurn, hc, hb, if_true, bind_error] at h; exact nomatch h
    | ok u => rw [whileTurn_true hc hb] at h; exact nomatch h

/-- The rounds of a while loop from one state to another that it passes. -/
inductive Steps (cond : σ → Bool) (body : σ → Except ε σ) : σ → σ → Prop
  | refl (s : σ) : Steps cond body s s
  | step {s t u : σ} (hcond : cond s = true) (hbody : body s = .ok t)
      (rest : Steps cond body t u) : Steps cond body s u

theorem Steps.trans {s t u : σ} (h : Steps cond body s t) (h' : Steps cond body t u) :
    Steps cond body s u := by
  induction h with
  | refl s => exact h'
  | step hcond hbody _ ih => exact .step hcond hbody (ih h')

theorem Steps.invariant {s t : σ} (P : σ → Prop)
    (hbody : ∀ u v, P u → cond u = true → body u = .ok v → P v) (h : Steps cond body s t)
    (hs : P s) : P t := by
  induction h with
  | refl s => exact hs
  | step hcond hb _ ih => exact ih (hbody _ _ hs hcond hb)

theorem Steps.total {s t u : σ} (h : Steps cond body s t) (h' : Steps cond body s u) :
    Steps cond body t u ∨ Steps cond body u t := by
  induction h with
  | refl s => exact .inl h'
  | step hcond hbody rest ih =>
    cases h' with
    | refl => exact .inr (.step hcond hbody rest)
    | step _ hbody' rest' =>
      rw [hbody] at hbody'
      obtain rfl := Except.ok.inj hbody'
      exact ih rest'

/-- A loop passes its states in one order. -/
theorem Steps.compare {s t u : σ} (h : Steps cond body s t) (h' : Steps cond body s u)
    (hu : cond u = false) : Steps cond body t u := by
  induction h with
  | refl s => exact h'
  | step hcond hbody _ ih =>
    cases h' with
    | refl => rw [hcond] at hu; exact nomatch hu
    | step hcond' hbody' rest =>
      rw [hbody] at hbody'
      obtain rfl := Except.ok.inj hbody'
      exact ih rest

/-- A loop ends in one state. -/
theorem Steps.end_unique {s t u : σ} (h : Steps cond body s t) (h' : Steps cond body s u)
    (ht : cond t = false) (hu : cond u = false) : t = u := by
  cases h.compare h' hu with
  | refl => rfl
  | step hcond => rw [ht] at hcond; exact nomatch hcond

/-- The states of the first rounds, up to the end of the loop. -/
def trace (cond : σ → Bool) (body : σ → Except ε σ) : Nat → σ → List σ
  | 0, s => [s]
  | n + 1, s => s :: match cond s, body s with
    | true, .ok t => trace cond body n t
    | _, _ => []

theorem steps_of_mem_trace {n : Nat} {s t : σ} (h : t ∈ trace cond body n s) :
    Steps cond body s t := by
  induction n generalizing s with
  | zero =>
    obtain rfl := List.mem_singleton.mp h
    exact .refl t
  | succ n ih =>
    rcases List.mem_cons.mp h with rfl | h
    · exact .refl t
    · split at h
      · rename_i hcond hbody
        exact .step hcond hbody (ih h)
      · exact absurd h List.not_mem_nil

/-- A trace that is shorter than its budget has all states. -/
theorem Steps.mem_trace {s t : σ} (h : Steps cond body s t) {n : Nat}
    (hn : (trace cond body n s).length ≤ n) : t ∈ trace cond body n s := by
  induction h generalizing n with
  | refl s => cases n <;> simp [trace]
  | step hcond hbody _ ih =>
    cases n with
    | zero => simp [trace] at hn
    | succ n =>
      simp only [trace, hcond, hbody, List.length_cons, List.mem_cons] at hn ⊢
      exact .inr (ih (by omega))

/-- The states that a run of the loop passes, by the way it ended. -/
theorem run_steps {n : Nat} {s : σ} :
    (∀ t, run (whileTurn cond body) n s = .ok (.done t) →
      Steps cond body s t ∧ cond t = false) ∧
    (∀ t, run (whileTurn cond body) n s = .ok (.yield t) → Steps cond body s t) ∧
    ∀ e, run (whileTurn cond body) n s = .error e →
      ∃ t, Steps cond body s t ∧ cond t = true ∧ body t = .error e := by
  induction n generalizing s with
  | zero =>
    refine ⟨nofun, fun t h => ?_, nofun⟩
    obtain rfl : s = t := by injection h with h; injection h
    exact .refl s
  | succ n ih =>
    cases ht : whileTurn cond body s with
    | error e =>
      rw [run_succ_error ht]
      refine ⟨nofun, nofun, fun e' h => ?_⟩
      obtain rfl := Except.error.inj h
      obtain ⟨hcond, hbody⟩ := whileTurn_eq_error ht
      exact ⟨s, .refl s, hcond, hbody⟩
    | ok r =>
      cases r with
      | done u =>
        rw [run_succ_done ht]
        refine ⟨fun t h => ?_, nofun, nofun⟩
        obtain rfl : u = t := by injection h with h; injection h
        obtain ⟨hcond, rfl⟩ := whileTurn_eq_done ht
        exact ⟨.refl _, hcond⟩
      | yield u =>
        rw [run_succ_yield ht]
        obtain ⟨hcond, hbody⟩ := whileTurn_eq_yield ht
        obtain ⟨hdone, hyield, herror⟩ := ih (s := u)
        refine ⟨fun t h => ?_, fun t h => .step hcond hbody (hyield t h), fun e h => ?_⟩
        · exact ⟨.step hcond hbody (hdone t h).1, (hdone t h).2⟩
        · obtain ⟨t, hsteps, ht⟩ := herror e h
          exact ⟨t, .step hcond hbody hsteps, ht⟩

/-- The rounds of a loop that runs its body `n` times. -/
theorem steps_of_iter {n : Nat} {s t : σ}
    (hcond : ∀ k < n, ∃ u, iter body k s = .ok u ∧ cond u = true) (h : iter body n s = .ok t) :
    Steps cond body s t := by
  induction n generalizing s with
  | zero => exact Except.ok.inj h ▸ .refl s
  | succ n ih =>
    obtain ⟨u, hu, ht⟩ := bind_eq_ok h
    obtain ⟨s', hs', hcs⟩ := hcond 0 (Nat.succ_pos n)
    obtain rfl := Except.ok.inj hs'
    refine .step hcs hu (ih (fun k hk => ?_) ht)
    obtain ⟨w, hw, hcw⟩ := hcond (k + 1) (Nat.succ_lt_succ hk)
    rw [iter_succ, hu] at hw
    exact ⟨w, hw, hcw⟩

/-- An error of a round that the loop reaches is an error of the loop. -/
theorem Steps.run_error {s t : σ} {e : ε} (h : Steps cond body s t) (hcond : cond t = true)
    (hbody : body t = .error e) : ∃ n, run (whileTurn cond body) n s = .error e := by
  induction h with
  | refl s =>
    refine ⟨1, run_succ_error ?_⟩
    simp only [whileTurn, hcond, hbody]
    rfl
  | step hc hb _ ih =>
    obtain ⟨n, hn⟩ := ih hcond hbody
    exact ⟨n + 1, by rw [run_succ_yield (whileTurn_true hc hb), hn]⟩

/-- `while (cond) body` where every turn lowers the measure. -/
def exhaust (measure : σ → Nat) (cond : σ → Bool) (body : σ → Except ε σ) (s : σ) : Except ε σ := do
  return final (← run (whileTurn cond body) (measure s + 1) s)

/-- Loops over related states of the same measure, whose bodies are in lockstep. -/
theorem Both.exhaust {τ : Type} {R : σ → τ → Prop} {measure : σ → Nat} {measure' : τ → Nat}
    {cond' : τ → Bool} {body' : τ → Except ε τ} {s : σ} {t : τ}
    (hmeasure : ∀ u v, R u v → measure' v = measure u) (hcond : ∀ u v, R u v → cond' v = cond u)
    (hbody : ∀ u v, R u v → cond u = true → Both R (body u) (body' v)) (hs : R s t) :
    Both R (exhaust measure cond body s) (Loop.exhaust measure' cond' body' t) := by
  have hrun : Lockstep R R (run (Loop.whileTurn cond body) (measure s + 1) s)
      (run (Loop.whileTurn cond' body') (measure s + 1) t) :=
    run_lockstep (fun _ => R) R
      (fun _ u u' _ hR => whileTurn (hcond u u' hR) (hbody u u' hR) fun _ => hR) hs
  unfold Loop.exhaust
  rw [hmeasure s t hs]
  cases hx : run (Loop.whileTurn cond body) (measure s + 1) s with
  | error e =>
    cases hy : run (Loop.whileTurn cond' body') (measure s + 1) t with
    | error e' => trivial
    | ok r =>
      rw [hx, hy] at hrun
      exact hrun.elim
  | ok r =>
    cases hy : run (Loop.whileTurn cond' body') (measure s + 1) t with
    | error e =>
      rw [hx, hy] at hrun
      cases r <;> exact hrun.elim
    | ok r' =>
      rw [hx, hy] at hrun
      cases r with
      | done u => cases r' with
        | done v => exact hrun
        | yield v => exact hrun.elim
      | yield u => cases r' with
        | done v => exact hrun.elim
        | yield v => exact hrun

/-- A while loop whose rounds lower a measure is never cut off by a larger budget. -/
theorem run_while_ne_yield (measure : σ → Nat) {n : Nat} {s : σ}
    (hdec : ∀ u v, Steps cond body s u → cond u = true → body u = .ok v →
      measure v < measure u) (h : measure s < n) (t : σ) :
    run (whileTurn cond body) n s ≠ .ok (.yield t) := by
  induction n generalizing s with
  | zero => omega
  | succ n ih =>
    cases ht : whileTurn cond body s with
    | error e => rw [run_succ_error ht]; exact nofun
    | ok r =>
      cases r with
      | done u => rw [run_succ_done ht]; exact nofun
      | yield u =>
        obtain ⟨hcond, hbody⟩ := whileTurn_eq_yield ht
        rw [run_succ_yield ht]
        refine ih (fun v w hv => hdec v w (.step hcond hbody hv)) ?_
        have := hdec s u (.refl s) hcond hbody
        omega

/-- Larger budgets do not change the run of such a loop. -/
theorem run_while_budget (measure : σ → Nat) {m n : Nat} {s : σ}
    (hdec : ∀ u v, cond u = true → body u = .ok v → measure v < measure u) (hm : measure s < m)
    (hn : measure s < n) : run (whileTurn cond body) m s = run (whileTurn cond body) n s := by
  induction m generalizing n s with
  | zero => omega
  | succ m ih =>
    obtain ⟨n, rfl⟩ : ∃ k, n = k + 1 := ⟨n - 1, by omega⟩
    cases ht : whileTurn cond body s with
    | error e => rw [run_succ_error ht, run_succ_error ht]
    | ok r =>
      cases r with
      | done u => rw [run_succ_done ht, run_succ_done ht]
      | yield u =>
        obtain ⟨hcond, hbody⟩ := whileTurn_eq_yield ht
        have hlt := hdec s u hcond hbody
        rw [run_succ_yield ht, run_succ_yield ht]
        exact ih (by omega) (by omega)

/-- Such a loop is its first round and the loop again. -/
theorem exhaust_eq {measure : σ → Nat}
    (hdec : ∀ u v, cond u = true → body u = .ok v → measure v < measure u) (s : σ) :
    exhaust measure cond body s =
      if cond s then body s >>= exhaust measure cond body else .ok s := by
  cases hcond : cond s with
  | false =>
    rw [exhaust, run_succ_done (whileTurn_false hcond)]
    rfl
  | true =>
    rw [if_pos rfl]
    cases hbody : body s with
    | error e =>
      have hturn : whileTurn cond body s = .error e := by
        simp only [whileTurn, hcond, hbody]
        rfl
      rw [exhaust, run_succ_error hturn]
      rfl
    | ok t =>
      have hlt := hdec s t hcond hbody
      rw [exhaust, run_succ_yield (whileTurn_true hcond hbody), bind_ok, exhaust,
        run_while_budget measure hdec hlt (Nat.lt_succ_self _)]

/-- Such a loop ends by itself; these are the states that it passes. -/
theorem exhaust_steps {measure : σ → Nat} {s t : σ}
    (hdec : ∀ u v, Steps cond body s u → cond u = true → body u = .ok v → measure v < measure u)
    (h : exhaust measure cond body s = .ok t) : Steps cond body s t ∧ cond t = false := by
  obtain ⟨r, hr, h⟩ := bind_eq_ok h
  obtain rfl := Except.ok.inj h
  cases r with
  | done u => exact run_steps.1 u hr
  | yield u => exact absurd hr (run_while_ne_yield measure hdec (Nat.lt_succ_self _) u)

/-- An error of such a loop is an error of one of its rounds. -/
theorem exhaust_error {measure : σ → Nat} {s : σ} {e : ε}
    (h : exhaust measure cond body s = .error e) :
    ∃ t, Steps cond body s t ∧ cond t = true ∧ body t = .error e := by
  cases hr : run (whileTurn cond body) (measure s + 1) s with
  | error e' =>
    rw [exhaust, hr] at h
    obtain rfl := Except.error.inj h
    exact run_steps.2.2 e' hr
  | ok r =>
    rw [exhaust, hr] at h
    exact nomatch h

/-- A while loop whose condition holds before each of the first `n` bodies and
fails after them runs the body exactly `n` times. -/
theorem run_while {n : Nat} {s t : σ}
    (hc : ∀ k < n, ∃ u, iter body k s = .ok u ∧ cond u = true)
    (ht : iter body n s = .ok t) (hend : cond t = false) {m : Nat} (hm : n < m) :
    run (whileTurn cond body) m s = .ok (.done t) := by
  induction n generalizing s m with
  | zero =>
    obtain ⟨m, rfl⟩ : ∃ k, m = k + 1 := ⟨m - 1, by omega⟩
    obtain rfl : s = t := Except.ok.inj ht
    exact run_succ_done (whileTurn_false hend)
  | succ n ih =>
    obtain ⟨m, rfl⟩ : ∃ k, m = k + 1 := ⟨m - 1, by omega⟩
    obtain ⟨u, hu, hrest⟩ := bind_eq_ok ht
    obtain ⟨s', hs', hcs⟩ := hc 0 (by omega)
    obtain rfl : s = s' := Except.ok.inj hs'
    rw [run_succ_yield (whileTurn_true hcs hu)]
    refine ih (fun k hk => ?_) hrest (by omega)
    obtain ⟨w, hw, hcw⟩ := hc (k + 1) (by omega)
    rw [iter_succ, hu] at hw
    exact ⟨w, hw, hcw⟩

/-- The converse of `run_while`. -/
theorem iter_of_run_while {m : Nat} {s t : σ}
    (h : run (whileTurn cond body) m s = .ok (.done t)) : ∃ n < m, iter body n s = .ok t ∧
      cond t = false ∧ ∀ k < n, ∃ u, iter body k s = .ok u ∧ cond u = true := by
  induction m generalizing s with
  | zero => exact nomatch h
  | succ m ih =>
    cases hc : cond s with
    | false =>
      rw [run_succ_done (whileTurn_false hc)] at h
      have heq : s = t := by injection h with h; injection h
      exact ⟨0, by omega, heq ▸ rfl, heq ▸ hc, fun k hk => absurd hk (Nat.not_lt_zero k)⟩
    | true =>
      cases hb : body s with
      | error e =>
        have hturn : whileTurn cond body s = .error e := by simp only [whileTurn, hc, hb]; rfl
        rw [run_succ_error hturn] at h
        exact nomatch h
      | ok u =>
        rw [run_succ_yield (whileTurn_true hc hb)] at h
        obtain ⟨n, hn, hiter, hend, hbusy⟩ := ih h
        refine ⟨n + 1, by omega, by rw [iter_succ, hb, bind_ok, hiter], hend, fun k hk => ?_⟩
        cases k with
        | zero => exact ⟨s, rfl, hc⟩
        | succ k =>
          obtain ⟨w, hw, hcw⟩ := hbusy k (by omega)
          exact ⟨w, by rw [iter_succ, hb, bind_ok, hw], hcw⟩

/-- The computation does not end with the error `e`. -/
def Avoids {α : Type} (e : ε) (x : Except ε α) : Prop := x ≠ .error e

namespace Avoids

variable {α β : Type} {e : ε}

theorem ok (a : α) : Avoids e (.ok a) := by
  intro h
  cases h

theorem error {e' : ε} (h : e' ≠ e) : Avoids e (.error e' : Except ε α) :=
  fun he => h (Except.error.inj he)

theorem bind {x : Except ε α} {f : α → Except ε β} (hx : Avoids e x) (hf : ∀ a, Avoids e (f a)) :
    Avoids e (x >>= f) := by
  intro h
  rcases bind_eq_error h with h | ⟨a, -, h⟩
  · exact hx h
  · exact hf a h

theorem ite {c : Prop} [Decidable c] {x y : Except ε α} (hx : Avoids e x) (hy : Avoids e y) :
    Avoids e (if c then x else y) := by
  split
  · exact hx
  · exact hy

end Avoids

/-- Whatever the computation returns has the property `P`. -/
def Ensures {α : Type} (P : α → Prop) (x : Except ε α) : Prop := ∀ a, x = .ok a → P a

namespace Ensures

variable {α β : Type} {P : α → Prop}

theorem ok {a : α} (h : P a) : Ensures P (.ok a : Except ε α) := by
  intro b hb
  cases hb
  exact h

theorem bind {x : Except ε β} {f : β → Except ε α} (h : ∀ b, x = .ok b → Ensures P (f b)) :
    Ensures P (x >>= f) := by
  intro a ha
  obtain ⟨b, hb, ha⟩ := bind_eq_ok ha
  exact h b hb a ha

end Ensures

end Loop
