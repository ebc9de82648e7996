import Mathlib.Logic.Function.Basic
import Mathlib.Data.List.Basic

/-! A log of values by key, written back entry by entry. The last entry of a key
wins, and keys without an entry keep their value. -/

namespace UndoLog

variable {κ ν : Type} [DecidableEq κ]

/-- Write the entries of the log to `f`, first entry first. -/
def replay (log : List (κ × ν)) (f : κ → ν) : κ → ν :=
  log.foldl (fun f e => Function.update f e.1 e.2) f

/-- The value of the last entry of `k`. -/
def lastValue : List (κ × ν) → κ → Option ν
  | [], _ => none
  | e :: log, k => (lastValue log k).or (if e.1 = k then some e.2 else none)

@[simp] theorem replay_nil (f : κ → ν) : replay [] f = f := rfl

@[simp] theorem replay_cons (e : κ × ν) (log : List (κ × ν)) (f : κ → ν) :
    replay (e :: log) f = replay log (Function.update f e.1 e.2) := rfl

theorem replay_append (log log' : List (κ × ν)) (f : κ → ν) :
    replay (log ++ log') f = replay log' (replay log f) :=
  List.foldl_append

theorem replay_apply (log : List (κ × ν)) (f : κ → ν) (k : κ) :
    replay log f k = (lastValue log k).getD (f k) := by
  induction log generalizing f with
  | nil => rfl
  | cons e log ih =>
    rw [replay_cons, ih, lastValue]
    cases lastValue log k with
    | some x => rfl
    | none =>
      by_cases he : e.1 = k
      · subst he
        simp
      · simp [he, Function.update_of_ne (Ne.symm he)]

theorem lastValue_append (log log' : List (κ × ν)) (k : κ) :
    lastValue (log ++ log') k = (lastValue log' k).or (lastValue log k) := by
  induction log with
  | nil => simp [lastValue]
  | cons e log ih => rw [List.cons_append, lastValue, ih, lastValue, Option.or_assoc]

theorem lastValue_eq_none {log : List (κ × ν)} {k : κ} (h : ∀ e ∈ log, e.1 ≠ k) :
    lastValue log k = none := by
  induction log with
  | nil => rfl
  | cons e log ih =>
    rw [lastValue, ih fun e' he' => h e' (List.mem_cons_of_mem e he'),
      if_neg (h e List.mem_cons_self)]
    rfl

theorem lastValue_eq_some {log : List (κ × ν)} {k : κ} {x : ν} (hmem : ∃ e ∈ log, e.1 = k)
    (hval : ∀ e ∈ log, e.1 = k → e.2 = x) : lastValue log k = some x := by
  induction log with
  | nil => exact nomatch hmem
  | cons e log ih =>
    have hval' : ∀ e' ∈ log, e'.1 = k → e'.2 = x := fun e' he' =>
      hval e' (List.mem_cons_of_mem e he')
    rw [lastValue]
    by_cases hrest : ∃ e' ∈ log, e'.1 = k
    · rw [ih hrest hval']
      rfl
    · have hnone : lastValue log k = none := lastValue_eq_none fun e' he' h => hrest ⟨e', he', h⟩
      obtain ⟨e', he', hkey⟩ := hmem
      rcases List.mem_cons.mp he' with rfl | he'
      · rw [hnone, if_pos hkey, hval e' List.mem_cons_self hkey]
        rfl
      · exact (hrest ⟨e', he', hkey⟩).elim

/-- Writing back a log whose entries hold the values of `f` at their keys restores
`f` wherever the log or the frame covers the change. -/
theorem replay_restores {log : List (κ × ν)} {f g : κ → ν}
    (hlog : ∀ e ∈ log, e.2 = f e.1) (hframe : ∀ k, (∀ e ∈ log, e.1 ≠ k) → g k = f k) :
    replay log g = f := by
  induction log generalizing g with
  | nil => exact funext fun k => hframe k (by simp)
  | cons e log ih =>
    rw [replay_cons]
    refine ih (fun e' he' => hlog e' (List.mem_cons_of_mem e he')) fun k hk => ?_
    by_cases he : k = e.1
    · rw [he, Function.update_self, hlog e List.mem_cons_self]
    · rw [Function.update_of_ne he]
      refine hframe k fun e' he' => ?_
      rcases List.mem_cons.mp he' with rfl | he'
      · exact Ne.symm he
      · exact hk e' he'

end UndoLog
