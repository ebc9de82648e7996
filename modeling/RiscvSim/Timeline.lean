import Mathlib.Data.List.Basic

/-! A history with undo and redo, as a line of states with a marker, and what it
means for two stacks of deltas to represent it. -/

/-- The states before the present one, latest first, and the undone states, next first. -/
structure Timeline (σ : Type) where
  past : List σ
  present : σ
  future : List σ

namespace Timeline

variable {σ δ : Type}

def start (s : σ) : Timeline σ := ⟨[], s, []⟩

/-- A new present; the undone states are dropped. -/
def commit (h : Timeline σ) (t : σ) : Timeline σ := ⟨h.present :: h.past, t, []⟩

def undo (h : Timeline σ) : Timeline σ :=
  match h.past with
  | [] => h
  | s :: past => ⟨past, s, h.present :: h.future⟩

def redo (h : Timeline σ) : Timeline σ :=
  match h.future with
  | [] => h
  | t :: future => ⟨h.present :: h.past, t, future⟩

/-- All states of the history, oldest first. -/
def line (h : Timeline σ) : List σ := h.past.reverse ++ h.present :: h.future

theorem line_start (s : σ) : (start s).line = [s] := rfl

@[simp] theorem line_undo (h : Timeline σ) : h.undo.line = h.line := by
  obtain ⟨past, present, future⟩ := h
  cases past with
  | nil => rfl
  | cons s past => simp [undo, line]

@[simp] theorem line_redo (h : Timeline σ) : h.redo.line = h.line := by
  obtain ⟨past, present, future⟩ := h
  cases future with
  | nil => rfl
  | cons t future => simp [redo, line]

theorem line_commit (h : Timeline σ) (t : σ) :
    (h.commit t).line = h.past.reverse ++ [h.present, t] := by
  simp [commit, line]

theorem line_present (h : Timeline σ) : h.line[h.past.length]? = some h.present := by
  simp [line]

/-- Each state of the line satisfies the predicate of its position. -/
def Tracks (P : Nat → σ → Prop) (h : Timeline σ) : Prop :=
  ∀ k s, h.line[k]? = some s → P k s

theorem Tracks.start {P : Nat → σ → Prop} {s : σ} (h : P 0 s) : Tracks P (start s) := by
  intro k t ht
  rw [line_start] at ht
  cases k with
  | zero => exact Option.some.inj ht ▸ h
  | succ k => simp at ht

theorem Tracks.present {P : Nat → σ → Prop} {h : Timeline σ} (ht : Tracks P h) :
    P h.past.length h.present :=
  ht _ _ h.line_present

theorem Tracks.undo {P : Nat → σ → Prop} {h : Timeline σ} (ht : Tracks P h) :
    Tracks P h.undo := by
  intro k s hs
  rw [line_undo] at hs
  exact ht k s hs

theorem Tracks.redo {P : Nat → σ → Prop} {h : Timeline σ} (ht : Tracks P h) :
    Tracks P h.redo := by
  intro k s hs
  rw [line_redo] at hs
  exact ht k s hs

theorem Tracks.commit {P : Nat → σ → Prop} {h : Timeline σ} {t : σ} (ht : Tracks P h)
    (hnext : P (h.past.length + 1) t) : Tracks P (h.commit t) := by
  intro k s hs
  rw [line_commit] at hs
  rcases Nat.lt_or_ge h.past.length k with hk | hk
  · rw [List.getElem?_append_right (by simpa using Nat.le_of_lt hk)] at hs
    obtain ⟨j, rfl⟩ : ∃ j, k = h.past.length + 1 + j := ⟨k - (h.past.length + 1), by omega⟩
    have hj : h.past.length + 1 + j - h.past.reverse.length = j + 1 := by
      rw [List.length_reverse]
      omega
    rw [hj, List.getElem?_cons_succ] at hs
    cases j with
    | zero => exact Option.some.inj hs ▸ hnext
    | succ j => simp at hs
  · apply ht k s
    rw [line]
    rcases Nat.lt_or_eq_of_le hk with hlt | rfl
    · rw [List.getElem?_append_left (by simpa using hlt)] at hs ⊢
      exact hs
    · simpa using hs

/-- `past` are the states before `t` that the deltas of an undo stack lead back to. -/
def PastLinked (link : δ → σ → σ → Prop) : List δ → σ → List σ → Prop
  | [], _, [] => True
  | d :: ds, t, s :: past => link d s t ∧ PastLinked link ds s past
  | _, _, _ => False

/-- `future` are the states after `s` that the deltas of a redo stack lead on to. -/
def FutureLinked (link : δ → σ → σ → Prop) : List δ → σ → List σ → Prop
  | [], _, [] => True
  | d :: ds, s, t :: future => link d s t ∧ FutureLinked link ds t future
  | _, _, _ => False

/-- Two stacks of deltas represent a history. -/
structure Represents (link : δ → σ → σ → Prop) (undos redos : List δ) (h : Timeline σ) :
    Prop where
  past : PastLinked link undos h.present h.past
  future : FutureLinked link redos h.present h.future

namespace Represents

variable {link : δ → σ → σ → Prop} {undos redos : List δ} {d : δ} {h : Timeline σ}

theorem start (link : δ → σ → σ → Prop) (s : σ) : Represents link [] [] (start s) :=
  ⟨trivial, trivial⟩

theorem commit {t : σ} (hr : Represents link undos redos h) (hd : link d h.present t) :
    Represents link (d :: undos) [] (h.commit t) :=
  ⟨⟨hd, hr.past⟩, trivial⟩

theorem undo_nil (hr : Represents link [] redos h) : h.undo = h := by
  obtain ⟨past, present, future⟩ := h
  cases past with
  | nil => rfl
  | cons s past => exact hr.past.elim

theorem redo_nil (hr : Represents link undos [] h) : h.redo = h := by
  obtain ⟨past, present, future⟩ := h
  cases future with
  | nil => rfl
  | cons t future => exact hr.future.elim

theorem undo (hr : Represents link (d :: undos) redos h) :
    link d h.undo.present h.present ∧ Represents link undos (d :: redos) h.undo := by
  obtain ⟨past, present, future⟩ := h
  cases past with
  | nil => exact hr.past.elim
  | cons s past => exact ⟨hr.past.1, hr.past.2, hr.past.1, hr.future⟩

theorem redo (hr : Represents link undos (d :: redos) h) :
    link d h.present h.redo.present ∧ Represents link (d :: undos) redos h.redo := by
  obtain ⟨past, present, future⟩ := h
  cases future with
  | nil => exact hr.future.elim
  | cons t future => exact ⟨hr.future.1, ⟨hr.future.1, hr.past⟩, hr.future.2⟩

theorem length_past (hr : Represents link undos redos h) : h.past.length = undos.length := by
  obtain ⟨past, present, future⟩ := h
  have hp := hr.past
  clear hr
  induction undos generalizing past present with
  | nil =>
    cases past with
    | nil => rfl
    | cons s past => exact hp.elim
  | cons d undos ih =>
    cases past with
    | nil => exact hp.elim
    | cons s past => exact congrArg (· + 1) (ih past s hp.2)

theorem length_future (hr : Represents link undos redos h) : h.future.length = redos.length := by
  obtain ⟨past, present, future⟩ := h
  have hf := hr.future
  clear hr
  induction redos generalizing future present with
  | nil =>
    cases future with
    | nil => rfl
    | cons t future => exact hf.elim
  | cons d redos ih =>
    cases future with
    | nil => exact hf.elim
    | cons t future => exact congrArg (· + 1) (ih t future hf.2)

end Represents

end Timeline
