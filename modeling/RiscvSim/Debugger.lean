import Mathlib.Data.List.Forall2
import RiscvSim.Simulation
import RiscvSim.Timeline

/-! A debugger: it takes a program forth and back on the line of its states, and lets it run until
it ends or is interrupted. -/

inductive DebugCommand where
  | step
  | undo
  | redo
  | debugRun
  deriving DecidableEq, Repr

/-- A program under a debugger. It `rests` where a step is no step, is interrupted at `breaks`, and
cut off when the steps of one command `exceeds`. -/
structure Debuggee (σ : Type) where
  step : σ → σ → Prop
  ended : σ → Prop
  rests : σ → Prop
  breaks : σ → Prop
  exceeds : Nat → Prop

namespace Timeline

variable {σ τ : Type} {R : σ → τ → Prop} {t : Timeline σ} {u : Timeline τ}

/-- Two histories, state by state. -/
structure Related (R : σ → τ → Prop) (t : Timeline σ) (u : Timeline τ) : Prop where
  past : List.Forall₂ R t.past u.past
  present : R t.present u.present
  future : List.Forall₂ R t.future u.future

namespace Related

theorem start {a : σ} {b : τ} (h : R a b) : Related R (Timeline.start a) (Timeline.start b) :=
  ⟨.nil, h, .nil⟩

theorem commit {a : σ} {b : τ} (h : Related R t u) (hab : R a b) :
    Related R (t.commit a) (u.commit b) :=
  ⟨.cons h.present h.past, hab, .nil⟩

theorem undo (h : Related R t u) : Related R t.undo u.undo := by
  obtain ⟨past, present, future⟩ := t
  obtain ⟨past', present', future'⟩ := u
  obtain ⟨hpast, hpresent, hfuture⟩ := h
  cases hpast with
  | nil => exact ⟨.nil, hpresent, hfuture⟩
  | cons hab hpast => exact ⟨hpast, hab, .cons hpresent hfuture⟩

theorem redo (h : Related R t u) : Related R t.redo u.redo := by
  obtain ⟨past, present, future⟩ := t
  obtain ⟨past', present', future'⟩ := u
  obtain ⟨hpast, hpresent, hfuture⟩ := h
  cases hfuture with
  | nil => exact ⟨hpast, hpresent, .nil⟩
  | cons hab hfuture => exact ⟨.cons hpresent hpast, hab, hfuture⟩

end Related

end Timeline

namespace Debuggee

variable {σ τ : Type} {p : Debuggee σ} {p' : Debuggee τ} {R : σ → τ → Prop}

/-- A reason to leave a run after `n` steps. -/
def Stops (p : Debuggee σ) (n : Nat) (s : σ) : Prop := p.ended s ∨ p.exceeds n ∨ p.breaks s

/-- `n` steps with no reason to leave before them. -/
inductive Proceeds (p : Debuggee σ) (t : Timeline σ) : Nat → Timeline σ → Prop
  | refl : Proceeds p t 0 t
  | tail {n : Nat} {u : Timeline σ} {s : σ} (h : Proceeds p t n u) (hgo : ¬ p.Stops n u.present)
      (hstep : p.step u.present s) : Proceeds p t (n + 1) (u.commit s)

/-- What a command does to the line of states. -/
inductive Obeys (p : Debuggee σ) : DebugCommand → Timeline σ → Timeline σ → Prop
  | step {t : Timeline σ} {s : σ} (h : p.step t.present s) : Obeys p .step t (t.commit s)
  | rest {t : Timeline σ} (h : p.rests t.present) : Obeys p .step t t
  | undo (t : Timeline σ) : Obeys p .undo t t.undo
  | redo (t : Timeline σ) : Obeys p .redo t t.redo
  | debugRun {n : Nat} {t u : Timeline σ} (h : p.Proceeds t n u) (hstop : p.Stops n u.present) :
      Obeys p .debugRun t u

/-- A program that follows another and stops where it does. -/
structure Matches (R : σ → τ → Prop) (p : Debuggee σ) (p' : Debuggee τ) : Prop where
  step : Simulation.Simulates R p.step p'.step
  rests : ∀ s t, R s t → p.rests s → p'.rests t
  stops : ∀ n s t, R s t → (p.Stops n s ↔ p'.Stops n t)

theorem Proceeds.matches {n : Nat} {t u : Timeline σ} {t' : Timeline τ} (h : p.Proceeds t n u)
    (hR : Matches R p p') (ht : Timeline.Related R t t') :
    ∃ u', p'.Proceeds t' n u' ∧ Timeline.Related R u u' := by
  induction h with
  | refl => exact ⟨t', .refl, ht⟩
  | tail _ hgo hstep ih =>
    obtain ⟨u', hproceeds, hu⟩ := ih
    obtain ⟨s', hstep', hs⟩ := hR.step _ _ _ hu.present hstep
    exact ⟨_, hproceeds.tail (fun hstop => hgo ((hR.stops _ _ _ hu.present).mpr hstop)) hstep',
      hu.commit hs⟩

/-- Under a debugger it follows the other on the whole line. -/
theorem Matches.obeys (h : Matches R p p') (command : DebugCommand) :
    Simulation.Simulates (Timeline.Related R) (p.Obeys command) (p'.Obeys command) := by
  rintro t t' u ht hobeys
  cases hobeys with
  | step hstep =>
    obtain ⟨s', hstep', hs⟩ := h.step _ _ _ ht.present hstep
    exact ⟨_, .step hstep', ht.commit hs⟩
  | rest hrests => exact ⟨t', .rest (h.rests _ _ ht.present hrests), ht⟩
  | undo => exact ⟨_, .undo t', ht.undo⟩
  | redo => exact ⟨_, .redo t', ht.redo⟩
  | debugRun hproceeds hstop =>
    obtain ⟨u', hproceeds', hu⟩ := hproceeds.matches h ht
    exact ⟨u', .debugRun hproceeds' ((h.stops _ _ _ hu.present).mp hstop), hu⟩

end Debuggee
