/-
# Loops that may run forever

A loop is given by its *round*, which goes on with a new state or ends with a result; running it
takes fuel, and the loop ends where some amount of fuel is enough (`Ends`).  The result does not
depend on the amount (`Ends.unique`).

Whether a loop ends is decided by two rules: a measure that each round decreases
(`terminates_of_measure`), or an invariant under which each round goes on
(`not_terminates_of_invariant`).  What holds of the result is a matter of an invariant as well
(`Ends.spec`).
-/

import Mathlib.Data.Nat.Notation
import Mathlib.Tactic.TypeStar

namespace Loops

/-- What a round of a loop does. -/
inductive Turn (σ τ : Type*)
  | again (s : σ)
  | ends (t : τ)

variable {σ τ : Type*} (round : σ → Turn σ τ)

/-- The loop, with fuel for some rounds. -/
def run : ℕ → σ → Option τ
  | 0, _ => none
  | fuel + 1, s =>
    match round s with
    | .again s => run fuel s
    | .ends t => some t

/-- The loop ends with a result. -/
def Ends (s : σ) (t : τ) : Prop := ∃ fuel, run round fuel s = some t

/-- The loop ends. -/
def Terminates (s : σ) : Prop := ∃ t, Ends round s t

variable {round} {s s' : σ} {t t' : τ} {inv : σ → Prop}

theorem run_again (h : round s = .again s') (fuel : ℕ) :
    run round (fuel + 1) s = run round fuel s' := by
  rw [run, h]

theorem run_ends (h : round s = .ends t) (fuel : ℕ) : run round (fuel + 1) s = some t := by
  rw [run, h]

theorem Ends.of_ends (h : round s = .ends t) : Ends round s t := ⟨1, run_ends h 0⟩

theorem ends_again (h : round s = .again s') : Ends round s t ↔ Ends round s' t := by
  constructor
  · rintro ⟨fuel, hrun⟩
    cases fuel with
    | zero => exact absurd hrun nofun
    | succ fuel => exact ⟨fuel, run_again h fuel ▸ hrun⟩
  · rintro ⟨fuel, hrun⟩
    exact ⟨fuel + 1, (run_again h fuel).trans hrun⟩

theorem terminates_again (h : round s = .again s') : Terminates round s ↔ Terminates round s' :=
  exists_congr fun _ => ends_again h

/-- The result is the same for every amount of fuel that is enough. -/
theorem Ends.unique (h : Ends round s t) (h' : Ends round s t') : t = t' := by
  obtain ⟨fuel, hrun⟩ := h
  induction fuel generalizing s with
  | zero => exact absurd hrun nofun
  | succ fuel ih =>
      cases hround : round s with
      | again s' =>
          rw [run_again hround] at hrun
          exact ih ((ends_again hround).1 h') hrun
      | ends u =>
          obtain ⟨fuel', hrun'⟩ := h'
          cases fuel' with
          | zero => exact absurd hrun' nofun
          | succ fuel' =>
              rw [run_ends hround] at hrun hrun'
              exact Option.some.inj (hrun.symm.trans hrun')

/-- **What holds of the result**: an invariant holds of each state the loop goes on with, and the
round that ends has the result that is promised. -/
theorem Ends.spec {good : τ → Prop} (hagain : ∀ s s', inv s → round s = .again s' → inv s')
    (hends : ∀ s t, inv s → round s = .ends t → good t) (hs : inv s) (h : Ends round s t) :
    good t := by
  obtain ⟨fuel, hrun⟩ := h
  induction fuel generalizing s with
  | zero => exact absurd hrun nofun
  | succ fuel ih =>
      cases hround : round s with
      | again s' => exact ih (hagain s s' hs hround) ((run_again hround fuel).symm.trans hrun)
      | ends u =>
          obtain rfl := Option.some.inj ((run_ends hround fuel).symm.trans hrun)
          exact hends s u hs hround

/-- **A loop ends** where each round that goes on decreases a measure. -/
theorem terminates_of_measure (measure : σ → ℕ)
    (hagain : ∀ s s', inv s → round s = .again s' → inv s' ∧ measure s' < measure s)
    (hs : inv s) : Terminates round s := by
  induction hn : measure s using Nat.strongRecOn generalizing s with
  | ind n ih =>
      cases hround : round s with
      | again s' =>
          obtain ⟨hs', hless⟩ := hagain s s' hs hround
          exact (terminates_again hround).2 (ih _ (hn ▸ hless) hs' rfl)
      | ends t => exact ⟨t, .of_ends hround⟩

/-- **A loop runs forever** where each round goes on under an invariant. -/
theorem not_terminates_of_invariant (hagain : ∀ s, inv s → ∃ s', round s = .again s' ∧ inv s')
    (hs : inv s) : ¬Terminates round s := by
  rintro ⟨t, fuel, hrun⟩
  induction fuel generalizing s with
  | zero => exact absurd hrun nofun
  | succ fuel ih =>
      obtain ⟨s', hround, hs'⟩ := hagain s hs
      exact ih hs' ((run_again hround fuel).symm.trans hrun)

end Loops
