/-
# Operations on parts of a state

A state has a part for each owner, and an operation of an owner reads and changes only the part of
that owner (`Confined`).  Then a run of operations of many owners is, on each part, the run of
the operations of its owner (`Confined.own_run`), and two runs in which each owner makes the same
operations in the same order bring about the same parts and the same results, however they are
interleaved (`Confined.interleave`).  The two runs may be made on different states, by different
implementations of the operations, as long as both are confined to the same operations on a part.
-/

import Mathlib.Tactic.SplitIfs
import Mathlib.Tactic.TypeStar

namespace Partition

variable {ι α β σ σ' τ : Type*}

/-- The operations of a list, one after the other, with their results. -/
def run (step : ι → α → σ → β × σ) : List (ι × α) → σ → List (ι × β) × σ
  | [], s => ([], s)
  | (i, a) :: ops, s =>
    ((i, (step i a s).1) :: (run step ops (step i a s).2).1, (run step ops (step i a s).2).2)

theorem run_cons (step : ι → α → σ → β × σ) (i : ι) (a : α) (ops : List (ι × α)) (s : σ) :
    run step ((i, a) :: ops) s =
      ((i, (step i a s).1) :: (run step ops (step i a s).2).1, (run step ops (step i a s).2).2) :=
  rfl

variable [DecidableEq ι]

/-- What belongs to an owner. -/
def of (i : ι) : List (ι × α) → List (ι × α) := List.filter fun op => op.1 = i

theorem of_cons_self (i : ι) (a : α) (ops : List (ι × α)) :
    of i ((i, a) :: ops) = (i, a) :: of i ops :=
  List.filter_cons_of_pos (decide_eq_true rfl)

theorem of_cons_other {i j : ι} (h : j ≠ i) (a : α) (ops : List (ι × α)) :
    of i ((j, a) :: ops) = of i ops :=
  List.filter_cons_of_neg fun heq => h (of_decide_eq_true heq)

/-- **Operations that are confined to the part of their owner**, where they do what `loc` does.
`Valid` tells which operations of an owner are about its part. -/
structure Confined (own : ι → σ → τ) (loc : ι → α → τ → β × τ) (step : ι → α → σ → β × σ)
    (Valid : ι → α → Prop) : Prop where
  result : ∀ {i a}, Valid i a → ∀ s, (step i a s).1 = (loc i a (own i s)).1
  own_self : ∀ {i a}, Valid i a → ∀ s, own i (step i a s).2 = (loc i a (own i s)).2
  own_other : ∀ {i j a}, Valid i a → j ≠ i → ∀ s, own j (step i a s).2 = own j s

variable {own : ι → σ → τ} {own' : ι → σ' → τ} {loc : ι → α → τ → β × τ}
  {step : ι → α → σ → β × σ} {step' : ι → α → σ' → β × σ'} {Valid : ι → α → Prop}

/-- **A run, on the part of an owner**, is the run of what the owner does there. -/
theorem Confined.own_run (h : Confined own loc step Valid) (i : ι) {ops : List (ι × α)}
    (hvalid : ∀ op ∈ ops, Valid op.1 op.2) (s : σ) :
    (of i (run step ops s).1, own i (run step ops s).2) = run loc (of i ops) (own i s) := by
  induction ops generalizing s with
  | nil => rfl
  | cons op ops ih =>
      obtain ⟨j, a⟩ := op
      have hop : Valid j a := hvalid (j, a) List.mem_cons_self
      have hrest := ih (fun op hmem => hvalid op (List.mem_cons_of_mem _ hmem)) (step j a s).2
      by_cases hj : j = i
      · subst hj
        rw [of_cons_self, run_cons, run_cons, of_cons_self, ← h.result hop, ← h.own_self hop,
          ← hrest]
      · rw [h.own_other hop (Ne.symm hj)] at hrest
        rw [of_cons_other hj, run_cons, of_cons_other hj]
        exact hrest

/-- **The interleaving does not matter.**  Where each owner makes the same operations in the same
order on the same part, each gets the same results, and its part is the same in the end. -/
theorem Confined.interleave (h : Confined own loc step Valid) (h' : Confined own' loc step' Valid)
    {ops ops' : List (ι × α)} (hvalid : ∀ op ∈ ops, Valid op.1 op.2)
    (hsame : ∀ i, of i ops = of i ops') {s : σ} {s' : σ'} (hown : ∀ i, own i s = own' i s')
    (i : ι) :
    of i (run step ops s).1 = of i (run step' ops' s').1 ∧
      own i (run step ops s).2 = own' i (run step' ops' s').2 := by
  have hvalid' : ∀ op ∈ ops', Valid op.1 op.2 := by
    intro op hop
    have hmem : op ∈ of op.1 ops' := List.mem_filter.2 ⟨hop, decide_eq_true rfl⟩
    rw [← hsame op.1] at hmem
    exact hvalid op (List.mem_filter.1 hmem).1
  have hrun := h.own_run i hvalid s
  have hrun' := h'.own_run i hvalid' s'
  rw [hsame i, hown i, ← hrun'] at hrun
  exact ⟨congrArg Prod.fst hrun, congrArg Prod.snd hrun⟩

end Partition
