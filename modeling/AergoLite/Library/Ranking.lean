/-
# The first of the smallest

`List.argmin` takes, of the items of a list at which a function is smallest, the first one.
Two functions choose the same item whatever the order of the list, for the one and for the
other, exactly when one item is strictly below all others under both (`argmin_perm_iff`).
-/

import Mathlib.Data.List.MinMax
import Mathlib.Data.List.Perm.Basic
import Mathlib.Tactic.Common

namespace Ranking

variable {α β γ : Type*} [LinearOrder β] [LinearOrder γ] {f : α → β} {g : α → γ} {l : List α}
  {a : α}

/-- An item that is nowhere above comes first at the head. -/
theorem argmin_cons_of_le (h : ∀ b ∈ l, f a ≤ f b) : (a :: l).argmin f = some a := by
  rw [List.argmin_cons]
  cases hmin : l.argmin f with
  | none => rfl
  | some c =>
      have hle := h c (List.argmin_mem hmin)
      simp [hle.not_gt]

/-- An item that is strictly below all others is chosen in any order. -/
theorem argmin_eq_of_lt (hmem : a ∈ l) (h : ∀ b ∈ l, b ≠ a → f a < f b) :
    l.argmin f = some a := by
  obtain ⟨c, hc⟩ : ∃ c, l.argmin f = some c :=
    Option.ne_none_iff_exists'.1 fun hnone => by
      rw [List.argmin_eq_none.1 hnone] at hmem
      simp at hmem
  by_contra hne
  have hca : c ≠ a := fun heq => hne (heq ▸ hc)
  exact absurd (List.le_of_mem_argmin hmem hc) (h c (List.argmin_mem hc) hca).not_ge

/-- If one item is chosen in any order, it is strictly below all others. -/
theorem lt_of_argmin_perm [DecidableEq α] (h : ∀ l' : List α, l'.Perm l → l'.argmin f = some a)
    {b : α} (hb : b ∈ l) (hne : b ≠ a) : f a < f b := by
  by_contra hle
  have hmin : ∀ c ∈ l, f b ≤ f c := fun c hc =>
    (not_lt.1 hle).trans (List.le_of_mem_argmin hc (h l (.refl l)))
  have hfirst : (b :: l.erase b).argmin f = some b :=
    argmin_cons_of_le fun c hc => hmin c (List.mem_of_mem_erase hc)
  rw [h _ (List.perm_cons_erase hb).symm] at hfirst
  exact hne (Option.some.inj hfirst).symm

/-- **Two rankings choose the same item in any two orders of a list** exactly when one item is
strictly below all others under both. -/
theorem argmin_perm_iff [DecidableEq α] (hne : l ≠ []) :
    (∀ l₁ l₂ : List α, l₁.Perm l → l₂.Perm l → l₁.argmin f = l₂.argmin g) ↔
      ∃ a ∈ l, ∀ b ∈ l, b ≠ a → f a < f b ∧ g a < g b := by
  constructor
  · intro h
    obtain ⟨a, ha⟩ := Option.ne_none_iff_exists'.1 (mt List.argmin_eq_none.1 hne : l.argmin f ≠ none)
    have hmem := List.argmin_mem ha
    have hg : ∀ l' : List α, l'.Perm l → l'.argmin g = some a := fun l' hl' =>
      (h l l' (.refl l) hl').symm.trans ha
    have hf : ∀ l' : List α, l'.Perm l → l'.argmin f = some a := fun l' hl' =>
      (h l' l hl' (.refl l)).trans (hg l (.refl l))
    exact ⟨a, hmem, fun b hb hba =>
      ⟨lt_of_argmin_perm hf hb hba, lt_of_argmin_perm hg hb hba⟩⟩
  · rintro ⟨a, hmem, hlt⟩ l₁ l₂ h₁ h₂
    rw [argmin_eq_of_lt (h₁.mem_iff.2 hmem) fun b hb hba => (hlt b (h₁.mem_iff.1 hb) hba).1,
      argmin_eq_of_lt (h₂.mem_iff.2 hmem) fun b hb hba => (hlt b (h₂.mem_iff.1 hb) hba).2]

end Ranking
