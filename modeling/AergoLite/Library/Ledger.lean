/-
# Numbered ledgers

A ledger is a list of entries, each of a key and a number.  It is in order
(`Ledger.Ordered`) when the numbers of each key are `1, 2, 3, …` in the order of the
ledger.  An ordered ledger has no entry twice (`Ordered.nodup`), and stays ordered
exactly when the entry that is added has the next number of its key
(`ordered_append_iff`).

A list of entries may also go on from numbers that are given (`Ledger.Follows`).  Of such
a list a part is left that goes on from the same numbers exactly when each key loses its
last entries only (`follows_filter_iff`).
-/

import Mathlib.Data.List.Nodup
import Mathlib.Data.Int.Basic
import Mathlib.Logic.Function.Basic
import Mathlib.Tactic.Common

namespace Ledger

variable {κ : Type*} [DecidableEq κ]

/-- The numbers of a key, in the order of the ledger. -/
def numbers (k : κ) (l : List (κ × ℕ)) : List ℕ := (l.filter fun e => e.1 = k).map Prod.snd

/-- How often the key occurs. -/
def count (k : κ) (l : List (κ × ℕ)) : ℕ := (numbers k l).length

/-- The numbers of each key are `1, 2, 3, …`. -/
def Ordered (l : List (κ × ℕ)) : Prop := ∀ k, numbers k l = List.range' 1 (count k l)

@[simp] theorem numbers_nil (k : κ) : numbers k [] = [] := rfl

theorem numbers_append (k : κ) (l l' : List (κ × ℕ)) :
    numbers k (l ++ l') = numbers k l ++ numbers k l' := by
  simp [numbers]

theorem count_append (k : κ) (l l' : List (κ × ℕ)) :
    count k (l ++ l') = count k l + count k l' := by
  simp [count, numbers_append]

theorem numbers_singleton (k : κ) (e : κ × ℕ) : numbers k [e] = if e.1 = k then [e.2] else [] := by
  unfold numbers
  by_cases h : e.1 = k <;> simp [h]

theorem count_singleton (k : κ) (e : κ × ℕ) : count k [e] = if e.1 = k then 1 else 0 := by
  rw [count, numbers_singleton]
  split_ifs <;> rfl

theorem ordered_nil : Ordered ([] : List (κ × ℕ)) := fun _ => rfl

/-- **An ordered ledger stays ordered exactly with the next number.** -/
theorem ordered_append_iff {l : List (κ × ℕ)} (h : Ordered l) {e : κ × ℕ} :
    Ordered (l ++ [e]) ↔ e.2 = count e.1 l + 1 := by
  constructor
  · intro happ
    have hkey := happ e.1
    rw [count_append, count_singleton, if_pos rfl, numbers_append, numbers_singleton, if_pos rfl,
      h e.1, List.range'_concat] at hkey
    have hlast := List.append_cancel_left hkey
    simp only [List.cons.injEq, and_true] at hlast
    omega
  · intro hnext k
    rw [count_append, count_singleton, numbers_append, numbers_singleton, h k]
    split_ifs with hk
    · subst hk
      rw [List.range'_concat, hnext]
      simp only [List.append_cancel_left_eq, List.cons.injEq, and_true]
      omega
    · simp

/-- **An ordered ledger has no entry twice.** -/
theorem Ordered.nodup {l : List (κ × ℕ)} (h : Ordered l) : l.Nodup := by
  refine List.nodup_iff_count.2 fun e => ?_
  have hcount : List.count e l ≤ List.count e.2 (numbers e.1 l) := by
    have hmem : List.count e l = List.count e (l.filter fun x => x.1 = e.1) :=
      (List.count_filter (by simp)).symm
    rw [hmem]
    exact List.count_le_count_map
  rw [h e.1] at hcount
  exact Nat.le_trans hcount (List.nodup_iff_count.1 (List.nodup_range' ..) e.2)

/-! ## Ledgers that go on -/

/-- The numbers of each key go on from the one that is given, one by one. -/
def Follows (last : κ → ℤ) : List (κ × ℤ) → Prop
  | [] => True
  | e :: l => e.2 = last e.1 + 1 ∧ Follows (Function.update last e.1 e.2) l

/-- The numbers of a key in a ledger that goes on. -/
def later (k : κ) (l : List (κ × ℤ)) : List ℤ := (l.filter fun e => e.1 = k).map Prod.snd

@[simp] theorem later_nil (k : κ) : later k [] = [] := rfl

theorem later_cons (k : κ) (e : κ × ℤ) (l : List (κ × ℤ)) :
    later k (e :: l) = if e.1 = k then e.2 :: later k l else later k l := by
  unfold later
  by_cases h : e.1 = k <;> simp [h]

variable {last last' : κ → ℤ} {l : List (κ × ℤ)}

/-- The numbers of a key are the next ones. -/
theorem follows_iff :
    Follows last l ↔
      ∀ k, later k l = (List.range (later k l).length).map fun i : ℕ => last k + 1 + i := by
  induction l generalizing last with
  | nil => simp [Follows]
  | cons e l ih =>
      rw [Follows, ih]
      have hshift : ∀ (a : ℤ) (n : ℕ), (List.range (n + 1)).map (fun i : ℕ => a + 1 + i) =
          (a + 1) :: (List.range n).map fun i : ℕ => a + 1 + 1 + i := by
        intro a n
        rw [List.range_succ_eq_map, List.map_cons, List.map_map]
        refine congrArg₂ _ (by simp) (List.map_congr_left fun i _ => ?_)
        rw [Function.comp_apply]
        omega
      constructor
      · rintro ⟨hnext, hrest⟩ k
        rw [later_cons]
        split_ifs with hk
        · subst hk
          have hkey := hrest e.1
          rw [Function.update_self, hnext] at hkey
          rw [List.length_cons, hshift, hnext, ← hkey]
        · simpa [Function.update_of_ne (Ne.symm hk)] using hrest k
      · intro h
        have hkey := h e.1
        rw [later_cons, if_pos rfl, List.length_cons, hshift] at hkey
        obtain ⟨hnext, hrest⟩ := List.cons.inj hkey
        refine ⟨hnext, fun k => ?_⟩
        by_cases hk : e.1 = k
        · subst hk
          rw [Function.update_self, hnext]
          exact hrest
        · simpa [later_cons, hk, Function.update_of_ne (Ne.symm hk)] using h k

theorem follows_congr (h : ∀ e ∈ l, last e.1 = last' e.1) : Follows last l ↔ Follows last' l := by
  induction l generalizing last last' with
  | nil => exact Iff.rfl
  | cons e l ih =>
      rw [Follows, Follows, h e List.mem_cons_self]
      refine and_congr_right fun _ => ih fun x hx => ?_
      by_cases hk : x.1 = e.1
      · rw [hk, Function.update_self, Function.update_self]
      · rw [Function.update_of_ne hk, Function.update_of_ne hk]
        exact h x (List.mem_cons_of_mem e hx)

/-- The numbers are past the one they go on from. -/
theorem Follows.lt (h : Follows last l) {e : κ × ℤ} (he : e ∈ l) : last e.1 < e.2 := by
  induction l generalizing last with
  | nil => simp at he
  | cons x l ih =>
      obtain ⟨hnext, hrest⟩ := h
      rcases List.mem_cons.1 he with rfl | hmem
      · omega
      · have hlt := ih hrest hmem
        by_cases hk : e.1 = x.1
        · rw [hk, Function.update_self] at hlt
          rw [hk]
          omega
        · rwa [Function.update_of_ne hk] at hlt

/-- A key that occurs has the next number. -/
theorem Follows.next (h : Follows last l) {e : κ × ℤ} (he : e ∈ l) :
    (e.1, last e.1 + 1) ∈ l := by
  induction l generalizing last with
  | nil => simp at he
  | cons x l ih =>
      obtain ⟨hnext, hrest⟩ := h
      by_cases hk : e.1 = x.1
      · have hx : (e.1, last e.1 + 1) = x := Prod.ext hk (by rw [hk, hnext])
        exact hx ▸ List.mem_cons_self
      · have hmem : e ∈ l := (List.mem_cons.1 he).resolve_left fun h => hk (h ▸ rfl)
        have hnext' := ih hrest hmem
        rw [Function.update_of_ne hk] at hnext'
        exact List.mem_cons_of_mem x hnext'

/-- **What is left goes on from the same numbers** exactly when no entry is kept after one of
its key that is not. -/
theorem follows_filter_iff {ε : Type*} {entry : ε → κ × ℤ} {keep : ε → Bool} {l : List ε}
    (h : Follows last (l.map entry)) :
    Follows last ((l.filter keep).map entry) ↔
      l.Pairwise fun a b => (entry a).1 = (entry b).1 → keep b = true → keep a = true := by
  induction l generalizing last with
  | nil => simp [Follows]
  | cons x l ih =>
      obtain ⟨hnext, hrest⟩ := h
      rw [List.pairwise_cons]
      cases hkeep : keep x with
      | true =>
          rw [List.filter_cons_of_pos hkeep, List.map_cons, Follows, ih hrest]
          simp [hnext]
      | false =>
          rw [List.filter_cons_of_neg (by simp [hkeep])]
          -- the number of `x` is that of no later entry, so its key must not occur again
          have hupdate : (∀ b ∈ l, (entry x).1 = (entry b).1 → keep b = false) →
              (Follows last ((l.filter keep).map entry) ↔
                Follows (Function.update last (entry x).1 (entry x).2)
                  ((l.filter keep).map entry)) := by
            refine fun hnone => follows_congr fun e he => ?_
            obtain ⟨b, hb, rfl⟩ := List.mem_map.1 he
            obtain ⟨hmem, hb⟩ := List.mem_filter.1 hb
            have hk : (entry b).1 ≠ (entry x).1 := fun hk => by
              simp [hnone b hmem hk.symm] at hb
            rw [Function.update_of_ne hk]
          constructor
          · intro hfollows
            have hnone : ∀ b ∈ l, (entry x).1 = (entry b).1 → keep b = false := by
              intro b hb hk
              by_contra hkept
              have hmem : entry b ∈ (l.filter keep).map entry :=
                List.mem_map_of_mem (List.mem_filter.2 ⟨hb, by simpa using hkept⟩)
              obtain ⟨c, hc, heq⟩ := List.mem_map.1 (hfollows.next hmem)
              have hlt := hrest.lt (List.mem_map_of_mem (List.mem_filter.1 hc).1)
              rw [heq, ← hk, Function.update_self] at hlt
              omega
            refine ⟨fun b hb hk hkept => ?_, (ih hrest).1 ((hupdate hnone).1 hfollows)⟩
            rw [hnone b hb hk] at hkept
            exact absurd hkept (by decide)
          · rintro ⟨hhead, hpairwise⟩
            have hnone : ∀ b ∈ l, (entry x).1 = (entry b).1 → keep b = false := by
              intro b hb hk
              by_contra hkept
              exact absurd (hhead b hb hk (by simpa using hkept)) (by decide)
            exact (hupdate hnone).2 ((ih hrest).2 hpairwise)

end Ledger
