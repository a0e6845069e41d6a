/-
# Chains of items with consecutive keys

Items have integer keys, and an item can be linked to another.  Read from the highest key
down, a table is a chain (`Consecutive`) when each item is followed by the one with the next
lower key, to which it is linked.

The order in which a table is read does not matter: its items form a chain exactly when their
keys fill an interval and every two neighbours are linked (`consecutive_iff`).
-/

import Mathlib.Data.List.Chain
import Mathlib.Data.List.Sort
import Mathlib.Data.Int.Order.Basic

namespace KeyedChain

variable {α : Type*} (key : α → ℤ) (Linked : α → α → Prop)

/-- Each item is followed by the one with the next lower key, to which it is linked. -/
def Consecutive (l : List α) : Prop :=
  l.IsChain fun upper lower => key upper = key lower + 1 ∧ Linked upper lower

/-- The keys of the items are the integers from `lo` to `hi`. -/
def KeysBetween (l : List α) (lo hi : ℤ) : Prop :=
  ∀ k, (∃ x ∈ l, key x = k) ↔ lo ≤ k ∧ k ≤ hi

/-- An item is linked to the one with the next lower key. -/
def NeighboursLinked (l : List α) : Prop :=
  ∀ x ∈ l, ∀ y ∈ l, key y + 1 = key x → Linked x y

/-- The items from the highest key down. -/
def descending (l : List α) : List α := l.insertionSort fun x y => key y ≤ key x

variable {key Linked}

theorem mem_descending {l : List α} {x : α} : x ∈ descending key l ↔ x ∈ l :=
  List.mem_insertionSort _

theorem descending_pairwise {l : List α} (hnodup : (l.map key).Nodup) :
    (descending key l).Pairwise fun x y => key y < key x := by
  have hperm := List.perm_insertionSort (fun x y => key y ≤ key x) l
  have htotal : Std.Total fun x y : α => key y ≤ key x := ⟨fun x y => le_total (key y) (key x)⟩
  have htrans : IsTrans α fun x y => key y ≤ key x := ⟨fun _ _ _ h h' => h'.trans h⟩
  have hle := List.pairwise_insertionSort (fun x y : α => key y ≤ key x) l
  have hne : (descending key l).Pairwise fun x y => key x ≠ key y :=
    List.pairwise_map.1 ((hperm.map key).nodup_iff.2 hnodup)
  exact (hle.and hne).imp fun h => lt_of_le_of_ne h.1 h.2.symm

@[simp] theorem consecutive_nil : Consecutive key Linked [] := .nil

@[simp] theorem consecutive_singleton (x : α) : Consecutive key Linked [x] := .singleton x

theorem consecutive_cons {x : α} {l : List α} :
    Consecutive key Linked (x :: l) ↔
      (∀ y ∈ l.head?, key x = key y + 1 ∧ Linked x y) ∧ Consecutive key Linked l :=
  List.isChain_cons

theorem consecutive_cons_cons {x y : α} {l : List α} :
    Consecutive key Linked (x :: y :: l) ↔
      (key x = key y + 1 ∧ Linked x y) ∧ Consecutive key Linked (y :: l) :=
  List.isChain_cons_cons

/-- The highest key is that of the first item. -/
theorem KeysBetween.head {x : α} {l : List α} {lo hi : ℤ}
    (hsorted : (x :: l).Pairwise fun x y => key y < key x) (h : KeysBetween key (x :: l) lo hi) :
    lo ≤ key x ∧ key x = hi := by
  obtain ⟨hlo, hhi⟩ := (h (key x)).1 ⟨x, List.mem_cons_self, rfl⟩
  obtain ⟨y, hy, hkey⟩ := (h hi).2 ⟨by omega, le_refl hi⟩
  refine ⟨hlo, ?_⟩
  rcases List.mem_cons.1 hy with rfl | hy
  · exact hkey
  · have := List.rel_of_pairwise_cons hsorted hy
    omega

/-- The keys fill an interval when those below the highest do, up to the next key. -/
theorem keysBetween_cons_cons {x y : α} {l : List α} {lo hi : ℤ}
    (hsorted : (x :: y :: l).Pairwise fun x y => key y < key x) :
    KeysBetween key (x :: y :: l) lo hi ↔
      key x = hi ∧ key x = key y + 1 ∧ KeysBetween key (y :: l) lo (key y) := by
  have hbelow : ∀ z ∈ y :: l, key z < key x := fun z hz => List.rel_of_pairwise_cons hsorted hz
  have htail := List.Pairwise.of_cons hsorted
  constructor
  · intro h
    have hhi := (h.head hsorted).2
    have hlo := ((h (key y)).1 ⟨y, List.mem_cons_of_mem _ List.mem_cons_self, rfl⟩).1
    have hy := hbelow y List.mem_cons_self
    have hnext : key x = key y + 1 := by
      -- the key above that of `y` is one of the table
      obtain ⟨z, hz, hkey⟩ := (h (key y + 1)).2 ⟨by omega, by omega⟩
      rcases List.mem_cons.1 hz with rfl | hz
      · exact hkey
      rcases List.mem_cons.1 hz with rfl | hz
      · omega
      · have := List.rel_of_pairwise_cons htail hz
        omega
    refine ⟨hhi, hnext, fun k => ?_⟩
    have hk := h k
    rw [List.exists_mem_cons_iff] at hk
    constructor
    · rintro ⟨z, hz, rfl⟩
      have := hbelow z hz
      have := hk.1 (.inr ⟨z, hz, rfl⟩)
      omega
    · rintro ⟨hlok, hky⟩
      rcases hk.2 ⟨hlok, by omega⟩ with hkey | hmem
      · omega
      · exact hmem
  · rintro ⟨rfl, hnext, h⟩ k
    have hlo := (h.head htail).1
    rw [List.exists_mem_cons_iff, h k]
    omega

/-- The neighbours are linked when those below the highest are, and the two highest. -/
theorem neighboursLinked_cons_cons {x y : α} {l : List α}
    (hsorted : (x :: y :: l).Pairwise fun x y => key y < key x) (hnext : key x = key y + 1) :
    NeighboursLinked key Linked (x :: y :: l) ↔
      Linked x y ∧ NeighboursLinked key Linked (y :: l) := by
  have hbelow : ∀ z ∈ y :: l, key z < key x := fun z hz => List.rel_of_pairwise_cons hsorted hz
  constructor
  · intro h
    refine ⟨h x List.mem_cons_self y (List.mem_cons_of_mem _ List.mem_cons_self) hnext.symm, ?_⟩
    exact fun u hu v hv => h u (List.mem_cons_of_mem _ hu) v (List.mem_cons_of_mem _ hv)
  · rintro ⟨hlink, h⟩ u hu v hv hkey
    rcases List.mem_cons.1 hu with rfl | hu'
    · rcases List.mem_cons.1 hv with rfl | hv'
      · omega
      rcases List.mem_cons.1 hv' with rfl | hv'
      · exact hlink
      · have := List.rel_of_pairwise_cons (List.Pairwise.of_cons hsorted) hv'
        omega
    · rcases List.mem_cons.1 hv with rfl | hv'
      · have := hbelow u hu'
        omega
      · exact h u hu' v hv' hkey

/-- **The items form a chain exactly when their keys fill an interval and neighbours are
linked.** -/
theorem consecutive_iff {l : List α} (hsorted : l.Pairwise fun x y => key y < key x) :
    Consecutive key Linked l ↔
      (∃ lo hi, KeysBetween key l lo hi) ∧ NeighboursLinked key Linked l := by
  induction l with
  | nil =>
      simp only [consecutive_nil, true_iff]
      refine ⟨⟨1, 0, fun k => ⟨fun ⟨x, hx, _⟩ => absurd hx List.not_mem_nil, by omega⟩⟩, ?_⟩
      exact fun x hx => absurd hx List.not_mem_nil
  | cons x l ih =>
      cases l with
      | nil =>
          simp only [consecutive_singleton, true_iff]
          refine ⟨⟨key x, key x, fun k => ?_⟩, fun u hu v hv h => ?_⟩
          · simp only [List.mem_singleton, exists_eq_left]
            omega
          · rw [List.mem_singleton.1 hu, List.mem_singleton.1 hv] at h
            omega
      | cons y l =>
          have htail := List.Pairwise.of_cons hsorted
          rw [consecutive_cons_cons, ih htail]
          constructor
          · rintro ⟨⟨hnext, hlink⟩, ⟨lo, hi, hkeys⟩, hlinked⟩
            obtain rfl := (hkeys.head htail).2
            exact ⟨⟨lo, key x, (keysBetween_cons_cons hsorted).2 ⟨rfl, hnext, hkeys⟩⟩,
              (neighboursLinked_cons_cons hsorted hnext).2 ⟨hlink, hlinked⟩⟩
          · rintro ⟨⟨lo, hi, hkeys⟩, hlinked⟩
            obtain ⟨-, hnext, hkeys⟩ := (keysBetween_cons_cons hsorted).1 hkeys
            obtain ⟨hlink, hlinked⟩ := (neighboursLinked_cons_cons hsorted hnext).1 hlinked
            exact ⟨⟨hnext, hlink⟩, ⟨lo, key y, hkeys⟩, hlinked⟩

/-- Neither an interval of keys nor a link depends on the order of the items. -/
theorem consecutive_descending_iff {l : List α} (hnodup : (l.map key).Nodup) :
    Consecutive key Linked (descending key l) ↔
      (∃ lo hi, KeysBetween key l lo hi) ∧ NeighboursLinked key Linked l := by
  rw [consecutive_iff (descending_pairwise hnodup)]
  simp only [KeysBetween, NeighboursLinked, mem_descending]

end KeyedChain
