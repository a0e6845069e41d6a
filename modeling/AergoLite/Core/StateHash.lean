/-
# The three ways to the state hash agree

The array that holds the page hashes is described by how many of its items are right: `Part`.
It is either `Good`, when it has the memory it says it has, or `Wrapped`, after its number of
allocated items has doubled past 65535 and was cut.  `Cut` is in between: items at the end
are lost until they are set again.
-/

import AergoLite.Core.PageHashes

namespace AergoLite
namespace Core

open AergoLite.Common
open Transition

/-- The number of the page of a row can be counted. -/
def PageRow.Counted (row : PageRow) : Prop := 0 < row.pgno.toNat ∧ row.pgno.toNat ≤ 65535

/-- The page at a position, from 0 on, is in the list. -/
def Sets (list : List PageRow) (q : ℕ) : Prop := ∃ row ∈ list, row.pgno.toNat = q + 1

/-- The first `k` items of the array are the hashes of the table. -/
structure Part (rows : List PageRow) (array : ItemArray Bytes) (k : ℕ) : Prop where
  itemSize : array.itemSize = 32
  alloc_le : array.allocItems.toNat ≤ array.memory.length
  used : array.usedItems.toNat = largest rows
  le : k ≤ largest rows
  item : ∀ q < k, array.item q = some (pageHash rows q)

/-- The array has the memory it says it has. -/
structure Good (rows : List PageRow) (array : ItemArray Bytes) : Prop where
  part : Part rows array (largest rows)
  length : array.memory.length = array.allocItems.toNat
  fits : largest rows ≤ array.allocItems.toNat

/-- The array has more memory than it says it has. -/
structure Wrapped (rows : List PageRow) (array : ItemArray Bytes) : Prop where
  part : Part rows array (largest rows)
  fits : largest rows ≤ array.memory.length
  wrapped : array.allocItems.toNat < largest rows

/-- The array has only the memory it says it has, and that is too little. -/
structure Cut (rows : List PageRow) (array : ItemArray Bytes) : Prop where
  part : Part rows array array.allocItems.toNat
  length : array.memory.length = array.allocItems.toNat
  cut : array.allocItems.toNat < largest rows

theorem pagePos_eq {row : PageRow} (h : row.Counted) :
    pagePos row.pgno = (row.pgno.toNat - 1 : ℕ) := by
  have hone : (1 : UInt32) ≤ row.pgno := UInt32.le_iff_toNat_le.2 h.1
  have hnat : (row.pgno - 1).toBitVec.toNat = row.pgno.toNat - 1 :=
    UInt32.toNat_sub_of_le _ _ hone
  have hsmall := h.2
  unfold pagePos
  rw [BitVec.toInt_eq_toNat_of_lt (by omega), hnat]

/-- The hash of a counted page is set at its position. -/
theorem arraySet_page {row : PageRow} {array : ItemArray Bytes} (hrow : row.Counted)
    (hsize : array.itemSize = 32) (halloc : array.allocItems.toNat ≤ array.memory.length) :
    ∃ array', arraySet zeroHash array (pagePos row.pgno) row.hash =
        some (.ok (row.pgno.toNat - 1), array') ∧
      SetAt zeroHash array (row.pgno.toNat - 1) row.hash array' := by
  rw [pagePos_eq hrow]
  have hsmall := hrow.2
  exact arraySet_spec (by omega) (by rw [hsize]; decide) halloc

theorem setPages_cons {row : PageRow} {list : List PageRow} {array : ItemArray Bytes}
    (hrow : row.Counted) (hsize : array.itemSize = 32)
    (halloc : array.allocItems.toNat ≤ array.memory.length) :
    ∃ array', SetAt zeroHash array (row.pgno.toNat - 1) row.hash array' ∧
      setPages ((row :: list).map PageRow.page) array =
        setPages (list.map PageRow.page) array' := by
  obtain ⟨array', hset, hspec⟩ := arraySet_page hrow hsize halloc
  refine ⟨array', hspec, ?_⟩
  rw [List.map_cons, setPages]
  dsimp only [PageRow.page]
  rw [hset]
  rfl

/-- A list of rows with hashes of 32 bytes is loaded as it is set. -/
theorem loadPagesHashCb_eq {rows : List PageRow} (hsized : ∀ row ∈ rows, row.hash.length = 32)
    (array : ItemArray Bytes) :
    loadPagesHashCb rows array = setPages (rows.map PageRow.page) array := by
  induction rows generalizing array with
  | nil => rfl
  | cons row rows ih =>
      rw [List.map_cons, loadPagesHashCb, setPages,
        if_neg (not_not.2 (hsized row List.mem_cons_self))]
      dsimp only [PageRow.page]
      refine congrArg _ (funext fun result => ?_)
      obtain ⟨pos, array'⟩ := result
      cases pos with
      | error _ => rfl
      | ok _ => exact ih (fun r hr => hsized r (List.mem_cons_of_mem _ hr)) array'

/-- **One page is set.**  An item is right after it where it was right and is not lost. -/
theorem Part.set {rows : List PageRow} {row : PageRow} {array array' : ItemArray Bytes}
    {k k' p : ℕ} (h : Part rows array k) (hp : row.pgno.toNat = p + 1)
    (hset : SetAt zeroHash array p row.hash array') (hle : k' ≤ max (p + 1) (largest rows))
    (hkept : ∀ q < k', q ≠ p →
      q < array.allocated p ∧ (q < k ∨ largest rows ≤ q ∧ q < p)) :
    Part (replaceRow row rows) array' k' where
  itemSize := hset.itemSize.trans h.itemSize
  alloc_le := hset.alloc_le h.alloc_le
  used := by
    rw [hset.usedItems, h.used, largest_replaceRow, hp, max_comm]
  le := by
    rw [largest_replaceRow, hp]
    exact hle
  item q hq := by
    rw [hset.item, pageHash_replaceRow, hp, h.used]
    by_cases hqp : q = p
    · rw [if_pos hqp, if_pos (show q + 1 = p + 1 by omega)]
    · rw [if_neg hqp, if_neg (show ¬q + 1 = p + 1 by omega)]
      obtain ⟨hallocated, hright | hcleared⟩ := hkept q hq hqp
      · have hk := h.le
        rw [if_neg (show ¬(largest rows ≤ q ∧ q < p) by omega), if_pos hallocated]
        exact h.item q hright
      · rw [if_pos hcleared, pageHash_of_le hcleared.1]

/-! ## Pages in order -/

/-- The array can grow to its next size. -/
def Roomy (rows list : List PageRow) (array : ItemArray Bytes) : Prop :=
  largest rows < array.allocItems.toNat ∨
    (∀ row ∈ list, largest rows < row.pgno.toNat) ∨ 2 * array.allocItems.toNat < 65536

theorem Good.set {rows list : List PageRow} {row : PageRow} {array array' : ItemArray Bytes}
    {p : ℕ} (h : Good rows array) (hp : row.pgno.toNat = p + 1) (hrow : row.Counted)
    (hlist : ∀ other ∈ list, row.pgno.toNat < other.pgno.toNat)
    (hset : SetAt zeroHash array p row.hash array') (hroomy : Roomy rows (row :: list) array) :
    Good (replaceRow row rows) array' ∧ Roomy (replaceRow row rows) list array' := by
  have hsmall := hrow.2
  have hused := h.part.used
  have hfits := h.fits
  have hlength := h.length
  have hroom : largest rows < array.allocItems.toNat ∨ largest rows ≤ p ∨
      2 * array.allocItems.toNat < 65536 := by
    rcases hroomy with hless | hfirst | hdouble
    · exact Or.inl hless
    · have := hfirst row List.mem_cons_self
      omega
    · exact Or.inr (Or.inr hdouble)
  have hallocated := allocated_eq array p
  have halloc := hset.alloc_eq
  rw [hused] at hallocated halloc
  rw [hallocated] at halloc
  refine ⟨⟨?_, ?_, ?_⟩, ?_⟩
  · rw [largest_replaceRow, hp]
    refine h.part.set hp hset le_rfl fun q hq hqp => ?_
    rw [hallocated]
    split_ifs <;> omega
  · rw [hset.length, halloc, hallocated]
    split_ifs <;> omega
  · rw [largest_replaceRow, hp, halloc]
    split_ifs <;> omega
  · unfold Roomy
    rw [largest_replaceRow, hp, halloc]
    by_cases hnew : largest rows ≤ p
    · refine Or.inr (Or.inl fun other hother => ?_)
      have := hlist other hother
      omega
    · refine Or.inl ?_
      split_ifs <;> omega

/-- Pages are set in an array that can grow. -/
theorem setPages_good {rows list : List PageRow} {array : ItemArray Bytes}
    (h : Good rows array) (hlist : PageTable list) (hcounted : ∀ row ∈ list, row.Counted)
    (hroomy : Roomy rows list array) :
    ∃ array', setPages (list.map PageRow.page) array = some (.ok, array') ∧
      Good (saveModifiedPages list rows) array' := by
  induction list generalizing rows array with
  | nil => exact ⟨array, rfl, h⟩
  | cons row list ih =>
      have hrow := hcounted row List.mem_cons_self
      obtain ⟨next, hset, hnext⟩ :=
        @setPages_cons row list array hrow h.part.itemSize h.part.alloc_le
      obtain ⟨hgood, hroomy'⟩ :=
        h.set (by have := hrow.1; omega) hrow hlist.lt hset hroomy
      rw [hnext]
      exact ih hgood hlist.tail (fun r hr => hcounted r (List.mem_cons_of_mem _ hr)) hroomy'

/-! ## An array that is too small -/

/-- The array ends with the page that is set: the items after it are lost. -/
theorem Part.set_grown {rows list : List PageRow} {row : PageRow} {array array' : ItemArray Bytes}
    {k p : ℕ} (h : Part rows array k) (hp : row.pgno.toNat = p + 1) (hrow : row.Counted)
    (hlist : ∀ other ∈ list, row.pgno.toNat < other.pgno.toNat)
    (hset : SetAt zeroHash array p row.hash array') (halloc : array.allocItems.toNat ≤ p)
    (hright : ∀ q < p, q < k ∨ largest rows ≤ q) :
    (p + 1 < largest rows → Cut (replaceRow row rows) array' ∧
      array'.allocItems.toNat = p + 1) ∧
    (largest rows ≤ p + 1 → Good (replaceRow row rows) array' ∧
      Roomy (replaceRow row rows) list array') := by
  have hsmall := hrow.2
  have hallocated : array.allocated p = p + 1 := by
    rw [allocated_eq, if_pos halloc]
  have hlength := hset.length
  have halloc' := hset.alloc_eq
  rw [if_pos (Or.inr halloc), hallocated] at halloc'
  rw [hallocated] at hlength
  have hstored : array'.allocItems.toNat = p + 1 := by omega
  have hpart : ∀ k', k' ≤ p + 1 → Part (replaceRow row rows) array' k' := fun k' hk' => by
    refine h.set hp hset (by omega) fun q hq hqp => ?_
    rw [hallocated]
    have := hright q (by omega)
    omega
  refine ⟨fun hless => ⟨⟨hstored ▸ hpart _ (by omega), by omega, ?_⟩, hstored⟩,
    fun hle => ⟨⟨?_, by omega, ?_⟩, Or.inr (Or.inl fun other hother => ?_)⟩⟩
  · rw [largest_replaceRow, hp]
    omega
  · exact hpart _ (by rw [largest_replaceRow, hp]; omega)
  · rw [largest_replaceRow, hp]
    omega
  · rw [largest_replaceRow, hp]
    have := hlist other hother
    omega

theorem Sets.of_cons {row : PageRow} {list : List PageRow} {q : ℕ} (h : Sets (row :: list) q)
    (hne : row.pgno.toNat ≠ q + 1) : Sets list q := by
  obtain ⟨r, hr, hpgno⟩ := h
  rcases List.mem_cons.1 hr with rfl | hr
  · exact absurd hpgno hne
  · exact ⟨r, hr, hpgno⟩

/-- What is lost is set again. -/
theorem setPages_cut {rows list : List PageRow} {array : ItemArray Bytes}
    (h : Cut rows array) (hlist : PageTable list) (hcounted : ∀ row ∈ list, row.Counted)
    (hagain : ∀ q, array.allocItems.toNat ≤ q → q < largest rows → Sets list q) :
    ∃ array', setPages (list.map PageRow.page) array = some (.ok, array') ∧
      Good (saveModifiedPages list rows) array' := by
  induction list generalizing rows array with
  | nil =>
      obtain ⟨row, hrow, -⟩ := hagain _ le_rfl h.cut
      exact absurd hrow List.not_mem_nil
  | cons row list ih =>
      have hrow := hcounted row List.mem_cons_self
      have hrest : ∀ r ∈ list, r.Counted := fun r hr => hcounted r (List.mem_cons_of_mem _ hr)
      obtain ⟨p, hp⟩ : ∃ p, row.pgno.toNat = p + 1 := ⟨row.pgno.toNat - 1, by have := hrow.1; omega⟩
      obtain ⟨next, hset, hnext⟩ :=
        @setPages_cons row list array hrow h.part.itemSize h.part.alloc_le
      rw [hp, Nat.add_sub_cancel] at hset
      rw [hnext]
      have hcut := h.cut
      rcases lt_or_ge p array.allocItems.toNat with hbefore | hafter
      · -- an item that is right is replaced
        have hused := h.part.used
        have hallocated : array.allocated p = array.memory.length := by
          rw [allocated_eq, if_neg (by omega), if_neg (by omega)]
        have halloc := hset.alloc_eq
        rw [if_neg (by omega)] at halloc
        have hlength := hset.length
        have hmemory := h.length
        refine ih ⟨halloc ▸ h.part.set hp hset (by omega) fun q hq _ => by omega, by omega, ?_⟩
          hlist.tail hrest fun q hle hlt => ?_
        · rw [largest_replaceRow, hp]
          omega
        · rw [largest_replaceRow, hp] at hlt
          exact (hagain q (by omega) (by omega)).of_cons (by omega)
      · -- the first item that is lost comes first
        have hfirst : p = array.allocItems.toNat := by
          by_contra hne
          obtain ⟨r, hr, hpgno⟩ := (hagain _ le_rfl hcut).of_cons (by omega)
          have := hlist.lt r hr
          omega
        obtain ⟨hmore, hdone⟩ := h.part.set_grown hp hrow hlist.lt hset hafter
          fun q hq => Or.inl (hfirst ▸ hq)
        rcases lt_or_ge (p + 1) (largest rows) with hless | hge
        · obtain ⟨hcut', halloc'⟩ := hmore hless
          refine ih hcut' hlist.tail hrest fun q hle hlt => ?_
          rw [largest_replaceRow, hp] at hlt
          exact (hagain q (by omega) (by omega)).of_cons (by omega)
        · obtain ⟨hgood, hroomy⟩ := hdone hge
          exact setPages_good hgood hlist.tail hrest hroomy

/-- Pages are set in an array that has more memory than it says: once the array is cut, what
is lost is set again. -/
theorem setPages_wrapped {rows list : List PageRow} {array : ItemArray Bytes}
    (h : Wrapped rows array) (hlist : PageTable list) (hcounted : ∀ row ∈ list, row.Counted)
    (hagain : ∀ row ∈ list, array.allocItems.toNat < row.pgno.toNat →
      ∀ q, row.pgno.toNat ≤ q + 1 → q < largest rows → Sets list q) :
    ∃ array', setPages (list.map PageRow.page) array = some (.ok, array') ∧
      (Good (saveModifiedPages list rows) array' ∨
        Wrapped (saveModifiedPages list rows) array') := by
  induction list generalizing rows array with
  | nil => exact ⟨array, rfl, Or.inr h⟩
  | cons row list ih =>
      have hrow := hcounted row List.mem_cons_self
      have hrest : ∀ r ∈ list, r.Counted := fun r hr => hcounted r (List.mem_cons_of_mem _ hr)
      obtain ⟨p, hp⟩ : ∃ p, row.pgno.toNat = p + 1 := ⟨row.pgno.toNat - 1, by have := hrow.1; omega⟩
      obtain ⟨next, hset, hnext⟩ :=
        @setPages_cons row list array hrow h.part.itemSize h.part.alloc_le
      rw [hp, Nat.add_sub_cancel] at hset
      rw [hnext]
      have hwrapped := h.wrapped
      rcases lt_or_ge p array.allocItems.toNat with hbefore | hafter
      · have hused := h.part.used
        have hallocated : array.allocated p = array.memory.length := by
          rw [allocated_eq, if_neg (by omega), if_neg (by omega)]
        have halloc := hset.alloc_eq
        rw [if_neg (by omega)] at halloc
        have hlength := hset.length
        have hfits := h.fits
        have hlargest : largest (replaceRow row rows) = largest rows := by
          rw [largest_replaceRow, hp]
          omega
        have hpart := h.part.set hp hset (show largest rows ≤ max (p + 1) (largest rows) by omega)
          fun q hq _ => by omega
        refine @ih (replaceRow row rows) next ⟨hlargest ▸ hpart, by omega, by omega⟩ hlist.tail
          hrest fun other hother hpgno q hle hlt => ?_
        have := hlist.lt other hother
        exact (hagain other (List.mem_cons_of_mem _ hother) (by omega) q hle
          (by omega)).of_cons (by omega)
      · obtain ⟨hmore, hdone⟩ := h.part.set_grown hp hrow hlist.lt hset hafter
          fun q _ => by omega
        rcases lt_or_ge (p + 1) (largest rows) with hless | hge
        · obtain ⟨hcut, halloc⟩ := hmore hless
          obtain ⟨array', hresult, hgood⟩ := setPages_cut hcut hlist.tail hrest
            fun q hle hlt => by
              rw [largest_replaceRow, hp] at hlt
              exact (hagain row List.mem_cons_self (by omega) q (by omega) (by omega)).of_cons
                (by omega)
          exact ⟨array', hresult, Or.inl hgood⟩
        · obtain ⟨hgood, hroomy⟩ := hdone hge
          obtain ⟨array', hresult, hgood'⟩ := setPages_good hgood hlist.tail hrest hroomy
          exact ⟨array', hresult, Or.inl hgood'⟩

/-- A full array that doubles past 65535 items wraps. -/
theorem Good.set_wrapped {rows : List PageRow} {row : PageRow} {array array' : ItemArray Bytes}
    {p : ℕ} (h : Good rows array) (hp : row.pgno.toNat = p + 1)
    (hset : SetAt zeroHash array p row.hash array') (hless : p < largest rows)
    (hfull : largest rows = array.allocItems.toNat) (hdouble : 65536 ≤ 2 * largest rows) :
    Wrapped (replaceRow row rows) array' ∧
      array'.allocItems.toNat + 65536 = 2 * largest rows := by
  have hused := h.part.used
  have hbound := array.allocItems.toNat_lt
  have hallocated : array.allocated p = 2 * array.allocItems.toNat := by
    rw [allocated_eq, if_neg (by omega), if_pos (by omega)]
  have halloc := hset.alloc_eq
  rw [if_pos (Or.inl (by omega)), hallocated] at halloc
  have hlength := hset.length
  have hlargest : largest (replaceRow row rows) = largest rows := by
    rw [largest_replaceRow, hp]
    omega
  have hpart := h.part.set hp hset (show largest rows ≤ max (p + 1) (largest rows) by omega)
    fun q hq _ => by omega
  exact ⟨⟨hlargest ▸ hpart, by omega, by omega⟩, by omega⟩

/-! ## What is lost -/

/-- An item that cannot be read stays so until it is set. -/
theorem setPages_lost {list : List PageRow} {array : ItemArray Bytes} {q : ℕ}
    (hsize : array.itemSize = 32) (halloc : array.allocItems.toNat ≤ array.memory.length)
    (hcounted : ∀ row ∈ list, row.Counted) (hq : q < array.usedItems.toNat)
    (hlost : array.item q = none) (hnot : ¬ Sets list q) :
    listed (setPages (list.map PageRow.page) array) = none := by
  induction list generalizing array with
  | nil => exact contents_eq_none hq hlost
  | cons row list ih =>
      have hrow := hcounted row List.mem_cons_self
      obtain ⟨next, hset, hnext⟩ := @setPages_cons row list array hrow hsize halloc
      rw [hnext]
      have hpositive := hrow.1
      have hne : row.pgno.toNat ≠ q + 1 := fun h => hnot ⟨row, List.mem_cons_self, h⟩
      refine ih (hset.itemSize.trans hsize) (hset.alloc_le halloc)
        (fun r hr => hcounted r (List.mem_cons_of_mem _ hr)) ?_ ?_
        fun ⟨r, hr, hpgno⟩ => hnot ⟨r, List.mem_cons_of_mem _ hr, hpgno⟩
      · rw [hset.usedItems]
        omega
      · rw [hset.item, if_neg (by omega), if_neg (by omega), hlost]
        exact ite_self none

/-- Once the array ends with a page that is set, the items after it are lost. -/
theorem setPages_cutOff {list : List PageRow} {array : ItemArray Bytes} {g q : ℕ}
    (hsize : array.itemSize = 32) (halloc : array.allocItems.toNat ≤ array.memory.length)
    (hlist : PageTable list) (hcounted : ∀ row ∈ list, row.Counted)
    (hend : array.allocItems.toNat ≤ g) (hg : Sets list g) (hgq : g < q)
    (hq : q < array.usedItems.toNat) (hnot : ¬ Sets list q) :
    listed (setPages (list.map PageRow.page) array) = none := by
  induction list generalizing array with
  | nil =>
      obtain ⟨row, hrow, -⟩ := hg
      exact absurd hrow List.not_mem_nil
  | cons row list ih =>
      have hrow := hcounted row List.mem_cons_self
      have hrest : ∀ r ∈ list, r.Counted := fun r hr => hcounted r (List.mem_cons_of_mem _ hr)
      obtain ⟨p, hp⟩ : ∃ p, row.pgno.toNat = p + 1 := ⟨row.pgno.toNat - 1, by have := hrow.1; omega⟩
      obtain ⟨next, hset, hnext⟩ := @setPages_cons row list array hrow hsize halloc
      rw [hp, Nat.add_sub_cancel] at hset
      rw [hnext]
      have hused := hset.usedItems
      have hnot' : ¬ Sets list q := fun ⟨r, hr, hpgno⟩ =>
        hnot ⟨r, List.mem_cons_of_mem _ hr, hpgno⟩
      rcases lt_trichotomy p g with hbefore | rfl | hafter
      · have hend' : next.allocItems.toNat ≤ g := by
          have hstored := hset.alloc_eq
          rw [allocated_eq] at hstored
          split_ifs at hstored <;> omega
        exact ih (hset.itemSize.trans hsize) (hset.alloc_le halloc) hlist.tail hrest hend'
          (hg.of_cons (by omega)) (by omega) hnot'
      · refine setPages_lost (hset.itemSize.trans hsize) (hset.alloc_le halloc) hrest
          (show q < _ by omega) ?_ hnot'
        rw [hset.item, if_neg (by omega), if_neg (by omega), allocated_eq, if_pos hend,
          if_neg (by omega)]
      · obtain ⟨r, hr, hpgno⟩ := hg.of_cons (by omega)
        have := hlist.lt r hr
        omega

/-! ## The committed list -/

/-- The array holds the page hashes of the table. -/
def Holds (rows : List PageRow) (array : ItemArray Bytes) : Prop :=
  Good rows array ∨ Wrapped rows array

theorem Holds.part {rows : List PageRow} {array : ItemArray Bytes} (h : Holds rows array) :
    Part rows array (largest rows) :=
  h.elim Good.part Wrapped.part

/-- The hashes are read from the array. -/
theorem Holds.contents {rows : List PageRow} {array : ItemArray Bytes} (h : Holds rows array) :
    calcStateHash array = some (pageHashes rows) := by
  refine contents_eq_some.2 ⟨?_, fun q hq => ?_⟩
  · rw [h.part.used, pageHashes, List.length_map, List.length_range]
  · rw [h.part.used] at hq
    rw [h.part.item q hq, pageHashes, List.getElem?_map, List.getElem?_range hq]
    rfl

theorem arrayCopy_item (array : ItemArray Bytes) (q : ℕ) : (arrayCopy array).item q =
    if q < array.allocItems.toNat then array.item q else none :=
  join_resize _ _ q

/-- A copy has the memory the array says it has. -/
theorem Good.arrayCopy {rows : List PageRow} {array : ItemArray Bytes} (h : Good rows array) :
    Good rows (Common.arrayCopy array) where
  part := by
    refine ⟨h.part.itemSize, (length_resize _ _).ge, h.part.used, le_rfl, fun q hq => ?_⟩
    have hfits := h.fits
    rw [arrayCopy_item, if_pos (by omega)]
    exact h.part.item q hq
  length := length_resize _ _
  fits := h.fits

theorem Wrapped.arrayCopy {rows : List PageRow} {array : ItemArray Bytes}
    (h : Wrapped rows array) : Cut rows (Common.arrayCopy array) where
  part := by
    refine ⟨h.part.itemSize, (length_resize _ _).ge, h.part.used, h.wrapped.le, fun q hq => ?_⟩
    rw [arrayCopy_item, if_pos (show q < array.allocItems.toNat from hq)]
    exact h.part.item q (lt_trans hq h.wrapped)
  length := length_resize _ _
  cut := h.wrapped

/-- Rows that come after those of a table are added to it in order. -/
theorem saveModifiedPages_append {list rows : List PageRow} (h : PageTable (rows ++ list)) :
    saveModifiedPages list rows = rows ++ list := by
  have hreplace : ∀ {row : PageRow} {rows : List PageRow},
      (∀ r ∈ rows, r.pgno.toNat < row.pgno.toNat) → replaceRow row rows = rows ++ [row] := by
    intro row rows hlt
    induction rows with
    | nil => rfl
    | cons other rows ih =>
        have hother := hlt other List.mem_cons_self
        have hnot : ¬ row.pgno < other.pgno := fun h => by
          have := UInt32.lt_iff_toNat_lt.1 h
          omega
        have hne : row.pgno ≠ other.pgno := fun h => by
          rw [h] at hother
          omega
        rw [replaceRow, if_neg hnot, if_neg hne, ih fun r hr => hlt r (List.mem_cons_of_mem _ hr)]
        rfl
  induction list generalizing rows with
  | nil => exact (List.append_nil rows).symm
  | cons row list ih =>
      have hbefore : ∀ r ∈ rows, r.pgno.toNat < row.pgno.toNat := fun r hr =>
        (List.pairwise_append.1 h.sorted).2.2 r hr row List.mem_cons_self
      have happend : rows ++ row :: list = (rows ++ [row]) ++ list := by simp
      rw [happend] at h ⊢
      rw [← ih h, ← hreplace hbefore]
      rfl

theorem good_newArray : Good [] (newArray zeroHash 16 32) where
  part := ⟨rfl, by decide, rfl, le_rfl, fun q hq => absurd hq (Nat.not_lt_zero q)⟩
  length := rfl
  fits := Nat.zero_le _

theorem PageTable.counted {rows : List PageRow} (h : PageTable rows)
    (hsmall : largest rows ≤ 65535) : ∀ row ∈ rows, row.Counted := fun row hrow =>
  ⟨h.positive row hrow, (le_largest hrow).trans hsmall⟩

/-- The list that is loaded from the table. -/
theorem loadPagesHashList_good {rows : List PageRow} (h : PageTable rows)
    (hsmall : largest rows ≤ 65535) :
    ∃ array, loadPagesHashList rows = some (.ok, array) ∧ Good rows array := by
  obtain ⟨array, hload, hgood⟩ := setPages_good good_newArray h (h.counted hsmall)
    (Or.inl (by decide))
  have hrows : saveModifiedPages rows [] = rows := @saveModifiedPages_append rows [] h
  rw [hrows] at hgood
  exact ⟨array, (loadPagesHashCb_eq h.sized _).trans hload, hgood⟩

/-- **When the three lists agree.**  The pages can be counted; if the array says it has less
memory than it uses, the block modifies every page from there on; and if it is full with more
than half of what it can count, then from the first modified page on that does not fit after
it has doubled, the first of the block apart, the block modifies every page. -/
structure Fits (rows : List PageRow) (pagesHashes : ItemArray Bytes) (list : List PageRow) :
    Prop where
  small : largest (saveModifiedPages list rows) ≤ 65535
  allocated : ∀ q, pagesHashes.allocItems.toNat ≤ q → q < pagesHashes.usedItems.toNat →
    Sets list q
  full : pagesHashes.usedItems = pagesHashes.allocItems →
    65536 ≤ 2 * pagesHashes.usedItems.toNat → ∀ row rest, list = row :: rest →
    row.pgno.toNat ≤ pagesHashes.usedItems.toNat → ∀ other ∈ rest,
    2 * pagesHashes.usedItems.toNat < other.pgno.toNat + 65536 →
    ∀ q, other.pgno.toNat ≤ q + 1 → q < pagesHashes.usedItems.toNat → Sets list q

/-- The three lists of page hashes that a block with these modified pages leads to, and the
table, agree. -/
structure HashesAgree (rows : List PageRow) (pagesHashes : ItemArray Bytes)
    (list : List PageRow) : Prop where
  created : calcNewStateHash (list.map PageRow.page) pagesHashes =
    some (pageHashes (saveModifiedPages list rows))
  updated : listed (updatePagesHashList (list.map PageRow.page) pagesHashes) =
    some (pageHashes (saveModifiedPages list rows))
  loaded : listed (loadPagesHashList (saveModifiedPages list rows)) =
    some (pageHashes (saveModifiedPages list rows))

theorem listed_ok {rows : List PageRow} {array : ItemArray Bytes} (h : Holds rows array) :
    listed (some (.ok, array)) = some (pageHashes rows) :=
  h.contents

/-- What fits is set. -/
theorem Holds.setPages {rows list : List PageRow} {array : ItemArray Bytes}
    (h : Holds rows array) (hlist : PageTable list) (hfits : Fits rows array list) :
    ∃ array', setPages (list.map PageRow.page) array = some (.ok, array') ∧
      Holds (saveModifiedPages list rows) array' := by
  have hlargest := largest_saveModifiedPages list rows
  have hsmall := hfits.small
  have hcounted := hlist.counted (by omega)
  have hused := h.part.used
  rcases h with hgood | hwrapped
  · by_cases hroomy : Roomy rows list array
    · obtain ⟨array', hset, hgood'⟩ := setPages_good hgood hlist hcounted hroomy
      exact ⟨array', hset, Or.inl hgood'⟩
    · -- the array is full, and doubles past 65535
      unfold Roomy at hroomy
      rw [not_or, not_or] at hroomy
      obtain ⟨hnotless, hnotafter, hnotdouble⟩ := hroomy
      have hgoodfits := hgood.fits
      obtain _ | ⟨row, rest⟩ := list
      · exact absurd (fun row hrow => absurd hrow List.not_mem_nil) hnotafter
      have hrow := hcounted row List.mem_cons_self
      obtain ⟨p, hp⟩ : ∃ p, row.pgno.toNat = p + 1 := ⟨row.pgno.toNat - 1, by have := hrow.1; omega⟩
      have hless : p < largest rows := by
        by_contra hge
        refine hnotafter fun r hr => ?_
        rcases List.mem_cons.1 hr with rfl | hr
        · omega
        · have := hlist.lt r hr
          omega
      obtain ⟨next, hset, hnext⟩ :=
        @setPages_cons row rest array hrow hgood.part.itemSize hgood.part.alloc_le
      rw [hp, Nat.add_sub_cancel] at hset
      obtain ⟨hwrapped, halloc⟩ := hgood.set_wrapped hp hset hless (by omega) (by omega)
      have hrows : largest (replaceRow row rows) = largest rows := by
        rw [largest_replaceRow, hp]
        omega
      rw [hnext]
      refine @setPages_wrapped (replaceRow row rows) rest next hwrapped hlist.tail
        (fun r hr => hcounted r (List.mem_cons_of_mem _ hr)) fun other hother hpgno q hle hlt => ?_
      have hafter := hlist.lt other hother
      refine (hfits.full (UInt16.toNat_inj.1 (by omega)) (by omega) row rest rfl (by omega) other
        hother (by omega) q hle (by omega)).of_cons (by omega)
  · refine setPages_wrapped hwrapped hlist hcounted fun row _ hpgno q hle hlt => ?_
    exact hfits.allocated q (by omega) (by omega)

/-- What fits is set in a copy. -/
theorem Holds.setPages_arrayCopy {rows list : List PageRow} {array : ItemArray Bytes}
    (h : Holds rows array) (hlist : PageTable list) (hfits : Fits rows array list) :
    ∃ array', Core.setPages (list.map PageRow.page) (arrayCopy array) = some (.ok, array') ∧
      Holds (saveModifiedPages list rows) array' := by
  have hused := h.part.used
  rcases h with hgood | hwrapped
  · exact Holds.setPages (Or.inl hgood.arrayCopy) hlist ⟨hfits.small, hfits.allocated, hfits.full⟩
  · have hlargest := largest_saveModifiedPages list rows
    have hsmall := hfits.small
    obtain ⟨array', hset, hgood⟩ := setPages_cut hwrapped.arrayCopy hlist
      (hlist.counted (by omega)) fun q hle hlt => hfits.allocated q hle (by omega)
    exact ⟨array', hset, Or.inl hgood⟩

theorem hashesAgree_of_fits {rows list : List PageRow} {array : ItemArray Bytes}
    (h : Holds rows array) (hrows : PageTable rows) (hlist : PageTable list)
    (hfits : Fits rows array list) : HashesAgree rows array list where
  created := by
    obtain ⟨array', hset, hholds⟩ := h.setPages_arrayCopy hlist hfits
    unfold calcNewStateHash
    rw [hset]
    exact listed_ok hholds
  updated := by
    obtain ⟨array', hset, hholds⟩ := h.setPages hlist hfits
    unfold updatePagesHashList
    rw [hset]
    exact listed_ok hholds
  loaded := by
    obtain ⟨array', hload, hgood⟩ :=
      loadPagesHashList_good (hlist.saveModifiedPages hrows) hfits.small
    rw [hload]
    exact listed_ok (Or.inl hgood)

/-- A list has no more hashes than its array can count. -/
theorem length_of_listed {result : Option (Rc × ItemArray Bytes)} {hashes : List Bytes}
    (h : listed result = some hashes) : hashes.length ≤ 65535 := by
  obtain ⟨⟨rc, array⟩, -, hhashes⟩ := Option.bind_eq_some_iff.1 h
  dsimp only at hhashes
  split_ifs at hhashes
  have hlength := (contents_eq_some.1 hhashes).1
  have := array.usedItems.toNat_lt
  omega

/-- What is set in a copy and in the list itself fits. -/
theorem fits_of_listed {rows list : List PageRow} {array : ItemArray Bytes}
    (h : largest rows ≤ 65535 → Holds rows array) (hlist : PageTable list)
    (hcreated : calcNewStateHash (list.map PageRow.page) array ≠ none)
    (hupdated : listed (updatePagesHashList (list.map PageRow.page) array) =
      some (pageHashes (saveModifiedPages list rows))) : Fits rows array list := by
  have hlargest := largest_saveModifiedPages list rows
  have hsmall : largest (saveModifiedPages list rows) ≤ 65535 := by
    have := length_of_listed hupdated
    rwa [pageHashes, List.length_map, List.length_range] at this
  have hcounted := hlist.counted (by omega)
  have hholds := h (by omega)
  have hused := hholds.part.used
  refine ⟨hsmall, fun q hle hlt => ?_, ?_⟩
  · by_contra hnot
    have hlost : listed (setPages (list.map PageRow.page) (arrayCopy array)) = none :=
      setPages_lost hholds.part.itemSize (length_resize _ _).ge hcounted hlt
        ((arrayCopy_item array q).trans (if_neg (by omega))) hnot
    exact absurd hlost hcreated
  · rintro hfull hdouble row rest rfl hrow other hother hend q hle hlt
    have halloc : array.usedItems.toNat = array.allocItems.toNat := congrArg UInt16.toNat hfull
    obtain hgood | hwrapped := hholds
    · by_contra hnot
      have hcount := hcounted row List.mem_cons_self
      obtain ⟨p, hp⟩ : ∃ p, row.pgno.toNat = p + 1 :=
        ⟨row.pgno.toNat - 1, by have := hcount.1; omega⟩
      obtain ⟨next, hset, hnext⟩ :=
        @setPages_cons row rest array hcount hgood.part.itemSize hgood.part.alloc_le
      rw [hp, Nat.add_sub_cancel] at hset
      obtain ⟨hwrapped, hstored⟩ := hgood.set_wrapped hp hset (by omega) (by omega) (by omega)
      have hafter := hlist.lt other hother
      have hne : other.pgno.toNat ≠ q + 1 := fun heq =>
        hnot ⟨other, List.mem_cons_of_mem _ hother, heq⟩
      have hlost := @setPages_cutOff rest next (other.pgno.toNat - 1) q hwrapped.part.itemSize
        hwrapped.part.alloc_le hlist.tail (fun r hr => hcounted r (List.mem_cons_of_mem _ hr))
        (by omega) ⟨other, hother, by omega⟩ (by omega) (by rw [hset.usedItems]; omega)
        fun ⟨r, hr, hpgno⟩ => hnot ⟨r, List.mem_cons_of_mem _ hr, hpgno⟩
      rw [← hnext] at hlost
      exact absurd (hlost.symm.trans hupdated) nofun
    · have := hwrapped.wrapped
      omega

theorem fits_of_hashesAgree {rows list : List PageRow} {array : ItemArray Bytes}
    (h : largest rows ≤ 65535 → Holds rows array) (hlist : PageTable list)
    (hagree : HashesAgree rows array list) : Fits rows array list :=
  fits_of_listed h hlist (by rw [hagree.created]; nofun) hagree.updated

/-! ## Every run -/

/-- The table and the list in memory. -/
structure PageStore where
  rows : List PageRow
  pagesHashes : ItemArray Bytes

/-- A block is committed with a list of modified pages, or the list in memory is loaded again. -/
inductive PageStore.Action
  | commit (list : List PageRow)
  | load

/-- The table, with a list that was made without an error. -/
def PageStore.stored (rows : List PageRow) (result : Option (Rc × ItemArray Bytes)) :
    Option PageStore :=
  result.bind fun (rc, pagesHashes) => if rc = .ok then some ⟨rows, pagesHashes⟩ else none

/-- What happens to the table and to the list. -/
def PageStore.step (s : PageStore) : Action → Option PageStore
  | .commit list =>
      stored (saveModifiedPages list s.rows)
        (updatePagesHashList (list.map PageRow.page) s.pagesHashes)
  | .load => stored s.rows (loadPagesHashList s.rows)

/-- The modified pages of a block are in order, and the three lists agree after it. -/
def PageStore.Agrees (s : PageStore) : Action → Prop
  | .commit list => PageTable list ∧ Fits s.rows s.pagesHashes list
  | .load => True

/-- A node that has loaded its list and commits blocks. -/
def PageStore.system : System PageStore Action :=
  (System.ofStep (fun s => PageTable s.rows ∧
    loadPagesHashList s.rows = some (.ok, s.pagesHashes)) step).restrict Agrees

/-- The list in memory holds the hashes of the table. -/
theorem PageStore.invariant_holds : system.Invariant fun s =>
    PageTable s.rows ∧ (largest s.rows ≤ 65535 → Holds s.rows s.pagesHashes) where
  init s h := by
    refine ⟨h.1, fun hsmall => ?_⟩
    obtain ⟨array, hload, hgood⟩ := loadPagesHashList_good h.1 hsmall
    obtain rfl : array = s.pagesHashes :=
      congrArg Prod.snd (Option.some.inj (hload.symm.trans h.2))
    exact Or.inl hgood
  step s a t h hs := by
    obtain ⟨hagrees, hs⟩ := hs
    cases a with
    | commit list =>
        obtain ⟨hlist, hfits⟩ := hagrees
        have hlargest := largest_saveModifiedPages list s.rows
        have hsmall := hfits.small
        obtain ⟨array, hset, hholds⟩ := (h.2 (by omega)).setPages hlist hfits
        have hs : PageStore.stored _ (setPages _ _) = some t := hs
        rw [hset] at hs
        obtain rfl := Option.some.inj hs
        exact ⟨hlist.saveModifiedPages h.1, fun _ => hholds⟩
    | load =>
        have hs : PageStore.stored _ (loadPagesHashList s.rows) = some t := hs
        have hrows : t.rows = s.rows := by
          obtain ⟨⟨rc, array⟩, -, hstored⟩ := Option.bind_eq_some_iff.1 hs
          dsimp only at hstored
          split_ifs at hstored
          obtain rfl := Option.some.inj hstored
          rfl
        rw [hrows]
        refine ⟨h.1, fun hsmall => ?_⟩
        obtain ⟨array, hload, hgood⟩ := loadPagesHashList_good h.1 hsmall
        rw [hload] at hs
        obtain rfl := Option.some.inj hs
        exact Or.inl hgood

/-- **When the page hashes agree.**  In every run in which they have agreed so far, and for
every list of modified pages, the list a producer hashes, the list in memory after the commit
and the list a node loads from the table are the same and have one hash for every page up to
the largest, exactly where `Fits` says so. -/
theorem hashesAgree_iff {s : PageStore} (h : PageStore.system.Reachable s) {list : List PageRow}
    (hlist : PageTable list) :
    HashesAgree s.rows s.pagesHashes list ↔ Fits s.rows s.pagesHashes list := by
  obtain ⟨hrows, hholds⟩ := PageStore.invariant_holds.reachable h
  constructor
  · exact fits_of_hashesAgree hholds hlist
  · intro hfits
    have hlargest := largest_saveModifiedPages list s.rows
    have hsmall := hfits.small
    exact hashesAgree_of_fits (hholds (by omega)) hrows hlist hfits

/-- The pages from 1 on, with hashes that were not set. -/
def firstPages (count : ℕ) : List PageRow :=
  (List.range count).map fun i => ⟨UInt32.ofNat (i + 1), 1, zeroHash⟩

theorem pgno_toNat {n : ℕ} (h : n < 2 ^ 32) : (UInt32.ofNat n).toNat = n := by
  rw [UInt32.toNat_ofNat', Nat.mod_eq_of_lt h]

theorem mem_firstPages {count : ℕ} (hcount : count < 2 ^ 32) {row : PageRow}
    (h : row ∈ firstPages count) :
    ∃ i < count, row.pgno.toNat = i + 1 ∧ row.hash = zeroHash := by
  obtain ⟨i, hi, rfl⟩ := List.mem_map.1 h
  rw [List.mem_range] at hi
  exact ⟨i, hi, pgno_toNat (by omega), rfl⟩

theorem firstPages_table {count : ℕ} (hcount : count < 2 ^ 32) : PageTable (firstPages count) where
  sorted := by
    refine List.pairwise_map.2 (List.pairwise_lt_range.imp_of_mem fun {i j} hi hj hlt => ?_)
    rw [List.mem_range] at hi hj
    dsimp only
    rw [pgno_toNat (by omega), pgno_toNat (by omega)]
    omega
  positive row h := by
    obtain ⟨i, -, hpgno, -⟩ := mem_firstPages hcount h
    omega
  sized row h := by
    obtain ⟨i, -, -, hhash⟩ := mem_firstPages hcount h
    rw [hhash]
    rfl

theorem largest_firstPages {count : ℕ} (hcount : count < 2 ^ 32) :
    largest (firstPages count) ≤ count := by
  have hle : ∀ rows : List PageRow, (∀ row ∈ rows, row.pgno.toNat ≤ count) →
      largest rows ≤ count := by
    intro rows h
    induction rows with
    | nil => exact Nat.zero_le _
    | cons row rows ih =>
        exact max_le (h row List.mem_cons_self)
          (ih fun r hr => h r (List.mem_cons_of_mem _ hr))
  refine hle _ fun row hrow => ?_
  obtain ⟨i, hi, hpgno, -⟩ := mem_firstPages hcount hrow
  omega

/-- A node that has loaded the list of the first pages. -/
theorem exists_reachable_firstPages {count : ℕ} (hcount : count ≤ 65535) :
    ∃ s, PageStore.system.Reachable s ∧ s.rows = firstPages count ∧
      Good (firstPages count) s.pagesHashes := by
  have htable := @firstPages_table count (by omega)
  have hlargest := @largest_firstPages count (by omega)
  obtain ⟨array, hload, hgood⟩ := loadPagesHashList_good htable (by omega)
  exact ⟨⟨firstPages count, array⟩, .init ⟨htable, hload⟩, rfl, hgood⟩

/-- A block that modifies page 2 and page 4 of a database of three pages: the hypotheses hold,
and the lists agree. -/
theorem hashesAgree_iff_threePages : ∃ s, PageStore.system.Reachable s ∧
    s.rows = firstPages 3 ∧
      HashesAgree s.rows s.pagesHashes [⟨2, 2, zeroHash⟩, ⟨4, 2, zeroHash⟩] := by
  obtain ⟨s, hs, hrows, hgood⟩ := @exists_reachable_firstPages 3 (by decide)
  have hlist : PageTable [⟨2, 2, zeroHash⟩, ⟨4, 2, zeroHash⟩] :=
    ⟨by decide, by decide, by decide⟩
  have hused : s.pagesHashes.usedItems.toNat = 3 := hgood.part.used
  have hfits := hgood.fits
  refine ⟨s, hs, hrows, (hashesAgree_iff hs hlist).2 ⟨?_, fun q hle hlt => ?_, ?_⟩⟩
  · rw [hrows]
    decide
  · have hthree : largest (firstPages 3) = 3 := rfl
    omega
  · intro _ hdouble
    omega

/-- **The hashes of 65536 pages do not agree.**  A block adds page 65536 to a database of 65535
pages. -/
theorem not_hashesAgree_manyPages : ∃ s, PageStore.system.Reachable s ∧
    s.rows = firstPages 65535 ∧ ∃ list, PageTable list ∧ list = [⟨65536, 2, zeroHash⟩] ∧
      ¬ HashesAgree s.rows s.pagesHashes list := by
  obtain ⟨s, hs, hrows, -⟩ := @exists_reachable_firstPages 65535 le_rfl
  refine ⟨s, hs, hrows, _, ⟨by decide, by decide, by decide⟩, rfl, fun hagree => ?_⟩
  have hlength := length_of_listed hagree.updated
  rw [pageHashes, List.length_map, List.length_range, largest_saveModifiedPages] at hlength
  have hpage : largest [⟨65536, 2, zeroHash⟩] = 65536 := rfl
  omega

end Core
end AergoLite
