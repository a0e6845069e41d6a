/-
# The hashes of the pages

The state hash of a block is the hash of the list `pages_hashes`, which has the hash of every
page of the worker database in turn.  `core/sqlite3.c` makes that list in three ways: the
producer of a block sets the hashes of the modified pages in a copy (`calc_new_state_hash`), a
commit sets them in the list itself (`update_pages_hash_list`), and a node that starts or
rolls a block back reads them from the table `page_state` (`load_pages_hash_list`).

The list is an array of `common/array.c`, whose counters have 16 bits.  The three agree
(`hashesAgree_iff`) exactly while the pages can be counted and no modified page is set after
the array has doubled past 65535 items, unless the ones it loses are set again.
-/

import AergoLite.Common.Array
import AergoLite.Core.Basic
import AergoLite.Library.Transition
import Mathlib.Data.Nat.Cast.Basic

namespace AergoLite
namespace Core

open AergoLite.Common
open Transition

/-- `struct mod_pages`. -/
structure ModPage where
  pgno : UInt32
  hash : Bytes
  deriving DecidableEq, Repr

/-- A row of the table `page_state`, or an item of the list of modified pages of a block. -/
structure PageRow where
  pgno : UInt32
  blockHeight : ℤ
  hash : Bytes
  deriving DecidableEq, Repr

/-- The page and its hash. -/
def PageRow.page (row : PageRow) : ModPage := ⟨row.pgno, row.hash⟩

/-- `INSERT OR REPLACE INTO page_state`: the rows are in the order of their primary key. -/
def replaceRow (row : PageRow) : List PageRow → List PageRow
  | [] => [row]
  | other :: rows =>
    if row.pgno < other.pgno then row :: other :: rows
    else if row.pgno = other.pgno then row :: rows
    else other :: replaceRow row rows

/-- The rows after `save_modified_pages`. -/
def saveModifiedPages (list rows : List PageRow) : List PageRow :=
  list.foldl (fun rows row => replaceRow row rows) rows

/-- A hash that was not set. -/
def zeroHash : Bytes := List.replicate 32 0

/-- `pgno - 1`, as the argument of `array_set`. -/
def pagePos (pgno : UInt32) : ℤ := (pgno - 1).toBitVec.toInt

/-- The hashes of pages are set in the list, as `update_pages_hash_list` and
`calc_new_state_hash` do. -/
def setPages : List ModPage → ItemArray Bytes → Option (Rc × ItemArray Bytes)
  | [], array => some (.ok, array)
  | page :: pages, array =>
    (arraySet zeroHash array (pagePos page.pgno) page.hash).bind fun (pos, array) =>
      match pos with
      | .error _ => some (.nomem, array)
      | .ok _ => setPages pages array

/-- `update_pages_hash_list`. -/
def updatePagesHashList (modPages : List ModPage) (pagesHashes : ItemArray Bytes) :
    Option (Rc × ItemArray Bytes) :=
  setPages modPages pagesHashes

/-- `load_pages_hash_cb`. -/
def loadPagesHashCb : List PageRow → ItemArray Bytes → Option (Rc × ItemArray Bytes)
  | [], array => some (.ok, array)
  | row :: rows, array =>
    if row.hash.length ≠ 32 then some (.invalid, array)
    else (arraySet zeroHash array (pagePos row.pgno) row.hash).bind fun (pos, array) =>
      match pos with
      | .error _ => some (.nomem, array)
      | .ok _ => loadPagesHashCb rows array

/-- `load_pages_hash_list`. -/
def loadPagesHashList (rows : List PageRow) : Option (Rc × ItemArray Bytes) :=
  loadPagesHashCb rows (newArray zeroHash 16 32)

/-- The page hashes that `calc_state_hash` hashes. -/
def calcStateHash (pagesHashes : ItemArray Bytes) : Option (List Bytes) := pagesHashes.contents

/-- The page hashes of a list that was made without an error. -/
def listed (result : Option (Rc × ItemArray Bytes)) : Option (List Bytes) :=
  result.bind fun (rc, pagesHashes) => if rc = .ok then calcStateHash pagesHashes else none

/-- The page hashes that `calc_new_state_hash` hashes. -/
def calcNewStateHash (modPages : List ModPage) (pagesHashes : ItemArray Bytes) :
    Option (List Bytes) :=
  listed (setPages modPages (arrayCopy pagesHashes))

/-! ## The table -/

/-- The hash of a page, from 0 on, by the table. -/
def pageHash (rows : List PageRow) (q : ℕ) : Bytes :=
  ((rows.find? fun row => row.pgno.toNat == q + 1).map PageRow.hash).getD zeroHash

/-- The largest page number of the table. -/
def largest (rows : List PageRow) : ℕ := (rows.map fun row => row.pgno.toNat).foldr max 0

/-- One hash for each page up to the largest. -/
def pageHashes (rows : List PageRow) : List Bytes :=
  (List.range (largest rows)).map (pageHash rows)

/-- Pages are numbered from 1, in order, and a hash has 32 bytes. -/
structure PageTable (rows : List PageRow) : Prop where
  sorted : rows.Pairwise fun row other => row.pgno.toNat < other.pgno.toNat
  positive : ∀ row ∈ rows, 0 < row.pgno.toNat
  sized : ∀ row ∈ rows, row.hash.length = 32

theorem PageTable.tail {row : PageRow} {rows : List PageRow} (h : PageTable (row :: rows)) :
    PageTable rows :=
  ⟨(List.pairwise_cons.1 h.sorted).2, fun r hr => h.positive r (List.mem_cons_of_mem _ hr),
    fun r hr => h.sized r (List.mem_cons_of_mem _ hr)⟩

theorem PageTable.lt {row : PageRow} {rows : List PageRow} (h : PageTable (row :: rows)) :
    ∀ other ∈ rows, row.pgno.toNat < other.pgno.toNat :=
  (List.pairwise_cons.1 h.sorted).1

theorem mem_replaceRow {row r : PageRow} {rows : List PageRow} (h : r ∈ replaceRow row rows) :
    r = row ∨ r ∈ rows := by
  induction rows with
  | nil => exact Or.inl (List.mem_singleton.1 h)
  | cons other rows ih =>
      unfold replaceRow at h
      split_ifs at h
      · exact List.mem_cons.1 h
      · exact (List.mem_cons.1 h).imp_right (List.mem_cons_of_mem _)
      · rcases List.mem_cons.1 h with rfl | h
        · exact Or.inr List.mem_cons_self
        · exact (ih h).imp_right (List.mem_cons_of_mem _)

/-- The table stays in order. -/
theorem PageTable.replaceRow {row : PageRow} {rows : List PageRow} (h : PageTable rows)
    (hpositive : 0 < row.pgno.toNat) (hsized : row.hash.length = 32) :
    PageTable (Core.replaceRow row rows) := by
  refine ⟨?_, fun r hr => ?_, fun r hr => ?_⟩
  · have hsorted := h.sorted
    clear h
    induction rows with
    | nil => exact List.pairwise_singleton _ _
    | cons other rows ih =>
        obtain ⟨hfirst, hrest⟩ := List.pairwise_cons.1 hsorted
        unfold Core.replaceRow
        split_ifs with hlt heq
        · refine List.pairwise_cons.2 ⟨fun r hr => ?_, hsorted⟩
          rcases List.mem_cons.1 hr with rfl | hr
          · exact UInt32.lt_iff_toNat_lt.1 hlt
          · exact (UInt32.lt_iff_toNat_lt.1 hlt).trans (hfirst r hr)
        · exact List.pairwise_cons.2 ⟨fun r hr => heq ▸ hfirst r hr, hrest⟩
        · refine List.pairwise_cons.2 ⟨fun r hr => ?_, ih hrest⟩
          rcases mem_replaceRow hr with rfl | hr
          · rw [UInt32.lt_iff_toNat_lt] at hlt
            rw [← UInt32.toNat_inj] at heq
            omega
          · exact hfirst r hr
  · rcases mem_replaceRow hr with rfl | hr
    · exact hpositive
    · exact h.positive r hr
  · rcases mem_replaceRow hr with rfl | hr
    · exact hsized
    · exact h.sized r hr

/-- What is in the table after a row is stored. -/
theorem PageTable.mem_replaceRow {row r : PageRow} {rows : List PageRow} (h : PageTable rows) :
    r ∈ Core.replaceRow row rows ↔ r = row ∨ r ∈ rows ∧ r.pgno ≠ row.pgno := by
  have hsorted := h.sorted
  clear h
  induction rows with
  | nil => simp [Core.replaceRow]
  | cons other rows ih =>
      obtain ⟨hfirst, hrest⟩ := List.pairwise_cons.1 hsorted
      have hafter : ∀ {n : UInt32}, n.toNat ≤ other.pgno.toNat → r ∈ rows → r.pgno ≠ n :=
        fun hle hr heq => by
          have := hfirst r hr
          rw [heq] at this
          omega
      unfold Core.replaceRow
      split_ifs with hlt heq
      · rw [UInt32.lt_iff_toNat_lt] at hlt
        have hne : r ∈ other :: rows → r.pgno ≠ row.pgno := by
          intro hr
          rcases List.mem_cons.1 hr with rfl | hr
          · exact fun heq => by rw [heq] at hlt; omega
          · exact hafter (by omega) hr
        rw [List.mem_cons]
        exact or_congr_right ⟨fun hr => ⟨hr, hne hr⟩, And.left⟩
      · rw [List.mem_cons, List.mem_cons]
        refine or_congr_right ⟨fun hr => ⟨Or.inr hr, hafter (by rw [heq]) hr⟩, ?_⟩
        rintro ⟨rfl | hr, hne⟩
        · exact absurd heq.symm hne
        · exact hr
      · have hmem : r ∈ Core.replaceRow row rows ↔ r = row ∨ r ∈ rows ∧ r.pgno ≠ row.pgno :=
          ih hrest
        rw [List.mem_cons, List.mem_cons, hmem]
        constructor
        · rintro (rfl | rfl | ⟨hr, hne⟩)
          · exact Or.inr ⟨Or.inl rfl, Ne.symm heq⟩
          · exact Or.inl rfl
          · exact Or.inr ⟨Or.inr hr, hne⟩
        · rintro (rfl | ⟨rfl | hr, hne⟩)
          · exact Or.inr (Or.inl rfl)
          · exact Or.inl rfl
          · exact Or.inr (Or.inr ⟨hr, hne⟩)

theorem PageTable.saveModifiedPages {list rows : List PageRow} (hlist : PageTable list)
    (h : PageTable rows) : PageTable (Core.saveModifiedPages list rows) := by
  induction list generalizing rows with
  | nil => exact h
  | cons row list ih =>
      exact ih hlist.tail (h.replaceRow (hlist.positive row List.mem_cons_self)
        (hlist.sized row List.mem_cons_self))

/-- What is in the table after the modified pages are saved. -/
theorem PageTable.mem_saveModifiedPages {list rows : List PageRow} {r : PageRow}
    (hlist : PageTable list) (h : PageTable rows) :
    r ∈ Core.saveModifiedPages list rows ↔
      r ∈ list ∨ r ∈ rows ∧ ∀ row ∈ list, r.pgno ≠ row.pgno := by
  induction list generalizing rows with
  | nil => simp [Core.saveModifiedPages]
  | cons row list ih =>
      have hreplaced := h.replaceRow (hlist.positive row List.mem_cons_self)
        (hlist.sized row List.mem_cons_self)
      refine (ih hlist.tail hreplaced).trans ?_
      rw [h.mem_replaceRow, List.mem_cons, List.forall_mem_cons]
      constructor
      · rintro (hr | ⟨rfl | ⟨hr, hne⟩, hnot⟩)
        · exact Or.inl (Or.inr hr)
        · exact Or.inl (Or.inl rfl)
        · exact Or.inr ⟨hr, hne, hnot⟩
      · rintro ((rfl | hr) | ⟨hr, hne, hnot⟩)
        · refine Or.inr ⟨Or.inl rfl, fun other hother heq => ?_⟩
          have := hlist.lt other hother
          rw [heq] at this
          omega
        · exact Or.inl hr
        · exact Or.inr ⟨Or.inr ⟨hr, hne⟩, hnot⟩

/-- The hashes after a row is stored. -/
theorem pageHash_replaceRow (row : PageRow) (rows : List PageRow) (q : ℕ) :
    pageHash (replaceRow row rows) q =
      if q + 1 = row.pgno.toNat then row.hash else pageHash rows q := by
  induction rows with
  | nil =>
      unfold pageHash replaceRow
      by_cases hq : q + 1 = row.pgno.toNat
      · simp [hq]
      · simp [hq, Ne.symm hq]
  | cons other rows ih =>
      unfold pageHash at ih ⊢
      unfold replaceRow
      by_cases hq : q + 1 = row.pgno.toNat
      · rw [if_pos hq] at ih ⊢
        split_ifs with hlt heq
        · simp [hq]
        · simp [hq]
        · have hne : other.pgno.toNat ≠ q + 1 := fun h =>
            heq (UInt32.toNat_inj.1 (hq.symm.trans h.symm))
          simpa [hne] using ih
      · rw [if_neg hq] at ih ⊢
        split_ifs with hlt heq
        · simp [Ne.symm hq]
        · have hne : other.pgno.toNat ≠ q + 1 := heq ▸ Ne.symm hq
          simp [Ne.symm hq, hne]
        · by_cases hother : other.pgno.toNat = q + 1
          · simp [hother]
          · simpa [hother] using ih

@[simp] theorem largest_nil : largest [] = 0 := rfl

@[simp] theorem largest_cons (row : PageRow) (rows : List PageRow) :
    largest (row :: rows) = max row.pgno.toNat (largest rows) := rfl

theorem largest_replaceRow (row : PageRow) (rows : List PageRow) :
    largest (replaceRow row rows) = max row.pgno.toNat (largest rows) := by
  induction rows with
  | nil => rfl
  | cons other rows ih =>
      unfold replaceRow
      split_ifs with hlt heq
      · rfl
      · simp [heq]
      · rw [largest_cons, ih, largest_cons]
        omega

theorem le_largest {row : PageRow} {rows : List PageRow} (h : row ∈ rows) :
    row.pgno.toNat ≤ largest rows := by
  induction rows with
  | nil => exact absurd h List.not_mem_nil
  | cons other rows ih =>
      rw [largest_cons]
      rcases List.mem_cons.1 h with rfl | h
      · exact le_max_left _ _
      · exact (ih h).trans (le_max_right _ _)

theorem largest_saveModifiedPages (list rows : List PageRow) :
    largest (saveModifiedPages list rows) = max (largest list) (largest rows) := by
  induction list generalizing rows with
  | nil => exact (Nat.zero_max _).symm
  | cons row list ih =>
      rw [largest_cons]
      refine (ih (replaceRow row rows)).trans ?_
      rw [largest_replaceRow]
      omega

/-- A page after the largest has no hash. -/
theorem pageHash_of_le {rows : List PageRow} {q : ℕ} (h : largest rows ≤ q) :
    pageHash rows q = zeroHash := by
  unfold pageHash
  rw [List.find?_eq_none.2, Option.map_none, Option.getD_none]
  intro row hrow hq
  have := le_largest hrow
  have := of_decide_eq_true hq
  omega

end Core
end AergoLite
