/-
# The growable array

`common/array.c`.  An array is one block of memory that starts with the size of an item, the
number of items that are allocated and the number that are used, each of 16 bits; the numbers
are computed with `int` and are cut when they are stored.  Memory that was allocated and not
written has no value, and a function that reads it, or what is not allocated, is undefined.

What `array_set` does to the items one by one is `arraySet_spec`.
-/

import Mathlib.Data.List.Basic
import Mathlib.Data.Nat.Notation
import Mathlib.Data.UInt
import Mathlib.Order.Lattice
import Mathlib.Tactic.SplitIfs

namespace AergoLite
namespace Common

/-- The errors `ARRAY_INVALID` and `ARRAY_EXISTS`. -/
inductive ArrayError
  | invalid | exist
  deriving DecidableEq, Repr

/-- An array with items of a type. -/
structure ItemArray (α : Type) where
  itemSize : UInt16
  allocItems : UInt16
  usedItems : UInt16
  memory : List (Option α)
  deriving DecidableEq

variable {α : Type}

/-- The memory with a number of items, as `sqlite3_realloc` leaves it. -/
def resize (count : ℕ) (memory : List (Option α)) : List (Option α) :=
  (memory ++ List.replicate (count - memory.length) none).take count

/-- `new_array`; the memory is filled with zeros. -/
def newArray (zero : α) (numItems itemSize : ℕ) : ItemArray α :=
  ⟨UInt16.ofNat itemSize, UInt16.ofNat numItems, 0, List.replicate numItems (some zero)⟩

/-- `array_copy`: as many items as the array says are allocated. -/
def arrayCopy (array : ItemArray α) : ItemArray α :=
  { array with memory := resize array.allocItems.toNat array.memory }

/-- `array_count`. -/
def arrayCount (array : ItemArray α) : ℕ := array.usedItems.toNat

/-- The item at a position, if it is allocated and has a value. -/
def ItemArray.item (array : ItemArray α) (i : ℕ) : Option α := (array.memory[i]?).join

/-- The items that are used, if all can be read. -/
def ItemArray.contents (array : ItemArray α) : Option (List α) :=
  (List.range (arrayCount array)).mapM array.item

/-- The memory is enlarged where it is full or where the position is after its end.  A size
that does not fit in an `int` is undefined. -/
def grow (pos : ℤ) (array : ItemArray α) : Option (ItemArray α) :=
  if array.usedItems = array.allocItems ∨ array.allocItems.toNat ≤ pos then
    let allocItems := if array.allocItems.toNat ≤ pos then pos.toNat + 1
      else 2 * array.allocItems.toNat
    if allocItems * array.itemSize.toNat + 8 < 2 ^ 31 then
      some { array with
        allocItems := UInt16.ofNat allocItems
        memory := resize allocItems array.memory }
    else none
  else some array

/-- The place of a new item among the items from position `i`, and whether it replaces the
one there. -/
def findPlace (compareFn : α → α → ℤ) (newItem : α) : List (Option α) → ℕ → Option (ℕ × Bool)
  | [], i => some (i, false)
  | none :: _, _ => none
  | some item :: items, i =>
    if compareFn item newItem = 0 then some (i, true)
    else if compareFn item newItem < 0 then some (i, false)
    else findPlace compareFn newItem items (i + 1)

/-- The new item is written at a place, in place of the item there or before it. -/
def putItem (zero newItem : α) (i : ℕ) (replace : Bool) (array : ItemArray α) :
    Option (ItemArray α) :=
  let used := array.usedItems.toNat
  if i < used ∧ !replace then
    if used < array.memory.length then
      some { array with
        usedItems := UInt16.ofNat (used + 1)
        memory := array.memory.take i ++ some newItem :: (array.memory.take used).drop i ++
          array.memory.drop (used + 1) }
    else none
  else if i < array.memory.length then
    -- the items between the last one and the new one are cleared
    let memory := if used < i then
        array.memory.take used ++ List.replicate (i - used) (some zero) ++ array.memory.drop i
      else array.memory
    some { array with
      usedItems := if i < used then array.usedItems else UInt16.ofNat (i + 1)
      memory := memory.set i (some newItem) }
  else none

/-- `array_insert_ex`: the position of the item, and the array. -/
def arrayInsertEx (zero : α) (array : ItemArray α) (newItem : α) (pos : ℤ)
    (compareFn : Option (α → α → ℤ)) (replace : Bool) :
    Option (Except ArrayError ℕ × ItemArray α) :=
  (grow pos array).bind fun array =>
    match compareFn with
    | some compareFn =>
      (findPlace compareFn newItem (resize (arrayCount array) array.memory) 0).bind
        fun (i, found) =>
          if found && !replace then some (.error .exist, array)
          else (putItem zero newItem i found array).map fun array => (.ok i, array)
    | none =>
      let i := if pos < 0 then arrayCount array else pos.toNat
      (putItem zero newItem i replace array).map fun array => (.ok i, array)

/-- `array_set`. -/
def arraySet (zero : α) (array : ItemArray α) (pos : ℤ) (item : α) :
    Option (Except ArrayError ℕ × ItemArray α) :=
  if pos < 0 then some (.error .invalid, array) else arrayInsertEx zero array item pos none true

/-! ## Item by item -/

@[simp] theorem length_resize (count : ℕ) (memory : List (Option α)) :
    (resize count memory).length = count := by
  unfold resize
  rw [List.length_take, List.length_append, List.length_replicate]
  omega

/-- What is allocated keeps its value, and what is added has none. -/
theorem join_resize (count : ℕ) (memory : List (Option α)) (q : ℕ) :
    ((resize count memory)[q]?).join = if q < count then (memory[q]?).join else none := by
  unfold resize
  split_ifs with hq
  · rw [List.getElem?_take_of_lt hq]
    rcases lt_or_ge q memory.length with hlt | hge
    · rw [List.getElem?_append_left hlt]
    · rw [List.getElem?_append_right hge, List.getElem?_eq_none hge]
      rcases lt_or_ge (q - memory.length) (count - memory.length) with hin | hout
      · rw [List.getElem?_replicate_of_lt hin]
        rfl
      · rw [List.getElem?_eq_none (by rw [List.length_replicate]; exact hout)]
  · rw [List.getElem?_take_eq_none (by omega)]
    rfl

theorem mapM_eq_some {β : Type} {f : β → Option α} {l : List β} {items : List α} :
    l.mapM f = some items ↔ l.map f = items.map some := by
  induction l generalizing items with
  | nil =>
      rw [List.mapM_nil, List.map_nil]
      cases items with
      | nil => exact ⟨fun _ => rfl, fun _ => rfl⟩
      | cons x items => exact ⟨nofun, nofun⟩
  | cons b l ih =>
      rw [List.mapM_cons, List.map_cons, Option.bind_eq_bind, Option.bind_eq_some_iff]
      simp only [Option.bind_eq_bind, Option.bind_eq_some_iff]
      constructor
      · rintro ⟨x, hx, xs, hxs, hitems⟩
        obtain rfl := Option.some.inj hitems
        rw [hx, ih.1 hxs, List.map_cons]
      · intro h
        cases items with
        | nil => exact absurd h (List.cons_ne_nil _ _)
        | cons x items =>
            obtain ⟨hx, hxs⟩ := List.cons.inj h
            exact ⟨x, hx, items, ih.2 hxs, rfl⟩

/-- The items that are read, one by one. -/
theorem contents_eq_some {array : ItemArray α} {items : List α} : array.contents = some items ↔
    items.length = array.usedItems.toNat ∧
      ∀ q < array.usedItems.toNat, array.item q = items[q]? := by
  unfold ItemArray.contents arrayCount
  rw [mapM_eq_some]
  constructor
  · intro h
    have hlength := congrArg List.length h
    rw [List.length_map, List.length_map, List.length_range] at hlength
    refine ⟨hlength.symm, fun q hq => ?_⟩
    have hget : ((List.range array.usedItems.toNat).map array.item)[q]?.join =
        (items.map some)[q]?.join := congrArg (fun l => (l[q]?).join) h
    rw [List.getElem?_map, List.getElem?_map, List.getElem?_range hq] at hget
    rw [Option.map_some, Option.join_some] at hget
    rw [hget]
    cases items[q]? <;> rfl
  · rintro ⟨hlength, hitem⟩
    refine List.ext_getElem? fun q => ?_
    rw [List.getElem?_map, List.getElem?_map]
    rcases lt_or_ge q array.usedItems.toNat with hlt | hge
    · rw [List.getElem?_range hlt, Option.map_some, hitem q hlt,
        List.getElem?_eq_getElem (hlength ▸ hlt), Option.map_some]
    · rw [List.getElem?_eq_none (by rw [List.length_range]; exact hge),
        List.getElem?_eq_none (hlength ▸ hge)]
      rfl

/-- Where an item cannot be read, the items cannot. -/
theorem contents_eq_none {array : ItemArray α} {q : ℕ} (hq : q < array.usedItems.toNat)
    (h : array.item q = none) : array.contents = none := by
  rw [Option.eq_none_iff_forall_ne_some]
  intro items hitems
  obtain ⟨hlength, hitem⟩ := contents_eq_some.1 hitems
  rw [hitem q hq, List.getElem?_eq_getElem (hlength ▸ hq)] at h
  cases h

/-! ## Setting an item -/

/-- The number of items that are allocated when the item at a position is set. -/
def ItemArray.allocated (array : ItemArray α) (p : ℕ) : ℕ :=
  if array.allocItems.toNat ≤ p then p + 1
  else if array.usedItems = array.allocItems then 2 * array.allocItems.toNat
  else array.memory.length

/-- What `array_set` does at a position. -/
structure SetAt (zero : α) (array : ItemArray α) (p : ℕ) (item : α) (array' : ItemArray α) :
    Prop where
  itemSize : array'.itemSize = array.itemSize
  length : array'.memory.length = array.allocated p
  allocItems : array'.allocItems = if array.usedItems = array.allocItems ∨
    array.allocItems.toNat ≤ p then UInt16.ofNat (array.allocated p) else array.allocItems
  usedItems : array'.usedItems.toNat = max array.usedItems.toNat (p + 1)
  item : ∀ q, array'.item q = if q = p then some item
    else if array.usedItems.toNat ≤ q ∧ q < p then some zero
    else if q < array.allocated p then array.item q else none

theorem lt_allocated {array : ItemArray α} {p : ℕ}
    (h : array.allocItems.toNat ≤ array.memory.length) : p < array.allocated p := by
  unfold ItemArray.allocated
  split_ifs with halloc hused
  · exact Nat.lt_succ_self p
  · omega
  · omega

/-- The memory is that of `allocated`. -/
theorem grow_spec {array : ItemArray α} {p : ℕ} (hp : p < 2 ^ 16)
    (hsize : array.itemSize.toNat ≤ 2 ^ 12) :
    ∃ array', grow p array = some array' ∧ array'.itemSize = array.itemSize ∧
      array'.usedItems = array.usedItems ∧ array'.memory.length = array.allocated p ∧
      (array'.allocItems = if array.usedItems = array.allocItems ∨ array.allocItems.toNat ≤ p then
        UInt16.ofNat (array.allocated p) else array.allocItems) ∧
      ∀ q, array'.item q = if q < array.allocated p then array.item q else none := by
  have halloc := array.allocItems.toNat_lt
  unfold grow ItemArray.allocated
  simp only [Int.ofNat_le, Int.toNat_natCast]
  by_cases hend : array.allocItems.toNat ≤ p
  · have hfits : (p + 1) * array.itemSize.toNat + 8 < 2 ^ 31 := by
      have := Nat.mul_le_mul (show p + 1 ≤ 2 ^ 16 by omega) hsize
      omega
    simp only [if_pos (Or.inr hend), if_pos hend, if_pos hfits]
    exact ⟨_, rfl, rfl, rfl, length_resize _ _, rfl, fun q => join_resize _ _ q⟩
  · by_cases hfull : array.usedItems = array.allocItems
    · have hfits : 2 * array.allocItems.toNat * array.itemSize.toNat + 8 < 2 ^ 31 := by
        have := Nat.mul_le_mul (show 2 * array.allocItems.toNat ≤ 2 ^ 17 by omega) hsize
        omega
      simp only [if_pos (Or.inl hfull), if_neg hend, if_pos hfull, if_pos hfits]
      exact ⟨_, rfl, rfl, rfl, length_resize _ _, rfl, fun q => join_resize _ _ q⟩
    · have hneither : ¬(array.usedItems = array.allocItems ∨ array.allocItems.toNat ≤ p) := by
        rintro (h | h)
        · exact hfull h
        · exact hend h
      simp only [if_neg hneither, if_neg hend, if_neg hfull]
      refine ⟨_, rfl, rfl, rfl, rfl, rfl, fun q => ?_⟩
      split_ifs with hq
      · rfl
      · unfold ItemArray.item
        rw [List.getElem?_eq_none (by omega)]
        rfl

/-- The item is written, and the items between the last one and it are cleared. -/
theorem putItem_spec {zero newItem : α} {p : ℕ} {array : ItemArray α} (hp : p + 1 < 2 ^ 16)
    (hlength : p < array.memory.length) :
    ∃ array', putItem zero newItem p true array = some array' ∧
      array'.itemSize = array.itemSize ∧ array'.allocItems = array.allocItems ∧
      array'.memory.length = array.memory.length ∧
      array'.usedItems.toNat = max array.usedItems.toNat (p + 1) ∧
      ∀ q, array'.item q = if q = p then some newItem
        else if array.usedItems.toNat ≤ q ∧ q < p then some zero else array.item q := by
  unfold putItem
  dsimp only
  rw [if_neg (by simp), if_pos hlength]
  refine ⟨_, rfl, rfl, rfl, ?_, ?_, fun q => ?_⟩
  · rw [List.length_set]
    split_ifs with hused
    · simp only [List.length_append, List.length_take, List.length_replicate, List.length_drop]
      omega
    · rfl
  · dsimp only
    split_ifs with hused
    · omega
    · rw [UInt16.toNat_ofNat', Nat.mod_eq_of_lt hp]
      omega
  · unfold ItemArray.item
    dsimp only
    by_cases hq : q = p
    · rw [if_pos hq, hq, List.getElem?_set_self]
      · rfl
      · split_ifs with hused
        · simp only [List.length_append, List.length_take, List.length_replicate,
            List.length_drop]
          omega
        · exact hlength
    · rw [if_neg hq, List.getElem?_set_ne (Ne.symm hq)]
      by_cases hused : array.usedItems.toNat < p
      · rw [if_pos hused]
        rcases lt_or_ge q array.usedItems.toNat with hlt | hge
        · rw [if_neg (by omega), List.append_assoc, List.getElem?_append_left (by
            rw [List.length_take]; omega), List.getElem?_take_of_lt hlt]
        · have htake : (array.memory.take array.usedItems.toNat).length =
              array.usedItems.toNat := by rw [List.length_take]; omega
          rw [List.append_assoc, List.getElem?_append_right (by omega), htake]
          rcases lt_or_ge q p with hltp | hgep
          · rw [if_pos ⟨hge, hltp⟩, List.getElem?_append_left (by
              rw [List.length_replicate]; omega), List.getElem?_replicate_of_lt (by omega)]
            rfl
          · rw [if_neg (by omega), List.getElem?_append_right (by
              rw [List.length_replicate]; omega), List.length_replicate, List.getElem?_drop]
            congr 2
            omega
      · rw [if_neg hused, if_neg (by omega)]

/-- **What `array_set` does**, at a position that the numbers of items can count. -/
theorem arraySet_spec {zero item : α} {p : ℕ} {array : ItemArray α} (hp : p + 1 < 2 ^ 16)
    (hsize : array.itemSize.toNat ≤ 2 ^ 12)
    (halloc : array.allocItems.toNat ≤ array.memory.length) :
    ∃ array', arraySet zero array p item = some (.ok p, array') ∧
      SetAt zero array p item array' := by
  obtain ⟨grown, hgrow, hgsize, hgused, hglength, hgalloc, hgitem⟩ :=
    grow_spec (show p < 2 ^ 16 by omega) hsize
  obtain ⟨array', hput, hpsize, hpalloc, hplength, hpused, hpitem⟩ :=
    @putItem_spec α zero item p grown hp (hglength ▸ lt_allocated halloc)
  refine ⟨array', ?_, hpsize.trans hgsize, hplength.trans hglength, hpalloc.trans hgalloc,
    hgused ▸ hpused, fun q => ?_⟩
  · unfold arraySet arrayInsertEx
    have hpos : ¬((p : ℤ) < 0) := by omega
    rw [if_neg hpos, hgrow, Option.bind_some]
    dsimp only
    rw [if_neg hpos, Int.toNat_natCast, hput]
    rfl
  · rw [hpitem, hgused, hgitem]

theorem allocated_eq (array : ItemArray α) (p : ℕ) : array.allocated p =
    if array.allocItems.toNat ≤ p then p + 1
    else if array.usedItems.toNat = array.allocItems.toNat then 2 * array.allocItems.toNat
    else array.memory.length := by
  unfold ItemArray.allocated
  simp only [UInt16.toNat_inj]

/-- The number of allocated items, as it is stored. -/
theorem SetAt.alloc_eq {zero item : α} {p : ℕ} {array array' : ItemArray α}
    (h : SetAt zero array p item array') : array'.allocItems.toNat =
      if array.usedItems.toNat = array.allocItems.toNat ∨ array.allocItems.toNat ≤ p then
        array.allocated p % 2 ^ 16
      else array.allocItems.toNat := by
  rw [h.allocItems]
  simp only [UInt16.toNat_inj]
  split_ifs
  · exact UInt16.toNat_ofNat'
  · rfl

/-- No more items are said to be allocated than are. -/
theorem SetAt.alloc_le {zero item : α} {p : ℕ} {array array' : ItemArray α}
    (h : SetAt zero array p item array') (hle : array.allocItems.toNat ≤ array.memory.length) :
    array'.allocItems.toNat ≤ array'.memory.length := by
  rw [h.alloc_eq, h.length, allocated_eq]
  split_ifs with hend hgrown hused
  · exact Nat.mod_le _ _
  · exact Nat.mod_le _ _
  · omega
  · omega
  · omega
  · exact hle

end Common
end AergoLite
