/-
# The growable array as a list

What the operations of `common/array.c` do to the items of an array is what an operation does to
a list (`ArrayOp.onList`), as long as the operation `Fits`: the list has fewer than 65536 items
and the memory has room for them.  Then no operation writes or reads what is not allocated, and
the array holds the list in every run (`arrayRun_refines`).

The memory is doubled where it is full.  An array of no items is not enlarged by that, so that
`array_append` writes behind it (`append_to_empty`).  And the numbers of items are cut to 16 bits
when they are stored: an array that has been doubled beyond 65535 items does not know how many
are allocated.
-/

import AergoLite.Common.SortedArray
import Mathlib.Order.Defs.LinearOrder

namespace AergoLite
namespace Common

variable {α : Type}

/-- `new_array`, where there is memory: its size is an `int`, and the size of an item is stored with
16 bits.  An item that is larger is not stored whole, and is not modelled. -/
def makeArray (zero : α) (numItems itemSize : ℕ) : Option (ItemArray α) :=
  if 0 < itemSize ∧ itemSize < 2 ^ 16 ∧ numItems * itemSize + 8 < 2 ^ 31 then
    some (newArray zero numItems itemSize)
  else none

/-- `array_append`. -/
def arrayAppend (zero : α) (array : ItemArray α) (item : α) :
    Option (Except ArrayError ℕ × ItemArray α) :=
  arrayInsertEx zero array item (-1) none false

/-- `array_find`: the position of an item that compares as the same, if there is one. -/
def arrayFind (compareFn : α → α → ℤ) (item : α) : List (Option α) → ℕ → Option (Option ℕ)
  | [], _ => some none
  | none :: _, _ => none
  | some itemx :: items, i =>
    if compareFn itemx item = 0 then some (some i) else arrayFind compareFn item items (i + 1)

/-- `array_remove`: the items behind the one that is found are moved over it. -/
def arrayRemove (compareFn : α → α → ℤ) (item : α) (array : ItemArray α) :
    Option (ItemArray α) :=
  (arrayFind compareFn item (resize (arrayCount array) array.memory) 0).map fun
    | none => array
    | some pos =>
      let used := array.usedItems.toNat
      { array with
        usedItems := UInt16.ofNat (used - 1)
        memory := if pos < used - 1 then
            array.memory.take pos ++ (array.memory.take used).drop (pos + 1) ++
              array.memory.drop (used - 1)
          else array.memory }

/-- A call of `array_insert_sorted`, `array_append`, `array_set` or `array_remove`. -/
inductive ArrayOp (α : Type)
  | insertSorted (compareFn : α → α → ℤ) (item : α) (replace : Bool)
  | append (item : α)
  | set (pos : ℤ) (item : α)
  | remove (compareFn : α → α → ℤ) (item : α)

namespace ArrayOp

/-- The position that is passed to `array_insert_ex`, if it is called. -/
def pos : ArrayOp α → Option ℤ
  | .insertSorted _ _ _ => some 0
  | .append _ => some (-1)
  | .set pos _ => if pos < 0 then none else some pos
  | .remove _ _ => none

/-- The array after the call; `none` where memory is used that is not allocated. -/
def call (zero : α) (array : ItemArray α) : ArrayOp α → Option (ItemArray α)
  | .insertSorted compareFn item replace =>
    (arrayInsertSorted zero array item compareFn replace).map Prod.snd
  | .append item => (arrayAppend zero array item).map Prod.snd
  | .set pos item => (arraySet zero array pos item).map Prod.snd
  | .remove compareFn item => arrayRemove compareFn item array

end ArrayOp

/-- The condition under which `array_insert_ex` enlarges the memory. -/
def ItemArray.grows (array : ItemArray α) (pos : ℤ) : Bool :=
  array.usedItems == array.allocItems || decide (array.allocItems.toNat ≤ pos)

/-- The number of items that there is memory for, after that. -/
def ItemArray.capacity (array : ItemArray α) (pos : ℤ) : ℕ :=
  if array.allocItems.toNat ≤ pos then pos.toNat + 1
  else if array.usedItems = array.allocItems then 2 * array.allocItems.toNat
  else array.memory.length

/-- The call returns `ARRAY_NOMEM`: `sqlite3_realloc` is called and finds no memory. -/
def ArrayOp.noMem (memory : Bool) (array : ItemArray α) (op : ArrayOp α) : Bool :=
  !memory && op.pos.any array.grows

/-- A call, where `sqlite3_realloc` finds memory or does not. -/
def ArrayOp.step (zero : α) (memory : Bool) (array : ItemArray α) (op : ArrayOp α) :
    Option (ItemArray α) :=
  if op.noMem memory array then
    op.pos.bind fun pos => (grow pos array).map fun _ => array
  else op.call zero array

/-- One call after the other. -/
def runCalls (zero : α) : List (Bool × ArrayOp α) → ItemArray α → Option (ItemArray α)
  | [], array => some array
  | (memory, op) :: calls, array => (op.step zero memory array).bind (runCalls zero calls)

/-! ## Lists -/

/-- A new item is put before the first one that compares as less, or in place of the one that
compares as the same. -/
def insertBy (compareFn : α → α → ℤ) (replace : Bool) (item : α) : List α → List α
  | [] => [item]
  | x :: l =>
    if compareFn x item = 0 then (if replace then item else x) :: l
    else if compareFn x item < 0 then item :: x :: l
    else x :: insertBy compareFn replace item l

/-- The item at a position, and zero items before it where there are too few. -/
def setItem (zero : α) (p : ℕ) (item : α) (l : List α) : List α :=
  if p < l.length then l.set p item else l ++ List.replicate (p - l.length) zero ++ [item]

/-- What the call does to a list. -/
def ArrayOp.onList (zero : α) (l : List α) : ArrayOp α → List α
  | .insertSorted compareFn item replace => insertBy compareFn replace item l
  | .append item => l ++ [item]
  | .set pos item => if pos < 0 then l else setItem zero pos.toNat item l
  | .remove compareFn item => l.eraseP fun x => compareFn x item == 0

/-- The list after a call. -/
def ArrayOp.stepList (zero : α) (memory : Bool) (array : ItemArray α) (l : List α)
    (op : ArrayOp α) : List α :=
  if op.noMem memory array then l else op.onList zero l

/-- **The list fits the array**: the size of the memory fits in an `int`, the memory has room for
the items, and their number fits in 16 bits. -/
structure ArrayOp.Fits (zero : α) (memory : Bool) (array : ItemArray α) (l : List α)
    (op : ArrayOp α) : Prop where
  size : ∀ pos ∈ op.pos, array.grows pos = true →
    array.capacity pos * array.itemSize.toNat + 8 < 2 ^ 31
  room : op.noMem memory array = false → ∀ pos ∈ op.pos,
    l.length ≤ array.capacity pos ∧ (op.onList zero l).length ≤ array.capacity pos
  count : op.noMem memory array = false → (op.onList zero l).length < 2 ^ 16

/-- Every call of a run fits. -/
def AllFit (zero : α) : List (Bool × ArrayOp α) → ItemArray α → List α → Prop
  | [], _, _ => True
  | (memory, op) :: calls, array, l =>
    op.Fits zero memory array l ∧ ∀ array' ∈ op.step zero memory array,
      AllFit zero calls array' (op.stepList zero memory array l)

/-- The list at the end of a run. -/
def runList (zero : α) : List (Bool × ArrayOp α) → ItemArray α → List α → List α
  | [], _, l => l
  | (memory, op) :: calls, array, l =>
    match op.step zero memory array with
    | none => l
    | some array' => runList zero calls array' (op.stepList zero memory array l)

/-! ## The memory -/

/-- The array holds the items of a list, and no more items are said to be allocated than are. -/
structure Holds (array : ItemArray α) (l : List α) : Prop where
  stores : Stores array l
  alloc : array.allocItems.toNat ≤ array.memory.length

/-- The items of a list can be read from the memory. -/
theorem take_resize {memory : List (Option α)} {l : List α} {n : ℕ}
    (h : memory.take l.length = l.map some) (hle : l.length ≤ memory.length) (hn : l.length ≤ n) :
    (resize n memory).take l.length = l.map some := by
  unfold resize
  rw [List.take_take, Nat.min_eq_left hn, List.take_append_of_le_length hle, h]

/-- The memory is enlarged, if it is to be. -/
theorem grow_eq {array : ItemArray α} {pos : ℤ}
    (hsize : array.grows pos = true → array.capacity pos * array.itemSize.toNat + 8 < 2 ^ 31) :
    grow pos array = some (if array.grows pos then
      { array with
        allocItems := UInt16.ofNat (array.capacity pos)
        memory := resize (array.capacity pos) array.memory }
      else array) := by
  have hgrows : array.grows pos = true ↔
      array.usedItems = array.allocItems ∨ array.allocItems.toNat ≤ pos := by
    rw [ItemArray.grows, Bool.or_eq_true, beq_iff_eq, decide_eq_true_iff]
  unfold grow
  by_cases henlarge : array.usedItems = array.allocItems ∨ array.allocItems.toNat ≤ pos
  · have hcapacity : array.capacity pos = if array.allocItems.toNat ≤ pos then pos.toNat + 1
        else 2 * array.allocItems.toNat := by
      unfold ItemArray.capacity
      split_ifs with hend hfull
      · rfl
      · rfl
      · exact absurd henlarge (not_or.2 ⟨hfull, hend⟩)
    rw [if_pos henlarge, if_pos (hgrows.2 henlarge)]
    dsimp only
    rw [← hcapacity, if_pos (hsize (hgrows.2 henlarge))]
  · rw [if_neg henlarge, if_neg (mt hgrows.1 henlarge)]

/-- **The items stay** where the memory is enlarged. -/
theorem Holds.grow {array : ItemArray α} {l : List α} (h : Holds array l) {pos : ℤ}
    (hsize : array.grows pos = true → array.capacity pos * array.itemSize.toNat + 8 < 2 ^ 31)
    (hroom : l.length ≤ array.capacity pos) :
    ∃ array', Common.grow pos array = some array' ∧ Holds array' l ∧
      array'.memory.length = array.capacity pos := by
  refine ⟨_, grow_eq hsize, ?_⟩
  cases hgrows : array.grows pos with
  | true =>
    rw [if_pos rfl]
    refine ⟨⟨⟨h.stores.used, take_resize h.stores.items h.stores.le hroom⟩, ?_⟩,
      length_resize _ _⟩
    rw [length_resize, UInt16.toNat_ofNat']
    exact Nat.mod_le _ _
  | false =>
    rw [if_neg Bool.false_ne_true]
    refine ⟨h, ?_⟩
    rw [ItemArray.grows, Bool.or_eq_false_iff, beq_eq_false_iff_ne, decide_eq_false_iff_not]
      at hgrows
    rw [ItemArray.capacity, if_neg hgrows.2, if_neg hgrows.1]

/-- A new item is put at its place. -/
theorem Holds.put {zero item : α} {array : ItemArray α} {l : List α} (h : Holds array l) {p : ℕ}
    (hp : p ≤ l.length) (hroom : l.length < array.memory.length) (hcount : l.length + 1 < 2 ^ 16) :
    ∃ array', putItem zero item p false array = some array' ∧
      Holds array' (l.take p ++ item :: l.drop p) := by
  obtain ⟨array', hput, -, halloc, hlength, hstores⟩ :=
    @putItem_new α zero item array l h.stores p hp hroom hcount
  exact ⟨array', hput, hstores, halloc ▸ hlength ▸ h.alloc⟩

theorem length_setItem (zero item : α) (p : ℕ) (l : List α) :
    (setItem zero p item l).length = max l.length (p + 1) := by
  unfold setItem
  split_ifs with hlt
  · rw [List.length_set]
    omega
  · rw [List.length_append, List.length_append, List.length_replicate, List.length_singleton]
    omega

theorem getElem?_setItem (zero item : α) (p q : ℕ) (l : List α) : (setItem zero p item l)[q]? =
    if q = p then some item else if l.length ≤ q ∧ q < p then some zero else l[q]? := by
  unfold setItem
  split_ifs with hlt heq hgap heq hgap
  · rw [heq, List.getElem?_set_self hlt]
  · omega
  · rw [List.getElem?_set_ne (Ne.symm heq)]
  · rw [heq, List.getElem?_append_right, List.length_append, List.length_replicate]
    · rw [Nat.add_sub_cancel' (by omega), Nat.sub_self]
      rfl
    · rw [List.length_append, List.length_replicate]
      omega
  · rw [List.append_assoc, List.getElem?_append_right hgap.1, List.getElem?_append_left,
      List.getElem?_replicate_of_lt]
    · omega
    · rw [List.length_replicate]
      omega
  · rcases Nat.lt_or_ge q l.length with hin | hout
    · rw [List.append_assoc, List.getElem?_append_left hin]
    · rw [List.getElem?_eq_none, List.getElem?_eq_none hout]
      rw [List.length_append, List.length_append, List.length_replicate, List.length_singleton]
      omega

theorem Stores.item {array : ItemArray α} {l : List α} (h : Stores array l) {q : ℕ}
    (hq : q < l.length) : array.item q = l[q]? := by
  unfold ItemArray.item
  rw [← List.getElem?_take_of_lt hq, h.items, List.getElem?_map]
  cases l[q]? <;> rfl

theorem stores_of_item {array : ItemArray α} {l : List α}
    (hused : array.usedItems.toNat = l.length) (hle : l.length ≤ array.memory.length)
    (hitem : ∀ q < l.length, array.item q = l[q]?) : Stores array l := by
  refine ⟨hused, List.ext_getElem? fun q => ?_⟩
  rcases Nat.lt_or_ge q l.length with hin | hout
  · have hread := hitem q hin
    unfold ItemArray.item at hread
    rw [List.getElem?_take_of_lt hin, List.getElem?_map]
    rw [List.getElem?_eq_getElem (by omega), Option.join_some] at hread
    rw [List.getElem?_eq_getElem (by omega), hread, List.getElem?_eq_getElem hin, Option.map_some]
  · rw [List.getElem?_take_eq_none hout, List.getElem?_eq_none (by rwa [List.length_map])]

/-- An item is set. -/
theorem Holds.set {zero item : α} {array : ItemArray α} {l : List α} (h : Holds array l) {p : ℕ}
    (hp : p < array.memory.length) (hcount : (setItem zero p item l).length < 2 ^ 16) :
    ∃ array', putItem zero item p true array = some array' ∧
      Holds array' (setItem zero p item l) := by
  have hlength := length_setItem zero item p l
  have hle := h.stores.le
  obtain ⟨array', hput, -, halloc, hmemory, hused, hitem⟩ :=
    @putItem_spec α zero item p array (by omega) hp
  rw [h.stores.used] at hused hitem
  refine ⟨array', hput, stores_of_item (hused.trans hlength.symm) (by omega) fun q hq => ?_, ?_⟩
  · rw [hitem, getElem?_setItem]
    split_ifs with heq hgap
    · rfl
    · rfl
    · exact h.stores.item (by omega)
  · rw [halloc, hmemory]
    exact h.alloc

/-! ## The place of an item -/

/-- The items are compared until the place is found. -/
theorem findPlace_list (compareFn : α → α → ℤ) (replace : Bool) (item : α) (l : List α) (i : ℕ) :
    ∃ p found, findPlace compareFn item (l.map some) i = some (i + p, found) ∧
      (found = true → p < l.length ∧
        insertBy compareFn replace item l = if replace then l.set p item else l) ∧
      (found = false → p ≤ l.length ∧
        insertBy compareFn replace item l = l.take p ++ item :: l.drop p) := by
  induction l generalizing i with
  | nil => exact ⟨0, false, rfl, by simp, fun _ => ⟨le_rfl, rfl⟩⟩
  | cons x l ih =>
    rw [List.map_cons, findPlace, insertBy]
    by_cases heq : compareFn x item = 0
    · rw [if_pos heq, if_pos heq]
      refine ⟨0, true, rfl, fun _ => ⟨Nat.succ_pos _, ?_⟩, by simp⟩
      cases replace <;> rfl
    · rw [if_neg heq, if_neg heq]
      by_cases hless : compareFn x item < 0
      · rw [if_pos hless, if_pos hless]
        exact ⟨0, false, rfl, by simp, fun _ => ⟨Nat.zero_le _, rfl⟩⟩
      · rw [if_neg hless, if_neg hless]
        obtain ⟨p, found, hfind, hfound, hnew⟩ := ih (i + 1)
        refine ⟨p + 1, found, ?_, fun h => ?_, fun h => ?_⟩
        · rw [hfind, Nat.add_right_comm i 1 p, Nat.add_assoc]
        · obtain ⟨hp, hinsert⟩ := hfound h
          refine ⟨Nat.succ_lt_succ hp, ?_⟩
          rw [hinsert]
          cases replace <;> rfl
        · obtain ⟨hp, hinsert⟩ := hnew h
          exact ⟨Nat.succ_le_succ hp, congrArg (x :: ·) hinsert⟩

theorem arrayFind_list (compareFn : α → α → ℤ) (item : α) (l : List α) (i : ℕ) :
    arrayFind compareFn item (l.map some) i =
      some ((l.findIdx? fun x => compareFn x item == 0).map (i + ·)) := by
  induction l generalizing i with
  | nil => rfl
  | cons x l ih =>
    rw [List.map_cons, arrayFind, List.findIdx?_cons, ih]
    by_cases heq : compareFn x item = 0
    · rw [if_pos heq, if_pos (beq_iff_eq.2 heq)]
      rfl
    · rw [if_neg heq, if_neg (mt beq_iff_eq.1 heq), Option.map_map]
      congr 2
      funext q
      show i + 1 + q = i + (q + 1)
      omega

/-- The items behind the one that is removed are moved. -/
theorem Holds.remove {array : ItemArray α} {l : List α} (h : Holds array l)
    (compareFn : α → α → ℤ) (item : α) :
    ∃ array', arrayRemove compareFn item array = some array' ∧
      Holds array' (l.eraseP fun x => compareFn x item == 0) := by
  have hle := h.stores.le
  unfold arrayRemove
  rw [h.stores.resize, arrayFind_list, Option.map_some, List.eraseP_eq_eraseIdx]
  cases hfind : l.findIdx? fun x => compareFn x item == 0 with
  | none => exact ⟨array, rfl, h⟩
  | some p =>
    obtain ⟨hp, -⟩ := List.findIdx?_eq_some_iff_findIdx_eq.1 hfind
    rw [Option.map_some, Nat.zero_add]
    dsimp only
    rw [h.stores.used]
    have hlength := List.length_eraseIdx_of_lt hp
    have hcount := array.usedItems.toNat_lt
    rw [h.stores.used] at hcount
    have hbefore : array.memory.take p = (l.take p).map some := by
      rw [List.map_take, ← h.stores.items, List.take_take, Nat.min_eq_left (by omega)]
    have hbehind : (array.memory.take l.length).drop (p + 1) = (l.drop (p + 1)).map some := by
      rw [h.stores.items, List.map_drop]
    refine ⟨_, rfl, ⟨?_, ?_⟩, ?_⟩
    · rw [UInt16.toNat_ofNat', Nat.mod_eq_of_lt (by omega), hlength]
    · dsimp only
      rw [hlength]
      split_ifs with hlast
      · rw [hbefore, hbehind, ← List.map_append, ← List.eraseIdx_eq_take_drop_succ]
        exact List.take_left' (by rw [List.length_map, hlength])
      · obtain rfl : p = l.length - 1 := by omega
        rw [hbefore, List.eraseIdx_eq_take_drop_succ, List.drop_of_length_le (by omega),
          List.append_nil]
    · dsimp only
      split_ifs with hlast
      · simp only [List.length_append, List.length_take, List.length_drop]
        have halloc := h.alloc
        omega
      · exact h.alloc

/-! ## The calls -/

theorem Holds.insertSorted {zero item : α} {compareFn : α → α → ℤ} {replace : Bool}
    {array : ItemArray α} {l : List α} (h : Holds array l)
    (hsize : array.grows 0 = true → array.capacity 0 * array.itemSize.toNat + 8 < 2 ^ 31)
    (hroom : l.length ≤ array.capacity 0 ∧
      (insertBy compareFn replace item l).length ≤ array.capacity 0)
    (hcount : (insertBy compareFn replace item l).length < 2 ^ 16) :
    ∃ r array', arrayInsertSorted zero array item compareFn replace = some (r, array') ∧
      Holds array' (insertBy compareFn replace item l) := by
  obtain ⟨grown, hgrow, hholds, hmemory⟩ := h.grow hsize hroom.1
  obtain ⟨p, found, hfind, hfound, hnew⟩ := findPlace_list compareFn replace item l 0
  unfold arrayInsertSorted arrayInsertEx
  rw [hgrow, Option.bind_some]
  dsimp only
  rw [hholds.stores.resize, hfind, Option.bind_some, Nat.zero_add]
  dsimp only
  cases found with
  | false =>
    obtain ⟨hp, hinsert⟩ := hnew rfl
    rw [hinsert, List.length_append, List.length_cons, List.length_take, List.length_drop]
      at hroom hcount
    obtain ⟨array', hput, hholds'⟩ :=
      @Holds.put α zero item grown l hholds p hp (by omega) (by omega)
    rw [if_neg (by simp), hput, hinsert]
    exact ⟨_, array', rfl, hholds'⟩
  | true =>
    obtain ⟨hp, hinsert⟩ := hfound rfl
    have hle := h.stores.le
    cases replace with
    | false =>
      rw [if_pos (show (true && !false) = true from rfl), hinsert]
      exact ⟨_, grown, rfl, hholds⟩
    | true =>
      have hset : setItem zero p item l = l.set p item := if_pos hp
      rw [hinsert, if_pos rfl, ← hset] at hcount hroom
      obtain ⟨array', hput, hholds'⟩ := @Holds.set α zero item grown l hholds p (by omega) hcount
      rw [if_neg (by simp), hput, hinsert, if_pos rfl, ← hset]
      exact ⟨_, array', rfl, hholds'⟩

theorem Holds.append {zero item : α} {array : ItemArray α} {l : List α} (h : Holds array l)
    (hsize : array.grows (-1) = true →
      array.capacity (-1) * array.itemSize.toNat + 8 < 2 ^ 31)
    (hroom : l.length < array.capacity (-1)) (hcount : l.length + 1 < 2 ^ 16) :
    ∃ r array', arrayAppend zero array item = some (r, array') ∧ Holds array' (l ++ [item]) := by
  obtain ⟨grown, hgrow, hholds, hmemory⟩ := h.grow hsize (by omega)
  obtain ⟨array', hput, hholds'⟩ :=
    @Holds.put α zero item grown l hholds l.length le_rfl (by omega) hcount
  rw [List.take_length, List.drop_length] at hholds'
  unfold arrayAppend arrayInsertEx
  rw [hgrow, Option.bind_some]
  dsimp only
  rw [if_pos (by decide), arrayCount, hholds.stores.used, hput]
  exact ⟨_, array', rfl, hholds'⟩

theorem Holds.arraySet {zero item : α} {array : ItemArray α} {l : List α} (h : Holds array l)
    {pos : ℤ} (hpos : ¬pos < 0)
    (hsize : array.grows pos = true → array.capacity pos * array.itemSize.toNat + 8 < 2 ^ 31)
    (hroom : (setItem zero pos.toNat item l).length ≤ array.capacity pos)
    (hcount : (setItem zero pos.toNat item l).length < 2 ^ 16) :
    ∃ r array', Common.arraySet zero array pos item = some (r, array') ∧
      Holds array' (setItem zero pos.toNat item l) := by
  have hlength := length_setItem zero item pos.toNat l
  obtain ⟨grown, hgrow, hholds, hmemory⟩ := h.grow hsize (by omega)
  obtain ⟨array', hput, hholds'⟩ :=
    @Holds.set α zero item grown l hholds pos.toNat (by omega) hcount
  unfold Common.arraySet arrayInsertEx
  rw [if_neg hpos, hgrow, Option.bind_some]
  dsimp only
  rw [if_neg hpos, hput]
  exact ⟨_, array', rfl, hholds'⟩

/-- **A call does to the array what it does to the list**, if the list fits. -/
theorem ArrayOp.Fits.call {zero : α} {memory : Bool} {array : ItemArray α} {l : List α}
    {op : ArrayOp α} (hfits : op.Fits zero memory array l) (h : Holds array l)
    (hmem : op.noMem memory array = false) :
    ∃ array', op.call zero array = some array' ∧ Holds array' (op.onList zero l) := by
  obtain ⟨hsize, hroom, hcount⟩ := hfits
  specialize hroom hmem
  specialize hcount hmem
  cases op with
  | insertSorted compareFn item replace =>
    obtain ⟨r, array', hcall, hholds⟩ :=
      @Holds.insertSorted α zero item compareFn replace array l h (hsize 0 rfl) (hroom 0 rfl) hcount
    exact ⟨array', by rw [ArrayOp.call, hcall, Option.map_some], hholds⟩
  | append item =>
    have hlength : (l ++ [item]).length = l.length + 1 := List.length_append
    obtain ⟨-, hroom⟩ := hroom (-1) rfl
    obtain ⟨r, array', hcall, hholds⟩ := @Holds.append α zero item array l h (hsize (-1) rfl)
      (by rw [ArrayOp.onList, hlength] at hroom; omega)
      (by rw [ArrayOp.onList, hlength] at hcount; omega)
    exact ⟨array', by rw [ArrayOp.call, hcall, Option.map_some], hholds⟩
  | set pos item =>
    by_cases hneg : pos < 0
    · refine ⟨array, ?_, ?_⟩
      · rw [ArrayOp.call, Common.arraySet, if_pos hneg, Option.map_some]
      · rw [ArrayOp.onList, if_pos hneg]
        exact h
    · have hpos : pos ∈ (ArrayOp.set pos item).pos := if_neg hneg
      obtain ⟨-, hroom⟩ := hroom pos hpos
      rw [ArrayOp.onList, if_neg hneg] at hroom hcount ⊢
      obtain ⟨r, array', hcall, hholds⟩ :=
        @Holds.arraySet α zero item array l h pos hneg (hsize pos hpos) hroom hcount
      exact ⟨array', by rw [ArrayOp.call, hcall, Option.map_some], hholds⟩
  | remove compareFn item => exact h.remove compareFn item

/-- A call that finds no memory leaves the array as it is. -/
theorem ArrayOp.Fits.step {zero : α} {memory : Bool} {array : ItemArray α} {l : List α}
    {op : ArrayOp α} (hfits : op.Fits zero memory array l) (h : Holds array l) :
    ∃ array', op.step zero memory array = some array' ∧
      Holds array' (op.stepList zero memory array l) := by
  unfold ArrayOp.step ArrayOp.stepList
  cases hmem : op.noMem memory array with
  | false =>
    rw [if_neg Bool.false_ne_true, if_neg Bool.false_ne_true]
    exact hfits.call h hmem
  | true =>
    rw [if_pos rfl, if_pos rfl]
    rw [ArrayOp.noMem, Bool.and_eq_true, Option.any_eq_true] at hmem
    obtain ⟨-, pos, hpos, -⟩ := hmem
    rw [hpos, Option.bind_some, grow_eq (hfits.size pos hpos)]
    exact ⟨array, rfl, h⟩

/-! ## Sorted lists -/

/-- The comparison of items by a key: positive where the second item comes after the first. -/
structure ComparesBy {κ : Type} [LinearOrder κ] (compareFn : α → α → ℤ) (key : α → κ) : Prop where
  same : ∀ a b, compareFn a b = 0 ↔ key a = key b
  less : ∀ a b, compareFn a b < 0 ↔ key b < key a

theorem compareKeys_comparesBy (key : α → ℕ) : ComparesBy (compareKeys key) key := by
  refine ⟨fun a b => ?_, fun a b => ?_⟩
  all_goals
    unfold compareKeys
    split_ifs with heq hlt
  · exact iff_of_true rfl heq.symm
  · exact iff_of_false (by decide) (Ne.symm heq)
  · exact iff_of_false (by decide) (Ne.symm heq)
  · exact iff_of_false (by decide) heq.not_lt
  · exact iff_of_false (by decide) hlt.asymm
  · exact iff_of_true (by decide) (by omega)

section
variable {κ : Type} [LinearOrder κ] {compareFn : α → α → ℤ} {key : α → κ}

theorem forall_mem_insertBy {P : α → Prop} {replace : Bool} {item : α} {l : List α}
    (hitem : P item) (hl : ∀ x ∈ l, P x) : ∀ x ∈ insertBy compareFn replace item l, P x := by
  induction l with
  | nil => exact List.forall_mem_singleton.2 hitem
  | cons y l ih =>
    rw [List.forall_mem_cons] at hl
    rw [insertBy]
    split_ifs
    · exact List.forall_mem_cons.2 ⟨hitem, hl.2⟩
    · exact List.forall_mem_cons.2 hl
    · exact List.forall_mem_cons.2 ⟨hitem, List.forall_mem_cons.2 hl⟩
    · exact List.forall_mem_cons.2 ⟨hl.1, ih hl.2⟩

/-- **The list stays sorted**, without items of one key. -/
theorem insertBy_sorted (hcompare : ComparesBy compareFn key) (replace : Bool) (item : α)
    {l : List α} (h : l.Pairwise fun a b => key a < key b) :
    (insertBy compareFn replace item l).Pairwise fun a b => key a < key b := by
  induction l with
  | nil => exact List.pairwise_singleton _ _
  | cons x l ih =>
    have hrest := (List.pairwise_cons.1 h).2
    have hfirst := (List.pairwise_cons.1 h).1
    rw [insertBy]
    by_cases heq : compareFn x item = 0
    · rw [if_pos heq]
      cases replace with
      | false => exact h
      | true =>
        rw [if_pos rfl]
        refine List.pairwise_cons.2 ⟨fun y hy => ?_, hrest⟩
        exact (hcompare.same x item).1 heq ▸ hfirst y hy
    · rw [if_neg heq]
      by_cases hless : compareFn x item < 0
      · have hlt := (hcompare.less x item).1 hless
        rw [if_pos hless]
        refine List.pairwise_cons.2 ⟨fun y hy => ?_, h⟩
        rcases List.mem_cons.1 hy with rfl | hy
        · exact hlt
        · exact hlt.trans (hfirst y hy)
      · have hgt : key x < key item :=
          lt_of_le_of_ne (not_lt.1 (mt (hcompare.less x item).2 hless))
            (mt (hcompare.same x item).2 heq)
        rw [if_neg hless]
        exact List.pairwise_cons.2 ⟨forall_mem_insertBy hgt hfirst, ih hrest⟩

end

/-! ## Runs -/

/-- A call that keeps a list sorted. -/
def ArrayOp.Sorts (compareFn : α → α → ℤ) : ArrayOp α → Prop
  | .insertSorted compareFn' _ _ => compareFn' = compareFn
  | .remove _ _ => True
  | .append _ | .set _ _ => False

theorem ArrayOp.Sorts.stepList {κ : Type} [LinearOrder κ] {compareFn : α → α → ℤ} {key : α → κ}
    {op : ArrayOp α} (hsorts : op.Sorts compareFn) (hcompare : ComparesBy compareFn key)
    (zero : α) (memory : Bool) (array : ItemArray α) {l : List α}
    (h : l.Pairwise fun a b => key a < key b) :
    (op.stepList zero memory array l).Pairwise fun a b => key a < key b := by
  unfold ArrayOp.stepList
  split_ifs
  · exact h
  · cases op with
    | insertSorted compareFn' item replace =>
      obtain rfl : compareFn' = compareFn := hsorts
      exact insertBy_sorted hcompare replace item h
    | remove compareFn' item => exact h.sublist List.eraseP_sublist
    | append item => exact hsorts.elim
    | set pos item => exact hsorts.elim

/-- The array and the list at the end of a run. -/
theorem Holds.run {zero : α} {calls : List (Bool × ArrayOp α)} {array : ItemArray α} {l : List α}
    (h : Holds array l) (hfit : AllFit zero calls array l) :
    ∃ array', runCalls zero calls array = some array' ∧
      Holds array' (runList zero calls array l) := by
  induction calls generalizing array l with
  | nil => exact ⟨array, rfl, h⟩
  | cons call calls ih =>
    obtain ⟨memory, op⟩ := call
    obtain ⟨next, hstep, hnext⟩ := hfit.1.step h
    obtain ⟨array', hrun, hholds⟩ := ih hnext (hfit.2 next hstep)
    rw [runCalls, runList, hstep]
    exact ⟨array', hrun, hholds⟩

theorem runList_sorted {κ : Type} [LinearOrder κ] {compareFn : α → α → ℤ} {key : α → κ}
    (hcompare : ComparesBy compareFn key) {zero : α} {calls : List (Bool × ArrayOp α)}
    (hsorts : ∀ call ∈ calls, call.2.Sorts compareFn) {array : ItemArray α} {l : List α}
    (h : l.Pairwise fun a b => key a < key b) :
    (runList zero calls array l).Pairwise fun a b => key a < key b := by
  induction calls generalizing array l with
  | nil => exact h
  | cons call calls ih =>
    obtain ⟨memory, op⟩ := call
    rw [List.forall_mem_cons] at hsorts
    rw [runList]
    cases op.step zero memory array with
    | none => exact h
    | some next => exact ih hsorts.2 (hsorts.1.stepList hcompare zero memory array h)

/-- A new array holds no item. -/
theorem makeArray_holds {zero : α} {numItems itemSize : ℕ} {array : ItemArray α}
    (h : makeArray zero numItems itemSize = some array) : Holds array [] := by
  unfold makeArray at h
  split_ifs at h
  obtain rfl := Option.some.inj h
  refine ⟨⟨rfl, rfl⟩, ?_⟩
  show (UInt16.ofNat numItems).toNat ≤ (List.replicate numItems (some zero)).length
  rw [UInt16.toNat_ofNat', List.length_replicate]
  exact Nat.mod_le _ _

instance (zero : α) (memory : Bool) (array : ItemArray α) (l : List α) (op : ArrayOp α) :
    Decidable (op.Fits zero memory array l) :=
  decidable_of_iff (_ ∧ _ ∧ _)
    ⟨fun h => ⟨h.1, h.2.1, h.2.2⟩, fun h => ⟨h.size, h.room, h.count⟩⟩

instance decidableAllFit (zero : α) : (calls : List (Bool × ArrayOp α)) →
    (array : ItemArray α) → (l : List α) → Decidable (AllFit zero calls array l)
  | [], _, _ => isTrue trivial
  | (memory, op) :: calls, array, l =>
    have := fun array' => decidableAllFit zero calls array' (op.stepList zero memory array l)
    inferInstanceAs (Decidable (_ ∧ ∀ array' ∈ op.step zero memory array, _))

/-- Two items are sorted, the fourth one is set, and the second one is removed. -/
def mixedCalls : List (Bool × ArrayOp ℕ) :=
  [(true, .insertSorted (compareKeys id) 5 true), (true, .insertSorted (compareKeys id) 3 true),
    (true, .set 3 9), (false, .remove (compareKeys id) 5)]

end Common
end AergoLite
