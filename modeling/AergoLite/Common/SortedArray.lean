/-
# Sorted arrays

`array_insert_sorted` of `common/array.c` keeps the items of an array in the order of a number.
The array doubles when it is full, and the number of allocated items is cut to 16 bits when it
is stored.  So an array of 8 or 16 items takes 32769 items: the last of them doubles it to
65536, which is stored as 0, and with the next item the memory is cut to one item
(`insertAll_new`).
-/

import AergoLite.Common.Array
import Mathlib.Data.List.Sort

namespace AergoLite
namespace Common

variable {α : Type}

/-- `array_insert_sorted`. -/
def arrayInsertSorted (zero : α) (array : ItemArray α) (item : α) (compareFn : α → α → ℤ)
    (replace : Bool) : Option (Except ArrayError ℕ × ItemArray α) :=
  arrayInsertEx zero array item 0 (some compareFn) replace

/-- The comparison by a number: 1 where the new item comes after the existing one. -/
def compareKeys (key : α → ℕ) (existing new : α) : ℤ :=
  if key new = key existing then 0 else if key existing < key new then 1 else -1

/-- Items are inserted one after the other, each in place of the one with its number. -/
def insertAll (zero : α) (compareFn : α → α → ℤ) : List α → ItemArray α →
    Option (Except ArrayError (ItemArray α))
  | [], array => some (.ok array)
  | item :: items, array =>
    (arrayInsertSorted zero array item compareFn true).bind fun (pos, array) =>
      match pos with
      | .error e => some (.error e)
      | .ok _ => insertAll zero compareFn items array

/-- The used items of the array are those of the list. -/
structure Stores (array : ItemArray α) (l : List α) : Prop where
  used : array.usedItems.toNat = l.length
  items : array.memory.take l.length = l.map some

/-- The array has the memory it says it has, and can be doubled up to 32768 items. -/
structure Sized (array : ItemArray α) : Prop where
  itemSize : array.itemSize.toNat ≤ 2 ^ 12
  length : array.memory.length = array.allocItems.toNat
  doubles : ∃ e ≤ 15, array.allocItems.toNat = 2 ^ e

theorem Sized.pos {array : ItemArray α} (h : Sized array) : 0 < array.allocItems.toNat := by
  obtain ⟨e, -, hpow⟩ := h.doubles
  exact hpow ▸ Nat.pow_pos (by decide)

theorem Sized.le {array : ItemArray α} (h : Sized array) : array.allocItems.toNat ≤ 32768 := by
  obtain ⟨e, he, hpow⟩ := h.doubles
  exact hpow ▸ Nat.pow_le_pow_right (by decide) he

theorem Stores.le {array : ItemArray α} {l : List α} (h : Stores array l) :
    l.length ≤ array.memory.length := by
  have hlength := congrArg List.length h.items
  rw [List.length_take, List.length_map] at hlength
  omega

theorem Stores.contents {array : ItemArray α} {l : List α} (h : Stores array l) :
    array.contents = some l := by
  refine contents_eq_some.2 ⟨h.used.symm, fun q hq => ?_⟩
  rw [h.used] at hq
  unfold ItemArray.item
  rw [← List.getElem?_take_of_lt hq, h.items, List.getElem?_map]
  cases l[q]? <;> rfl

/-- The memory that is compared with a new item. -/
theorem Stores.resize {array : ItemArray α} {l : List α} (h : Stores array l) :
    resize (arrayCount array) array.memory = l.map some := by
  have hle := h.le
  unfold Common.resize arrayCount
  rw [h.used, List.take_append_of_le_length hle, h.items]

/-- The list with a new item at its place. -/
def inserted (key : α → ℕ) (item : α) (l : List α) : List α :=
  l.orderedInsert (fun a b => key a ≤ key b) item

/-- A new item is put before the first item with a greater number. -/
theorem findPlace_new (key : α → ℕ) {item : α} {l : List α}
    (hnew : ∀ other ∈ l, key other ≠ key item) (i : ℕ) :
    ∃ p ≤ l.length, findPlace (compareKeys key) item (l.map some) i = some (i + p, false) ∧
      inserted key item l = l.take p ++ item :: l.drop p := by
  unfold inserted
  induction l generalizing i with
  | nil => exact ⟨0, le_rfl, rfl, rfl⟩
  | cons other l ih =>
      have hne := hnew other List.mem_cons_self
      rw [List.map_cons, findPlace, compareKeys, if_neg (Ne.symm hne), List.orderedInsert_cons]
      rcases lt_or_ge (key other) (key item) with hlt | hge
      · obtain ⟨p, hp, hfind, hinsert⟩ :=
          ih (fun r hr => hnew r (List.mem_cons_of_mem _ hr)) (i + 1)
        refine ⟨p + 1, Nat.succ_le_succ hp, ?_, ?_⟩
        · rw [if_pos hlt, if_neg (by decide), if_neg (by decide), hfind]
          congr 2
          omega
        · rw [if_neg (not_le.2 hlt), hinsert]
          rfl
      · refine ⟨0, Nat.zero_le _, ?_, ?_⟩
        · rw [if_neg (not_lt.2 hge), if_neg (by decide), if_pos (by decide)]
          rfl
        · rw [if_pos hge]
          rfl

/-- The new item is put at its place. -/
theorem putItem_new {zero item : α} {array : ItemArray α} {l : List α} (h : Stores array l)
    {p : ℕ} (hp : p ≤ l.length) (hroom : l.length < array.memory.length)
    (hcount : l.length + 1 < 2 ^ 16) :
    ∃ array', putItem zero item p false array = some array' ∧
      array'.itemSize = array.itemSize ∧ array'.allocItems = array.allocItems ∧
      array'.memory.length = array.memory.length ∧ Stores array' (l.take p ++ item :: l.drop p) := by
  have hstored : (UInt16.ofNat (l.length + 1)).toNat = (l.take p ++ item :: l.drop p).length := by
    rw [UInt16.toNat_ofNat', Nat.mod_eq_of_lt hcount, List.length_append, List.length_cons,
      List.length_take, List.length_drop]
    omega
  have htaken : (l.take p ++ item :: l.drop p).length = l.length + 1 := by
    rw [← hstored, UInt16.toNat_ofNat', Nat.mod_eq_of_lt hcount]
  unfold putItem
  dsimp only
  rw [h.used]
  rcases Nat.lt_or_eq_of_le hp with hlt | rfl
  · rw [if_pos ⟨hlt, rfl⟩, if_pos hroom]
    refine ⟨_, rfl, rfl, rfl, ?_, ⟨hstored, ?_⟩⟩
    · simp only [List.length_append, List.length_take, List.length_cons, List.length_drop]
      omega
    · have hfirst : array.memory.take p = (l.take p).map some := by
        rw [List.map_take, ← h.items, List.take_take, Nat.min_eq_left hp]
      have hlast : (array.memory.take l.length).drop p = (l.drop p).map some := by
        rw [h.items, List.map_drop]
      rw [htaken, hfirst, hlast, List.take_append_of_le_length, List.take_of_length_le,
        List.map_append, List.map_cons]
      · simp only [List.length_append, List.length_cons, List.length_map, List.length_take,
          List.length_drop]
        omega
      · simp only [List.length_append, List.length_cons, List.length_map, List.length_take,
          List.length_drop]
        omega
  · rw [if_neg (by simp), if_pos hroom, if_neg (lt_irrefl _), if_neg (lt_irrefl _)]
    refine ⟨_, rfl, rfl, rfl, List.length_set, ⟨hstored, ?_⟩⟩
    rw [htaken, List.take_add_one, List.getElem?_set_self hroom, List.take_set_of_le le_rfl,
      h.items, List.take_length, List.drop_length, List.map_append]
    rfl

/-- The memory after an item is inserted in the array. -/
theorem grow_zero {array : ItemArray α} (hsized : Sized array) :
    ∃ array', grow 0 array = some array' ∧ array'.itemSize = array.itemSize ∧
      array'.usedItems = array.usedItems ∧
      (if array.usedItems.toNat = array.allocItems.toNat then
        array'.memory = resize (2 * array.allocItems.toNat) array.memory ∧
          array'.allocItems.toNat = 2 * array.allocItems.toNat % 2 ^ 16
      else array' = array) := by
  have hpositive := hsized.pos
  have hle := hsized.le
  have hnot : ¬ (array.allocItems.toNat : ℤ) ≤ 0 := by omega
  unfold grow
  simp only [if_neg hnot, or_iff_left hnot, ← UInt16.toNat_inj]
  split_ifs with hfull hfits
  · exact ⟨_, rfl, rfl, rfl, rfl, UInt16.toNat_ofNat'⟩
  · refine absurd ?_ hfits
    have := Nat.mul_le_mul (show 2 * array.allocItems.toNat ≤ 2 ^ 16 by omega) hsized.itemSize
    omega
  · exact ⟨array, rfl, rfl, rfl, rfl⟩

/-- The array after it has grown, with the same items. -/
theorem Stores.grow {array : ItemArray α} {l : List α} (h : Stores array l)
    (hsized : Sized array) :
    ∃ array', Common.grow 0 array = some array' ∧ array'.itemSize = array.itemSize ∧
      Stores array' l ∧ l.length < array'.memory.length ∧ (l.length < 32768 → Sized array') ∧
      (l.length = 32768 → array'.allocItems.toNat = 0) := by
  obtain ⟨array', hgrow, hitem, hused, hgrown⟩ := grow_zero hsized
  have hle := h.le
  have hlength := hsized.length
  have hpositive := hsized.pos
  have hdouble := hsized.le
  rw [h.used] at hgrown
  refine ⟨array', hgrow, hitem, ?_⟩
  split_ifs at hgrown with hfull
  · obtain ⟨hmemory, halloc⟩ := hgrown
    have hstores : Stores array' l := by
      refine ⟨hused ▸ h.used, ?_⟩
      rw [hmemory, Common.resize, List.take_take, Nat.min_eq_left (by omega),
        List.take_append_of_le_length hle, h.items]
    refine ⟨hstores, ?_, fun hless => ⟨hitem ▸ hsized.itemSize, ?_, ?_⟩, fun heq => ?_⟩
    · rw [hmemory, length_resize]
      omega
    · rw [hmemory, length_resize, halloc]
      omega
    · obtain ⟨e, he, hpow⟩ := hsized.doubles
      have hlt : e ≠ 15 := fun heq => by
        rw [heq] at hpow
        omega
      refine ⟨e + 1, by omega, ?_⟩
      rw [halloc, Nat.mod_eq_of_lt (by omega), hpow, Nat.pow_succ, Nat.mul_comm]
    · rw [halloc]
      omega
  · subst hgrown
    exact ⟨h, by omega, fun _ => hsized, fun heq => by omega⟩

/-- **A new item is inserted.**  From 32768 items on the array counts none as allocated. -/
theorem arrayInsertSorted_new {zero item : α} {array : ItemArray α} {l : List α} {key : α → ℕ}
    (h : Stores array l) (hsized : Sized array) (hnew : ∀ other ∈ l, key other ≠ key item) :
    ∃ i array', arrayInsertSorted zero array item (compareKeys key) true =
        some (.ok i, array') ∧ array'.itemSize = array.itemSize ∧
      Stores array' (inserted key item l) ∧
      (l.length < 32768 → Sized array') ∧
      (l.length = 32768 → array'.allocItems.toNat = 0) := by
  have hlength := hsized.length
  have hle := hsized.le
  have hstored := h.le
  obtain ⟨grown, hgrow, hgsize, hgstores, hroom, hgsized, hgzero⟩ := h.grow hsized
  obtain ⟨p, hp, hfind, hinserted⟩ := findPlace_new key hnew 0
  obtain ⟨array', hput, hsize, halloc, hmemory, hstores⟩ :=
    @putItem_new α zero item grown l hgstores p hp hroom (by omega)
  refine ⟨p, array', ?_, hsize.trans hgsize, hinserted ▸ hstores, fun hless => ?_, fun heq => ?_⟩
  · unfold arrayInsertSorted arrayInsertEx
    rw [hgrow, Option.bind_some]
    dsimp only
    rw [hgstores.resize, hfind, Option.bind_some, Nat.zero_add]
    dsimp only
    rw [if_neg (by simp), hput]
    rfl
  · obtain ⟨hgitem, hglength, hgdoubles⟩ := hgsized hless
    exact ⟨hsize ▸ hgitem, by rw [hmemory, halloc, hglength], halloc ▸ hgdoubles⟩
  · rw [halloc]
    exact hgzero heq

/-- Once the array counts no item as allocated, the memory is cut to one item with the next. -/
theorem arrayInsertSorted_overflow {zero item : α} {array : ItemArray α} {l : List α}
    {key : α → ℕ} (h : Stores array l) (hsize : array.itemSize.toNat ≤ 2 ^ 12)
    (halloc : array.allocItems.toNat = 0) (hlength : 2 ≤ l.length)
    (hnew : ∀ other ∈ l, key other ≠ key item) :
    arrayInsertSorted zero array item (compareKeys key) true = none := by
  obtain ⟨first, second, l, rfl⟩ : ∃ first second l', l = first :: second :: l' := by
    match l, hlength with
    | first :: second :: l', _ => exact ⟨first, second, l', rfl⟩
  have hused := h.used
  have hitems := h.items
  rw [List.length_cons, List.length_cons] at hused hitems
  have hmemory : array.memory.take 1 = [some first] := by
    rw [← Nat.min_eq_left (show 1 ≤ l.length + 1 + 1 by omega), ← List.take_take, hitems]
    rfl
  have hcut : resize 1 array.memory = [some first] := by
    unfold resize
    rw [List.take_append_of_le_length (by have := h.le; rw [List.length_cons] at this; omega),
      hmemory]
  unfold arrayInsertSorted arrayInsertEx grow
  rw [halloc]
  simp only [Nat.cast_zero, le_refl, or_true, if_true, Int.toNat_zero, Nat.zero_add, Nat.one_mul]
  rw [if_pos (by omega), Option.bind_some]
  dsimp only
  unfold arrayCount
  dsimp only
  rw [hcut, hused]
  have hcompare : resize (l.length + 1 + 1) [some first] =
      some first :: none :: List.replicate l.length none := by
    unfold resize
    rw [List.length_singleton, Nat.add_sub_cancel, List.replicate_succ, List.cons_append,
      List.nil_append, List.take_of_length_le (by simp)]
  rw [hcompare, findPlace, compareKeys, if_neg (Ne.symm (hnew first List.mem_cons_self))]
  by_cases hlt : key first < key item
  · rw [if_pos hlt, if_neg (by decide), if_neg (by decide), findPlace]
    rfl
  · rw [if_neg hlt, if_neg (by decide), if_pos (by decide), Option.bind_some]
    dsimp only
    rw [if_neg (by simp)]
    unfold putItem
    dsimp only
    rw [hused, if_pos (by simp), if_neg (by rw [List.length_singleton]; omega)]
    rfl

theorem perm_inserted (key : α → ℕ) (item : α) (l items : List α) :
    (inserted key item l ++ items).Perm (l ++ item :: items) :=
  ((List.perm_orderedInsert _ item l).append_right items).trans List.perm_middle.symm

/-- The number of a new item is that of no other one. -/
theorem ne_of_nodup {key : α → ℕ} {item : α} {l items : List α}
    (hnodup : ((l ++ item :: items).map key).Nodup) : ∀ other ∈ l, key other ≠ key item := by
  intro other hother heq
  rw [List.map_append, List.nodup_append] at hnodup
  exact hnodup.2.2 _ (List.mem_map_of_mem hother) _ (List.mem_map_of_mem List.mem_cons_self) heq

/-- **Items with numbers of their own are put in order.** -/
theorem insertAll_stores {zero : α} {key : α → ℕ} {items l : List α} {array : ItemArray α}
    (h : Stores array l) (hsized : Sized array) (hsorted : l.Pairwise fun a b => key a ≤ key b)
    (hnodup : ((l ++ items).map key).Nodup) (hcount : l.length + items.length ≤ 32769) :
    ∃ array' l', insertAll zero (compareKeys key) items array = some (.ok array') ∧
      Stores array' l' ∧ l'.Perm (l ++ items) ∧ l'.Pairwise fun a b => key a ≤ key b := by
  induction items generalizing l array with
  | nil => exact ⟨array, l, rfl, h, by rw [List.append_nil], hsorted⟩
  | cons item items ih =>
      obtain ⟨i, next, hinsert, -, hstores, hnext, -⟩ :=
        @arrayInsertSorted_new α zero item array l key h hsized (ne_of_nodup hnodup)
      have hperm := perm_inserted key item l items
      have hlength := (List.perm_orderedInsert (fun a b => key a ≤ key b) item l).length_eq
      rw [List.length_cons] at hcount hlength
      have hordered : (inserted key item l).Pairwise fun a b => key a ≤ key b := by
        have : Std.Total fun a b : α => key a ≤ key b := ⟨fun a b => Nat.le_total _ _⟩
        have : IsTrans α fun a b : α => key a ≤ key b := ⟨fun _ _ _ => Nat.le_trans⟩
        exact List.Pairwise.orderedInsert item l hsorted
      rw [insertAll, hinsert, Option.bind_some]
      cases items with
      | nil =>
          rw [List.append_nil] at hperm
          exact ⟨next, _, rfl, hstores, hperm, hordered⟩
      | cons other items =>
          rw [List.length_cons] at hcount
          obtain ⟨array', l', hall, hstores', hperm', hsorted'⟩ := ih hstores
            (hnext (by omega)) hordered ((hperm.map key).nodup_iff.2 hnodup) (by
              rw [inserted, hlength, List.length_cons]
              omega)
          exact ⟨array', l', hall, hstores', hperm'.trans hperm, hsorted'⟩

/-- More than 32769 items are not inserted. -/
theorem insertAll_overflow {zero : α} {key : α → ℕ} {items l : List α} {array : ItemArray α}
    (h : Stores array l) (hsized : Sized array) (hnodup : ((l ++ items).map key).Nodup)
    (hless : l.length ≤ 32768) (hcount : 32769 < l.length + items.length) :
    insertAll zero (compareKeys key) items array = none := by
  induction items generalizing l array with
  | nil =>
      rw [List.length_nil] at hcount
      omega
  | cons item items ih =>
      obtain ⟨i, next, hinsert, hsize, hstores, hnext, hzero⟩ :=
        @arrayInsertSorted_new α zero item array l key h hsized (ne_of_nodup hnodup)
      have hnodup' := ((perm_inserted key item l items).map key).nodup_iff.2 hnodup
      have hlength : (inserted key item l).length = l.length + 1 :=
        (List.perm_orderedInsert (fun a b => key a ≤ key b) item l).length_eq
      rw [List.length_cons] at hcount
      rw [insertAll, hinsert, Option.bind_some]
      dsimp only
      rcases Nat.lt_or_eq_of_le hless with hlt | heq
      · exact ih hstores (hnext hlt) hnodup' (by omega) (by omega)
      · -- this item has doubled the array to 65536 items
        cases items with
        | nil =>
            rw [List.length_nil] at hcount
            omega
        | cons other items =>
            rw [insertAll, arrayInsertSorted_overflow hstores (hsize ▸ hsized.itemSize)
              (hzero heq) (by omega) (ne_of_nodup hnodup')]
            rfl

/-- A new array. -/
theorem newArray_stores (zero : α) (itemSize e : ℕ) (hsize : itemSize ≤ 2 ^ 12) (he : e ≤ 15) :
    Stores (newArray zero (2 ^ e) itemSize) [] ∧ Sized (newArray zero (2 ^ e) itemSize) := by
  have hle := Nat.pow_le_pow_right (show 0 < 2 by decide) he
  have hstored : (UInt16.ofNat (2 ^ e)).toNat = 2 ^ e := by
    rw [UInt16.toNat_ofNat', Nat.mod_eq_of_lt (by omega)]
  refine ⟨⟨rfl, rfl⟩, ⟨?_, ?_, e, he, hstored⟩⟩
  · dsimp only [newArray]
    rw [UInt16.toNat_ofNat']
    exact (Nat.mod_le _ _).trans hsize
  · dsimp only [newArray]
    rw [List.length_replicate, hstored]

/-- **A list that is inserted in a new array**, in any order, is stored in its own order, if it
has no more than 32769 items. -/
theorem insertAll_new {zero : α} {key : α → ℕ} {items ordered : List α} {itemSize e : ℕ}
    (hsize : itemSize ≤ 2 ^ 12) (he : e ≤ 15)
    (hordered : ordered.Pairwise fun a b => key a < key b) (hperm : items.Perm ordered) :
    (ordered.length ≤ 32769 → ∃ array, insertAll zero (compareKeys key) items
        (newArray zero (2 ^ e) itemSize) = some (.ok array) ∧ array.contents = some ordered) ∧
      (32769 < ordered.length → insertAll zero (compareKeys key) items
        (newArray zero (2 ^ e) itemSize) = none) := by
  obtain ⟨hstores, hsized⟩ := newArray_stores zero itemSize e hsize he
  have hlength := hperm.length_eq
  have hnodup : (([] ++ items).map key).Nodup :=
    (hperm.map key).nodup_iff.2 (List.pairwise_map.2 (hordered.imp fun h => Nat.ne_of_lt h))
  refine ⟨fun hle => ?_, fun hlt => ?_⟩
  · obtain ⟨array, l, hall, hstored, hl, hsorted⟩ :=
      @insertAll_stores α zero key items [] _ hstores hsized List.Pairwise.nil hnodup (by
        rw [List.length_nil]
        omega)
    refine ⟨array, hall, ?_⟩
    rw [hstored.contents]
    refine congrArg some ((hl.trans hperm).eq_of_pairwise (fun a b ha hb hab hba => ?_) hsorted
      (hordered.imp fun h => Nat.le_of_lt h))
    -- two items of the list with one number are the same
    have hinj := List.inj_on_of_nodup_map ((hl.map key).nodup_iff.2 hnodup)
    exact hinj ha ((hl.trans hperm).mem_iff.2 hb) (Nat.le_antisymm hab hba)
  · exact insertAll_overflow hstores hsized hnodup (Nat.zero_le _) (by
      rw [List.length_nil]
      omega)

end Common
end AergoLite
