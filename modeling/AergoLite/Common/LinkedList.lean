/-
# Intrusive linked lists

`common/linked_list.c`: an item of a list begins with the pointer to the next one.  The
memory is a function `next` of the items; a loop over the items is bounded by `fuel`, and
`none` means that it did not end.  `IsList` says that a pointer heads a list that ends,
with the items of a `List`; on such lists `llist_add` appends one list to another and
`llist_remove` erases an item, and both end (`llistAdd_spec`, `llistRemove_spec`).
-/

import Mathlib.Data.List.Basic
import Mathlib.Data.List.Nodup
import Mathlib.Logic.Function.Basic

namespace AergoLite
namespace Common

variable {α : Type*}

section
variable [DecidableEq α] (fuel : ℕ) (next : α → Option α)

/-- The loop of `llist_add`: the last item. -/
def lastItem (next : α → Option α) : ℕ → α → Option α
  | 0, _ => none
  | fuel + 1, item =>
    match next item with
    | none => some item
    | some item => lastItem next fuel item

/-- The loop of `llist_remove`: the item before `toDel`, if there is one. -/
def itemBefore (next : α → Option α) (toDel : α) : ℕ → Option α → Option (Option α)
  | 0, _ => none
  | _ + 1, none => some none
  | fuel + 1, some item =>
    if next item = some toDel then some (some item) else itemBefore next toDel fuel (next item)

/-- `llist_add`. -/
def llistAdd (first : Option α) (toAdd : α) : Option (Option α × (α → Option α)) :=
  match first with
  | none => some (some toAdd, next)
  | some item =>
    (lastItem next fuel item).map fun last => (first, Function.update next last (some toAdd))

/-- `llist_remove`. -/
def llistRemove (first : Option α) (toDel : α) : Option (Option α × (α → Option α)) :=
  if first = some toDel then some (next toDel, Function.update next toDel none)
  else (itemBefore next toDel fuel first).map fun item =>
    match item with
    | none => (first, Function.update next toDel none)
    | some item => (first, Function.update (Function.update next item (next toDel)) toDel none)

end

/-- A pointer heads a list of items. -/
inductive IsList (next : α → Option α) : Option α → List α → Prop
  | nil : IsList next none []
  | cons {a : α} {as : List α} (rest : IsList next (next a) as) : IsList next (some a) (a :: as)

namespace IsList

variable {next next' : α → Option α} {first : Option α} {as bs : List α}

/-- The items are determined. -/
theorem unique (h : IsList next first as) (h' : IsList next first bs) : as = bs := by
  induction h generalizing bs with
  | nil =>
      cases h'
      rfl
  | cons _ ih =>
      cases h' with
      | cons rest => rw [ih rest]

/-- What follows an item is a list. -/
theorem after {a : α} (h : IsList next first (as ++ a :: bs)) :
    IsList next (some a) (a :: bs) := by
  induction as generalizing first with
  | nil =>
      cases h with
      | cons rest => exact .cons rest
  | cons _ as ih =>
      cases h with
      | cons rest => exact ih rest

/-- **No item is in a list twice.** -/
theorem nodup (h : IsList next first as) : as.Nodup := by
  induction h with
  | nil => exact List.nodup_nil
  | @cons a as rest ih =>
      refine List.nodup_cons.2 ⟨fun hmem => ?_, ih⟩
      -- the rest of the list would be the list again
      obtain ⟨before, behind, rfl⟩ := List.append_of_mem hmem
      have hsame := congrArg List.length (rest.after.unique (.cons rest))
      simp only [List.length_cons, List.length_append] at hsame
      omega

/-- A pointer heads the list with its item only. -/
theorem head_ne {a : α} (h : IsList next first (as ++ a :: bs)) (has : as ≠ []) :
    first ≠ some a := by
  rintro rfl
  have hsame := congrArg List.length (h.unique h.after)
  have hlength := List.length_pos_iff.2 has
  simp only [List.length_append, List.length_cons] at hsame
  omega

/-- The list does not depend on the pointers of other items. -/
theorem congr (h : IsList next first as) (heq : ∀ a ∈ as, next' a = next a) :
    IsList next' first as := by
  induction h with
  | nil => exact .nil
  | @cons a as _ ih =>
      rw [List.forall_mem_cons] at heq
      refine .cons ?_
      rw [heq.1]
      exact ih heq.2

/-- A pointer of the list is set to the head of another. -/
theorem relink [DecidableEq α] {item : α} {rest : List α} {second : Option α}
    (h : IsList next first (as ++ item :: rest)) (h' : IsList next second bs) (hitem : item ∉ bs) :
    IsList (Function.update next item second) first (as ++ item :: bs) := by
  have htail : IsList (Function.update next item second) second bs :=
    h'.congr fun b hb => Function.update_of_ne (ne_of_mem_of_not_mem hb hitem) _ _
  induction as generalizing first with
  | nil =>
      cases h
      refine .cons ?_
      rwa [Function.update_self]
  | cons a as ih =>
      have hne : a ≠ item := fun heq => by
        have hnodup := h.nodup
        simp [heq] at hnodup
      cases h with
      | cons rest =>
          refine .cons ?_
          rw [Function.update_of_ne hne]
          exact ih rest

end IsList

section
variable {next : α → Option α} {first : Option α} {as bs : List α}

theorem lastItem_eq {item last : α} (h : IsList next (some item) (as ++ [last])) {fuel : ℕ}
    (hfuel : as.length < fuel) : lastItem next fuel item = some last := by
  induction as generalizing item fuel with
  | nil =>
      obtain ⟨fuel, rfl⟩ : ∃ n, fuel = n + 1 := ⟨fuel - 1, by omega⟩
      cases h with
      | cons rest =>
          have hnone : next last = none := by
            generalize next last = second at rest
            cases rest
            rfl
          rw [lastItem, hnone]
  | cons a as ih =>
      obtain ⟨fuel, rfl⟩ : ∃ n, fuel = n + 1 := ⟨fuel - 1, by omega⟩
      cases h with
      | cons rest =>
          cases hnext : next a with
          | none =>
              rw [hnext] at rest
              cases as <;> cases rest
          | some other =>
              rw [hnext] at rest
              rw [lastItem, hnext]
              exact ih rest (by simpa using hfuel)

variable [DecidableEq α]

theorem itemBefore_eq {a b : α} (h : IsList next first (as ++ b :: a :: bs)) {fuel : ℕ}
    (hfuel : as.length < fuel) : itemBefore next a fuel first = some (some b) := by
  have hnodup := h.nodup
  induction as generalizing first fuel with
  | nil =>
      obtain ⟨fuel, rfl⟩ : ∃ n, fuel = n + 1 := ⟨fuel - 1, by omega⟩
      cases h with
      | cons rest =>
          have hnext : next b = some a := by
            generalize next b = second at rest
            cases rest
            rfl
          rw [itemBefore, if_pos hnext]
  | cons c as ih =>
      obtain ⟨fuel, rfl⟩ : ∃ n, fuel = n + 1 := ⟨fuel - 1, by omega⟩
      cases h with
      | cons rest =>
          have hnext : next c ≠ some a := by
            change IsList next (next c) (as ++ b :: a :: bs) at rest
            rw [List.append_cons] at rest
            exact rest.head_ne (by simp)
          rw [itemBefore, if_neg hnext]
          exact ih rest (by simpa using hfuel) (List.nodup_cons.1 hnodup).2

/-- **`llist_add` appends a list.** -/
theorem llistAdd_spec {b : α} (h : IsList next first as) (h' : IsList next (some b) (b :: bs))
    (hdisjoint : as.Disjoint (b :: bs)) {fuel : ℕ} (hfuel : as.length ≤ fuel) :
    ∃ r, llistAdd fuel next first b = some r ∧ IsList r.2 r.1 (as ++ b :: bs) ∧
      ∀ x ∉ as, r.2 x = next x := by
  rcases List.eq_nil_or_concat' as with rfl | ⟨init, last, rfl⟩
  · cases h
    exact ⟨(some b, next), rfl, h', fun _ _ => rfl⟩
  · have hnotmem : last ∉ b :: bs := fun hmem => hdisjoint (by simp) hmem
    obtain ⟨item, rfl⟩ : ∃ item, first = some item := by
      cases first with
      | none =>
          cases init <;> cases h
      | some item => exact ⟨item, rfl⟩
    rw [List.length_append, List.length_singleton] at hfuel
    have hlast := lastItem_eq h hfuel
    refine ⟨(some item, Function.update next last (some b)), ?_, ?_, fun x hx => ?_⟩
    · rw [llistAdd, hlast]
      rfl
    · rw [List.append_assoc]
      exact h.relink h' hnotmem
    · exact Function.update_of_ne (fun heq => hx (by simp [heq])) _ _

/-- **`llist_remove` erases an item**, whose pointer is cleared. -/
theorem llistRemove_spec {a : α} (h : IsList next first as) (ha : a ∈ as) {fuel : ℕ}
    (hfuel : as.length ≤ fuel) :
    ∃ r, llistRemove fuel next first a = some r ∧ IsList r.2 r.1 (as.erase a) ∧ r.2 a = none ∧
      ∀ x ∉ as, r.2 x = next x := by
  have hnodup := h.nodup
  obtain ⟨init, rest, rfl⟩ := List.append_of_mem ha
  have hrest : IsList next (next a) rest := by
    cases h.after with
    | cons rest => exact rest
  have hinit : a ∉ init := fun hmem => by
    exact List.disjoint_of_nodup_append hnodup hmem List.mem_cons_self
  have hnotrest : a ∉ rest := (List.nodup_cons.1 hnodup.of_append_right).1
  rw [List.erase_append_right _ hinit, List.erase_cons_head]
  rcases List.eq_nil_or_concat' init with rfl | ⟨init, b, rfl⟩
  · obtain rfl : first = some a := by
      cases h
      rfl
    refine ⟨(next a, Function.update next a none), if_pos rfl, ?_, Function.update_self .., ?_⟩
    · exact hrest.congr fun x hx => Function.update_of_ne (ne_of_mem_of_not_mem hx hnotrest) _ _
    · exact fun x hx => Function.update_of_ne (fun heq => hx (by simp [heq])) _ _
  · rw [List.append_assoc, List.singleton_append] at *
    have hbefore : itemBefore next a fuel first = some (some b) := by
      refine itemBefore_eq h ?_
      simp only [List.length_append, List.length_cons] at hfuel
      omega
    have hbrest : b ∉ rest := fun hmem => by
      have hb := (List.nodup_cons.1 hnodup.of_append_right).1
      exact hb (List.mem_cons_of_mem _ hmem)
    refine ⟨(first, Function.update (Function.update next b (next a)) a none), ?_, ?_,
      Function.update_self .., fun x hx => ?_⟩
    · have hhead : first ≠ some a := by
        rw [List.append_cons] at h
        exact h.head_ne (by simp)
      rw [llistRemove, if_neg hhead, hbefore]
      rfl
    · refine (h.relink hrest hbrest).congr fun x hx => Function.update_of_ne ?_ _ _
      rintro rfl
      simp only [List.mem_append, List.mem_cons] at hx hinit
      tauto
    · have hne : x ≠ a := fun heq => hx (by simp [heq])
      have hne' : x ≠ b := fun heq => hx (by simp [heq])
      show Function.update (Function.update next b (next a)) a none x = next x
      rw [Function.update_of_ne hne, Function.update_of_ne hne']

end

end Common
end AergoLite
