/-
# C strings in blocks of memory

A C string ends at its first terminator, and a text that is built in an allocated block has to
fit into it with its terminator.  `Buffer` is such a block; `append` is `strcat`, which is
undefined for an absent source and for one that does not fit.  A sequence of appends is defined
exactly when all sources are there and the whole text fits (`appendAll_isOk_iff`).
-/

import Mathlib.Data.List.TakeWhile
import Mathlib.Tactic.Cases

namespace CString

variable {α : Type*}

/-- What an append does that C leaves undefined. -/
inductive Fault
  /-- The source is a null pointer. -/
  | absent
  /-- The text and its terminator do not fit. -/
  | overflow
  deriving DecidableEq, Repr

/-- The text that `strlen` and `strcat` see: what comes before the first terminator. -/
def upToTerminator [DecidableEq α] (terminator : α) (s : List α) : List α :=
  s.takeWhile (· ≠ terminator)

theorem length_upToTerminator_le [DecidableEq α] (terminator : α) (s : List α) :
    (upToTerminator terminator s).length ≤ s.length := (List.takeWhile_prefix _).length_le

theorem upToTerminator_eq [DecidableEq α] {terminator : α} {s : List α} (h : terminator ∉ s) :
    upToTerminator terminator s = s := by
  refine List.takeWhile_eq_self_iff.2 fun a ha => ?_
  rw [decide_eq_true_iff]
  exact fun heq => h (heq ▸ ha)

/-- A block of memory with a text and its terminator. -/
structure Buffer (α : Type*) (capacity : ℕ) where
  text : List α
  fits : text.length < capacity

namespace Buffer

variable {capacity : ℕ}

/-- `strcat`. -/
def append (b : Buffer α capacity) : Option (List α) → Except Fault (Buffer α capacity)
  | none => .error .absent
  | some s =>
    if h : (b.text ++ s).length < capacity then .ok ⟨b.text ++ s, h⟩ else .error .overflow

/-- One append after the other. -/
def appendAll (b : Buffer α capacity) (sources : List (Option (List α))) :
    Except Fault (Buffer α capacity) := sources.foldlM append b

theorem append_eq_ok_iff {b b' : Buffer α capacity} {source : Option (List α)} :
    b.append source = .ok b' ↔ ∃ s : List α, source = some s ∧ b'.text = b.text ++ s := by
  cases source with
  | none => simp [append]
  | some s =>
      dsimp only [append]
      split_ifs with hfits
      · constructor
        · intro h
          obtain rfl := Except.ok.inj h
          exact ⟨s, rfl, rfl⟩
        · rintro ⟨_, hs, htext⟩
          obtain rfl := Option.some.inj hs
          congr 1
          cases b'
          congr 1
          exact htext.symm
      · constructor
        · intro h
          cases h
        · rintro ⟨_, hs, htext⟩
          obtain rfl := Option.some.inj hs
          exact absurd (htext ▸ b'.fits) hfits

@[simp] theorem appendAll_nil (b : Buffer α capacity) : b.appendAll [] = .ok b := rfl

@[simp] theorem appendAll_cons (b : Buffer α capacity) (source : Option (List α))
    (sources : List (Option (List α))) :
    b.appendAll (source :: sources) = (b.append source).bind (·.appendAll sources) := by
  unfold appendAll
  rw [List.foldlM_cons]
  rfl

/-- **What a sequence of appends builds.** -/
theorem appendAll_eq_ok_iff {b b' : Buffer α capacity} {sources : List (Option (List α))} :
    b.appendAll sources = .ok b' ↔
      ∃ texts : List (List α), sources = texts.map some ∧ b'.text = b.text ++ texts.flatten := by
  induction sources generalizing b with
  | nil =>
      constructor
      · intro h
        obtain rfl := Except.ok.inj h
        exact ⟨[], rfl, by simp⟩
      · rintro ⟨texts, hnil, htext⟩
        obtain rfl : texts = [] := by simpa using hnil.symm
        cases b
        cases b'
        simp_all
  | cons source sources ih =>
      rw [appendAll_cons]
      constructor
      · intro h
        cases hone : b.append source with
        | error e =>
            rw [hone] at h
            cases h
        | ok one =>
            rw [hone] at h
            obtain ⟨s, rfl, hs⟩ := append_eq_ok_iff.1 hone
            obtain ⟨texts, rfl, htext⟩ := ih.1 h
            exact ⟨s :: texts, rfl, by rw [htext, hs, List.flatten_cons, List.append_assoc]⟩
      · rintro ⟨texts, hcons, htext⟩
        cases texts with
        | nil => cases hcons
        | cons s texts =>
            obtain ⟨rfl, rfl⟩ := List.cons.inj hcons
            have hlength := b'.fits
            rw [htext, List.flatten_cons, ← List.append_assoc, List.length_append] at hlength
            have hone : b.append (some s) = .ok ⟨b.text ++ s, by omega⟩ :=
              append_eq_ok_iff.2 ⟨s, rfl, rfl⟩
            rw [hone]
            exact ih.2 ⟨texts, rfl, by rw [htext, List.flatten_cons, List.append_assoc]⟩

/-- **When a sequence of appends is defined.** -/
theorem appendAll_isOk_iff {b : Buffer α capacity} {sources : List (Option (List α))} :
    (∃ b', b.appendAll sources = .ok b') ↔
      ∃ texts : List (List α), sources = texts.map some ∧ (b.text ++ texts.flatten).length < capacity := by
  constructor
  · rintro ⟨b', h⟩
    obtain ⟨texts, hsources, htext⟩ := appendAll_eq_ok_iff.1 h
    exact ⟨texts, hsources, htext ▸ b'.fits⟩
  · rintro ⟨texts, hsources, hfits⟩
    exact ⟨⟨_, hfits⟩, appendAll_eq_ok_iff.2 ⟨texts, hsources, rfl⟩⟩

end Buffer
end CString
