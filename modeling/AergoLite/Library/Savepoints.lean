/-
# Nested savepoints

The transaction of a database connection, as far as it can be undone: the content that a
rollback brings back, and the savepoints that are open, innermost first, each with the
content it saved.  A savepoint is found by its name, the innermost one of several.

`Nesting.Over name w n m` says that the savepoint found by a name saved `w` and was opened
over the nesting `m`.  This is all that a release (`release_eq_some_iff`) and a rollback
(`rollbackTo_eq_some_iff`) depend on, and commands that use other names keep it
(`Over.savepoint`, `Over.release_other`, `Over.rollbackTo_other`).
-/

import Mathlib.Tactic.Common

namespace Savepoints

/-- What a connection can go back to.  There is no transaction if there is neither a `BEGIN`
nor a savepoint. -/
@[ext] structure Nesting (ν W : Type*) where
  /-- The content at `BEGIN`. -/
  begun : Option W
  savepoints : List (ν × W)

variable {ν W : Type*} [DecidableEq ν]

/-- The innermost savepoint of a name: what it saved, and the savepoints that are older. -/
def find (name : ν) : List (ν × W) → Option (W × List (ν × W))
  | [] => none
  | (other, w) :: older => if other = name then some (w, older) else find name older

namespace Nesting

variable {name other : ν} {w w' : W} {n n' m m' : Nesting ν W}

/-- `SAVEPOINT name`, at a content. -/
def savepoint (name : ν) (w : W) (n : Nesting ν W) : Nesting ν W :=
  { n with savepoints := (name, w) :: n.savepoints }

/-- `RELEASE SAVEPOINT name`. -/
def release (name : ν) (n : Nesting ν W) : Option (Nesting ν W) :=
  (find name n.savepoints).map fun r => { n with savepoints := r.2 }

/-- `ROLLBACK TO SAVEPOINT name`: the content, and the nesting.  The savepoint stays open. -/
def rollbackTo (name : ν) (n : Nesting ν W) : Option (W × Nesting ν W) :=
  (find name n.savepoints).map fun r => (r.1, { n with savepoints := (name, r.1) :: r.2 })

/-- There is no transaction. -/
def closed : Nesting ν W := ⟨none, []⟩

/-- What a rollback of the transaction brings back: the content at its begin. -/
def origin (w : W) (n : Nesting ν W) : W :=
  (n.begun <|> n.savepoints.getLast?.map Prod.snd).getD w

/-- No savepoint of the name is open. -/
def Free (name : ν) (n : Nesting ν W) : Prop := find name n.savepoints = none

instance : Decidable (n.Free name) :=
  decidable_of_iff ((find name n.savepoints).isNone = true) Option.isNone_iff_eq_none

/-- The savepoint of `n` with the name saved `w` and was opened over `m`. -/
structure Over (name : ν) (w : W) (n m : Nesting ν W) : Prop where
  begun : n.begun = m.begun
  find : find name n.savepoints = some (w, m.savepoints)

@[simp] theorem over_savepoint : (m.savepoint name w).Over name w m :=
  ⟨rfl, by simp [savepoint, Savepoints.find]⟩

theorem Over.unique (h : n.Over name w m) (h' : n.Over name w' m') : w = w' ∧ m = m' := by
  have heq := h.find.symm.trans h'.find
  simp only [Option.some.injEq, Prod.mk.injEq] at heq
  exact ⟨heq.1, Nesting.ext (h.begun.symm.trans h'.begun) heq.2⟩

theorem Over.not_free (h : n.Over name w m) : ¬ n.Free name := by
  rw [Free, h.find]
  simp

theorem free_closed : (closed : Nesting ν W).Free name := rfl

theorem exists_over (h : ¬ n.Free name) : ∃ w m, n.Over name w m := by
  obtain ⟨⟨w, older⟩, hfind⟩ := Option.ne_none_iff_exists'.1 h
  exact ⟨w, ⟨n.begun, older⟩, rfl, hfind⟩

omit [DecidableEq ν] in
theorem savepoint_ne : m.savepoint name w ≠ m := by
  intro heq
  have hlength := congrArg (fun n => n.savepoints.length) heq
  simp [savepoint] at hlength

theorem Over.release (h : n.Over name w m) : n.release name = some m := by
  rw [Nesting.release, h.find]
  exact congrArg some (Nesting.ext h.begun rfl)

theorem release_savepoint (name : ν) (w : W) (m : Nesting ν W) :
    (m.savepoint name w).release name = some m := over_savepoint.release

theorem Over.rollbackTo (h : n.Over name w m) :
    n.rollbackTo name = some (w, m.savepoint name w) := by
  rw [Nesting.rollbackTo, h.find]
  exact congrArg some (Prod.ext rfl (Nesting.ext h.begun rfl))

theorem Free.release (h : n.Free name) : n.release name = none := by
  rw [Nesting.release, h]
  rfl

theorem Free.rollbackTo (h : n.Free name) : n.rollbackTo name = none := by
  rw [Nesting.rollbackTo, h]
  rfl

/-- **A release** leaves what the savepoint was opened over. -/
theorem release_eq_some_iff : n.release name = some m ↔ ∃ w, n.Over name w m := by
  constructor
  · intro h
    by_cases hfree : n.Free name
    · rw [hfree.release] at h
      simp at h
    · obtain ⟨w, m', hover⟩ := exists_over hfree
      rw [hover.release, Option.some.injEq] at h
      exact ⟨w, h ▸ hover⟩
  · rintro ⟨w, hover⟩
    exact hover.release

/-- **A rollback** brings back what the savepoint saved, and leaves it open. -/
theorem rollbackTo_eq_some_iff :
    n.rollbackTo name = some (w, n') ↔ ∃ m, n.Over name w m ∧ n' = m.savepoint name w := by
  constructor
  · intro h
    by_cases hfree : n.Free name
    · rw [hfree.rollbackTo] at h
      simp at h
    · obtain ⟨w', m, hover⟩ := exists_over hfree
      rw [hover.rollbackTo, Option.some.injEq, Prod.mk.injEq] at h
      obtain ⟨rfl, rfl⟩ := h
      exact ⟨m, hover, rfl⟩
  · rintro ⟨m, hover, rfl⟩
    exact hover.rollbackTo

/-! ## Commands that use other names -/

theorem Over.savepoint (h : n.Over name w m) (hne : other ≠ name) :
    (n.savepoint other w').Over name w m :=
  ⟨h.begun, by rw [← h.find]; simp [Nesting.savepoint, Savepoints.find, hne]⟩

/-- The savepoints of another name are inside the savepoint, if there is none of that name
among those it was opened over. -/
theorem find_of_find_other {l m older : List (ν × W)} (hfind : find name l = some (w, m))
    (hother : find other l = some (w', older)) (hne : other ≠ name)
    (hfree : find other m = none) : find name older = some (w, m) := by
  induction l with
  | nil => simp [find] at hfind
  | cons e l ih =>
      obtain ⟨inner, w''⟩ := e
      by_cases hinner : inner = name
      · subst hinner
        simp only [find, ite_true, Option.some.injEq, Prod.mk.injEq] at hfind
        obtain ⟨rfl, rfl⟩ := hfind
        simp [find, hne.symm, hfree] at hother
      · rw [find, if_neg hinner] at hfind
        by_cases heq : inner = other
        · simp only [find, heq, ite_true, Option.some.injEq, Prod.mk.injEq] at hother
          rw [← hother.2]
          exact hfind
        · rw [find, if_neg heq] at hother
          exact ih hfind hother

theorem Over.release_other (h : n.Over name w m) (hne : other ≠ name) (hfree : m.Free other)
    (hrelease : n.release other = some n') : n'.Over name w m := by
  obtain ⟨w', hover⟩ := release_eq_some_iff.1 hrelease
  exact ⟨hover.begun.symm.trans h.begun, find_of_find_other h.find hover.find hne hfree⟩

theorem Over.rollbackTo_other (h : n.Over name w m) (hne : other ≠ name) (hfree : m.Free other)
    (hrollback : n.rollbackTo other = some (w', n')) : n'.Over name w m := by
  obtain ⟨m', hover, rfl⟩ := rollbackTo_eq_some_iff.1 hrollback
  exact (h.release_other hne hfree hover.release).savepoint hne

end Nesting

end Savepoints
