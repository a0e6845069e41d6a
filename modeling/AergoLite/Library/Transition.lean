/-
# Labelled transition systems

A system is a set of initial states and a step relation labelled by actions.
A run is a list of actions, and a state is reachable when a run from an initial
state ends in it.  Three rules carry every safety argument:

* `Invariant.reachable`: what holds initially and is kept by each step holds of
  every reachable state;
* `Invariant.relative`: the step may use an invariant proved before;
* `System.restrict`: the runs whose steps all meet a condition are the runs of
  another system, so the two rules above are about them as well.

What only some steps bring about holds at the end of a run if it held before, or if one
of these steps is in the run (`iff_of_run`).

`System.ofStep` makes a system of a partial step function, whose runs can be
evaluated (`reachable_of_run`).
-/

import Mathlib.Tactic.SplitIfs
import Mathlib.Tactic.TypeStar

namespace Transition

/-- A labelled transition system: initial states and a step relation. -/
structure System (σ α : Type*) where
  init : σ → Prop
  step : σ → α → σ → Prop

namespace System

variable {σ α : Type*}

/-- The states a system reaches. -/
inductive Reachable (T : System σ α) : σ → Prop
  | init {s : σ} (h : T.init s) : Reachable T s
  | step {s t : σ} (a : α) (h : Reachable T s) (hs : T.step s a t) : Reachable T t

/-- The runs of `T` in which every step meets the condition `P`. -/
def restrict (T : System σ α) (P : σ → α → Prop) : System σ α where
  init := T.init
  step s a t := P s a ∧ T.step s a t

/-- **A restricted run is a run.** -/
theorem Reachable.of_restrict {T : System σ α} {P : σ → α → Prop} {s : σ}
    (h : (T.restrict P).Reachable s) : T.Reachable s := by
  induction h with
  | init h => exact .init h
  | step a _ hs ih => exact .step a ih hs.2

/-- The runs from a state on. -/
def after (T : System σ α) (s : σ) : System σ α where
  init t := t = s
  step := T.step

/-- An inductive invariant. -/
structure Invariant (T : System σ α) (I : σ → Prop) : Prop where
  init : ∀ s, T.init s → I s
  step : ∀ s a t, I s → T.step s a t → I t

/-- **An inductive invariant holds of every reachable state.** -/
theorem Invariant.reachable {T : System σ α} {I : σ → Prop} (hI : T.Invariant I) {s : σ}
    (h : T.Reachable s) : I s := by
  induction h with
  | init h => exact hI.init _ h
  | step a _ hs ih => exact hI.step _ a _ ih hs

/-- **An invariant relative to another one.**  A step may assume `J`, which is
already known to be an invariant. -/
theorem Invariant.relative {T : System σ α} {J I : σ → Prop} (hJ : T.Invariant J)
    (init : ∀ s, T.init s → I s) (step : ∀ s a t, J s → I s → T.step s a t → I t) :
    T.Invariant fun s => J s ∧ I s where
  init s h := ⟨hJ.init s h, init s h⟩
  step s a t h hs := ⟨hJ.step s a t h.1 hs, step s a t h.1 h.2 hs⟩

/-- An invariant of a system is one of its restricted runs. -/
theorem Invariant.restrict {T : System σ α} {I : σ → Prop} (hI : T.Invariant I)
    (P : σ → α → Prop) : (T.restrict P).Invariant I where
  init := hI.init
  step s a t h hs := hI.step s a t h hs.2

/-- The system of a partial step function: an action that `step` refuses is not
taken. -/
def ofStep (init : σ → Prop) (step : σ → α → Option σ) : System σ α where
  init := init
  step s a t := step s a = some t

/-- The state a list of actions leads to, if every one of them is taken. -/
def run (step : σ → α → Option σ) : σ → List α → Option σ
  | s, [] => some s
  | s, a :: as => (step s a).bind fun t => run step t as

/-- A run from a reachable state ends in a reachable state, if what `step` does is a
step of the system. -/
theorem Reachable.run {T : System σ α} {step : σ → α → Option σ}
    (hstep : ∀ {s a t}, step s a = some t → T.step s a t) {s t : σ} {as : List α}
    (h : T.Reachable s) (hr : System.run step s as = some t) : T.Reachable t := by
  induction as generalizing s with
  | nil => exact Option.some.inj hr ▸ h
  | cons a as ih =>
      obtain ⟨u, hu, hr⟩ := Option.bind_eq_some_iff.1 hr
      exact ih (.step a h (hstep hu)) hr

/-- **What a run evaluates to is reachable.** -/
theorem reachable_of_run {init : σ → Prop} {step : σ → α → Option σ} {s t : σ} {as : List α}
    (h : init s) (hr : run step s as = some t) : (ofStep init step).Reachable t :=
  Reachable.run id (.init h) hr

/-- **A simulation.**  If each step that is taken is one that another machine takes as well, so
is each run. -/
theorem simulates_of_run {τ : Type*} {step : σ → α → Option σ} {next : τ → α → τ}
    {R : σ → τ → Prop}
    (hstep : ∀ {s a t u}, R s u → step s a = some t → R t (next u a)) {s t : σ} {u : τ}
    {as : List α} (hR : R s u) (hr : run step s as = some t) : R t (as.foldl next u) := by
  induction as generalizing s u with
  | nil => exact Option.some.inj hr ▸ hR
  | cons a as ih =>
      obtain ⟨v, hv, hr⟩ := Option.bind_eq_some_iff.1 hr
      exact ih (hstep hR hv) hr

/-- A step function that refuses the actions a condition does not allow. -/
def checked (P : σ → α → Bool) (step : σ → α → Option σ) (s : σ) (a : α) : Option σ :=
  if P s a then step s a else none

/-- What a checked run evaluates to is reachable in the restricted system. -/
theorem reachable_restrict_of_run {init : σ → Prop} {step : σ → α → Option σ}
    {P : σ → α → Prop} {check : σ → α → Bool} (hcheck : ∀ {s a}, check s a = true → P s a)
    {s t : σ} {as : List α} (h : init s) (hr : run (checked check step) s as = some t) :
    ((ofStep init step).restrict P).Reachable t := by
  refine Reachable.run (fun {s a t} hs => ?_) (.init h) hr
  unfold checked at hs
  split_ifs at hs with hP
  exact ⟨hcheck hP, hs⟩

/-- A checked run is a run. -/
theorem run_of_checked {step : σ → α → Option σ} {check : σ → α → Bool} {s t : σ} {as : List α}
    (hr : run (checked check step) s as = some t) : run step s as = some t := by
  induction as generalizing s with
  | nil => exact hr
  | cons a as ih =>
      obtain ⟨u, hu, hr⟩ := Option.bind_eq_some_iff.1 hr
      unfold checked at hu
      split_ifs at hu
      exact Option.bind_eq_some_iff.2 ⟨u, hu, ih hr⟩

/-- A step of a run meets a condition. -/
inductive Meets (step : σ → α → Option σ) (Q : σ → α → Prop) : σ → List α → Prop
  | here {s : σ} {a : α} {as : List α} (h : Q s a) : Meets step Q s (a :: as)
  | later {s t : σ} {a : α} {as : List α} (hs : step s a = some t) (h : Meets step Q t as) :
      Meets step Q s (a :: as)

/-- The first step meets the condition, or one of the others. -/
theorem Meets.cons_iff {step : σ → α → Option σ} {Q : σ → α → Prop} {s t : σ} {a : α}
    {as : List α} (hs : step s a = some t) :
    Meets step Q s (a :: as) ↔ Q s a ∨ Meets step Q t as := by
  constructor
  · rintro (h | ⟨hs', h⟩)
    · exact .inl h
    · obtain rfl := Option.some.inj (hs.symm.trans hs')
      exact .inr h
  · rintro (h | h)
    · exact .here h
    · exact .later hs h

/-- **What a run brings about.**  What each step leaves as it is, unless the step meets a
condition, holds at the end of a run if and only if it held before, or a step of the run
meets the condition. -/
theorem iff_of_run {step : σ → α → Option σ} {I R : σ → Prop} {C : α → Prop}
    {Q : σ → α → Prop}
    (hstep : ∀ {s a t}, I s → C a → step s a = some t → I t ∧ (R t ↔ R s ∨ Q s a))
    {s t : σ} {as : List α} (hI : I s) (hC : ∀ a ∈ as, C a) (hr : run step s as = some t) :
    I t ∧ (R t ↔ R s ∨ Meets step Q s as) := by
  induction as generalizing s with
  | nil =>
      obtain rfl := Option.some.inj hr
      exact ⟨hI, .inl, fun h => h.resolve_right nofun⟩
  | cons a as ih =>
      rw [List.forall_mem_cons] at hC
      obtain ⟨u, hu, hr⟩ := Option.bind_eq_some_iff.1 hr
      obtain ⟨hIu, hone⟩ := hstep hI hC.1 hu
      obtain ⟨hIt, hrest⟩ := ih hIu hC.2 hr
      refine ⟨hIt, hrest.trans ?_⟩
      rw [hone, or_assoc, Meets.cons_iff hu]

/-- A condition that no step meets under an invariant is met by no step of a run. -/
theorem not_meets {step : σ → α → Option σ} {I : σ → Prop} {C : α → Prop} {Q : σ → α → Prop}
    (hstep : ∀ {s a t}, I s → C a → step s a = some t → I t)
    (hnot : ∀ {s a}, I s → C a → ¬Q s a) {s : σ} {as : List α} (hI : I s)
    (hC : ∀ a ∈ as, C a) : ¬Meets step Q s as := by
  intro h
  induction h with
  | here h => exact hnot hI (hC _ List.mem_cons_self) h
  | later hs _ ih =>
      rw [List.forall_mem_cons] at hC
      exact ih (hstep hI hC.1 hs) hC.2

/-- Every step of a run meets a condition. -/
def Along (step : σ → α → Option σ) (P : σ → α → Prop) : σ → List α → Prop
  | _, [] => True
  | s, a :: as => P s a ∧ ∀ t, step s a = some t → Along step P t as

theorem Along.mono {step : σ → α → Option σ} {P Q : σ → α → Prop} {s : σ} {as : List α}
    (h : Along step P s as) (hQ : ∀ {s a}, P s a → Q s a) : Along step Q s as := by
  induction as generalizing s with
  | nil => trivial
  | cons a as ih => exact ⟨hQ h.1, fun t ht => ih (h.2 t ht)⟩

/-- A checked run meets its condition throughout. -/
theorem along_of_checked {step : σ → α → Option σ} {P : σ → α → Prop} {check : σ → α → Bool}
    (hcheck : ∀ {s a}, check s a = true → P s a) {s t : σ} {as : List α}
    (hr : run (checked check step) s as = some t) : Along step P s as := by
  induction as generalizing s with
  | nil => trivial
  | cons a as ih =>
      obtain ⟨u, hu, hr⟩ := Option.bind_eq_some_iff.1 hr
      unfold checked at hu
      split_ifs at hu with hP
      refine ⟨hcheck hP, fun v hv => ?_⟩
      obtain rfl := Option.some.inj (hu.symm.trans hv)
      exact ih hr

/-- What holds where an action of the run is taken is met by a step of it. -/
theorem Along.meets {step : σ → α → Option σ} {P Q : σ → α → Prop} {s t : σ} {a : α}
    {as : List α} (h : Along step P s as) (hr : run step s as = some t) (ha : a ∈ as)
    (hQ : ∀ s, P s a → Q s a) : Meets step Q s as := by
  induction as generalizing s with
  | nil => simp at ha
  | cons b as ih =>
      obtain ⟨u, hu, hr⟩ := Option.bind_eq_some_iff.1 hr
      rcases List.mem_cons.1 ha with rfl | ha
      · exact .here (hQ s h.1)
      · exact .later hu (ih (h.2 u hu) hr ha)

/-- **What an action of a run brings about** and the other steps keep holds at its end. -/
theorem Along.brings {step : σ → α → Option σ} {P : σ → α → Prop} {I : σ → Prop} {s t : σ}
    {a : α} {as : List α} (h : Along step P s as) (hr : run step s as = some t) (ha : a ∈ as)
    (hkeep : ∀ {s a t}, I s → step s a = some t → I t)
    (hbring : ∀ {s t}, P s a → step s a = some t → I t) : I t := by
  have hrest : ∀ {s t : σ} {as : List α}, I s → run step s as = some t → I t := by
    intro s t as hI hr
    induction as generalizing s with
    | nil => exact Option.some.inj hr ▸ hI
    | cons b as ih =>
        obtain ⟨u, hu, hr⟩ := Option.bind_eq_some_iff.1 hr
        exact ih (hkeep hI hu) hr
  induction as generalizing s with
  | nil => simp at ha
  | cons b as ih =>
      obtain ⟨u, hu, htail⟩ := Option.bind_eq_some_iff.1 hr
      rcases List.mem_cons.1 ha with rfl | ha
      · exact hrest (hbring h.1 hu) htail
      · exact ih (h.2 u hu) htail ha

end System
end Transition
