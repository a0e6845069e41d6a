/-
# The queue of calls between threads

`plugins/common/uv_callback.c`: a call that one thread fires is kept in a list until the other
takes it.  Callbacks of one loop share the list of their master.  A call is inserted at the head
and taken from the tail.

`dequeue_all_from_callback` removes the calls of a callback that is stopped.  At the head it
clears the pointer of the callback, not the one of the master, and goes on behind an element that
does not exist: it is right if and only if the newest call in the queue is of another callback
(`run_correct_iff`).  The counts of references are left out: no function of the queue reads them.
-/

import AergoLite.Common.LinkedList
import AergoLite.Library.Transition

namespace AergoLite
namespace Common

open Transition

variable {κ δ : Type*}

/-- `uv_call_t`, a call of one of the callbacks `κ` with data `δ`. -/
structure UvCall (κ δ : Type*) where
  callback : κ
  data : Option δ
  freeData : Bool
  notify : Option κ

/-- The memory of the calls, the fields `queue` and `inactive` of each callback, and the data
that has been discarded. -/
structure CallMemory (κ δ : Type*) where
  next : ℕ → Option ℕ
  calls : ℕ → Option (UvCall κ δ)
  queue : κ → Option ℕ
  inactive : κ → Bool
  discarded : List δ

/-- The codes of `uv_callback_fire_ex`. -/
inductive UvCode
  | ok | eperm | enomem
  deriving DecidableEq, Repr

section
variable [DecidableEq κ]

/-- The loop of `dequeue_call`: the last call, and the one before it. -/
def lastCall (next : ℕ → Option ℕ) : ℕ → Option ℕ → ℕ → Option (Option ℕ × ℕ)
  | 0, _, _ => none
  | fuel + 1, prev, current =>
    match next current with
    | none => some (prev, current)
    | some call => lastCall next fuel (some current) call

/-- `dequeue_call`. -/
def dequeueCall (fuel : ℕ) (callback : κ) (m : CallMemory κ δ) :
    Option (Option ℕ × CallMemory κ δ) :=
  match m.queue callback with
  | none => some (none, m)
  | some first =>
    (lastCall m.next fuel none first).map fun (prev, current) =>
      match prev with
      | some prev => (some current, { m with next := Function.update m.next prev none })
      | none => (some current, { m with queue := Function.update m.queue callback none })

/-- `if (call->data && call->free_data) call->free_data(call->data); free(call)`. -/
def discardCall (a : ℕ) (call : UvCall κ δ) (m : CallMemory κ δ) : CallMemory κ δ :=
  { m with
    calls := Function.update m.calls a none
    discarded := m.discarded ++ if call.freeData then call.data.toList else [] }

/-- The loop of `dequeue_all_from_callback`.  Without a previous call it reads `prev->next` of
none. -/
def dequeueLoop (callback : κ) : ℕ → Option ℕ → Option ℕ → CallMemory κ δ →
    Option (CallMemory κ δ)
  | 0, _, _, _ => none
  | _ + 1, _, none, m => some m
  | fuel + 1, prev, some a, m =>
    match m.calls a with
    | none => none
    | some call =>
      if call.callback = callback then
        match prev with
        | none => none
        | some prev =>
          let m := { m with next := Function.update m.next prev (m.next a) }
          dequeueLoop callback fuel (some prev) (m.next prev) (discardCall a call m)
      else dequeueLoop callback fuel (some a) (m.next a) m

/-- `dequeue_all_from_callback`. -/
def dequeueAllFromCallback (fuel : ℕ) (master : Option κ) (callback : κ) (m : CallMemory κ δ) :
    Option (CallMemory κ δ) :=
  dequeueLoop callback fuel none (m.queue (master.getD callback)) m

/-- `uv_callback_fire_ex` for a callback with a queue; `block` is what `malloc` returns. -/
def uvCallbackFireEx (master : Option κ) (call : UvCall κ δ) (block : Option ℕ)
    (m : CallMemory κ δ) : UvCode × CallMemory κ δ :=
  if m.inactive call.callback then (.eperm, m)
  else match block with
    | none => (.enomem, m)
    | some a =>
      let callback := master.getD call.callback
      (.ok, { m with
        next := Function.update m.next a (m.queue callback)
        calls := Function.update m.calls a (some call)
        queue := Function.update m.queue callback (some a) })

/-- `uv_callback_stop`, for a callback with a queue. -/
def uvCallbackStop (fuel : ℕ) (master : Option κ) (callback : κ) (m : CallMemory κ δ) :
    Option (CallMemory κ δ) :=
  dequeueAllFromCallback fuel master callback
    { m with inactive := Function.update m.inactive callback true }

end

/-! ## The queue as a list -/

/-- A pointer heads a list of calls at these addresses. -/
structure CallList (m : CallMemory κ δ) (first : Option ℕ) (l : List (ℕ × UvCall κ δ)) :
    Prop where
  list : IsList m.next first (l.map Prod.fst)
  calls : ∀ x ∈ l, m.calls x.1 = some x.2

/-- The queue of the master holds these calls, the oldest first. -/
def CallMemory.Holds (m : CallMemory κ δ) (master : κ) (queued : List (UvCall κ δ)) : Prop :=
  ∃ l, CallList m (m.queue master) l ∧ (l.map Prod.snd).reverse = queued

namespace CallList

variable {m m' : CallMemory κ δ} {first : Option ℕ} {l : List (ℕ × UvCall κ δ)} {a : ℕ}
  {call : UvCall κ δ}

theorem nodup (h : CallList m first l) : (l.map Prod.fst).Nodup := h.list.nodup

/-- The list does not depend on other addresses. -/
theorem congr (h : CallList m first l) (hnext : ∀ x ∈ l, m'.next x.1 = m.next x.1)
    (hcalls : ∀ x ∈ l, m'.calls x.1 = m.calls x.1) : CallList m' first l where
  list := h.list.congr (by simpa using fun a call hmem => hnext (a, call) hmem)
  calls x hx := (hcalls x hx).trans (h.calls x hx)

/-- The first call and the rest. -/
theorem cons_iff : CallList m first ((a, call) :: l) ↔
    first = some a ∧ m.calls a = some call ∧ CallList m (m.next a) l := by
  constructor
  · rintro ⟨hlist, hcalls⟩
    rw [List.forall_mem_cons] at hcalls
    cases hlist with
    | cons rest => exact ⟨rfl, hcalls.1, rest, hcalls.2⟩
  · rintro ⟨rfl, hcall, hrest⟩
    exact ⟨.cons hrest.list, List.forall_mem_cons.2 ⟨hcall, hrest.calls⟩⟩

end CallList

section
variable [DecidableEq κ] {m : CallMemory κ δ} {l : List (ℕ × UvCall κ δ)} {fuel : ℕ}
  {callback : κ}

/-- The calls that are not of a callback. -/
def others (callback : κ) (l : List (ℕ × UvCall κ δ)) : List (ℕ × UvCall κ δ) :=
  l.filter fun x => decide (x.2.callback ≠ callback)

/-- **The loop behind a call that stays.**  It removes the calls of the callback; what is not in
the list it leaves alone. -/
theorem dequeueLoop_spec (callback : κ) {p : ℕ} (h : CallList m (m.next p) l) (hp : p ∉ l.map Prod.fst)
    (hfuel : l.length < fuel) :
    ∃ m', dequeueLoop callback fuel (some p) (m.next p) m = some m' ∧
      CallList m' (m'.next p) (others callback l) ∧
      (∀ x, x ∉ p :: l.map Prod.fst → m'.next x = m.next x) ∧
      (∀ x, x ∉ l.map Prod.fst → m'.calls x = m.calls x) ∧
      m'.queue = m.queue ∧ m'.inactive = m.inactive := by
  induction l generalizing p m fuel with
  | nil =>
      obtain ⟨fuel, rfl⟩ : ∃ n, fuel = n + 1 := ⟨fuel - 1, by omega⟩
      have hnone : m.next p = none := by
        have hlist := h.list
        generalize m.next p = first at hlist
        cases hlist
        rfl
      exact ⟨m, by rw [hnone]; rfl, h, fun _ _ => rfl, fun _ _ => rfl, rfl, rfl⟩
  | cons x l ih =>
      obtain ⟨fuel, rfl⟩ : ∃ n, fuel = n + 1 := ⟨fuel - 1, by omega⟩
      obtain ⟨a, call⟩ := x
      have hnodup := h.nodup
      obtain ⟨hnext, hcall, hrest⟩ := CallList.cons_iff.1 h
      simp only [List.map_cons, List.mem_cons, not_or, List.nodup_cons, List.length_cons] at *
      rw [hnext, dequeueLoop, hcall]
      dsimp only
      by_cases hof : call.callback = callback
      · rw [if_pos hof]
        -- the memory after the call has been unlinked and freed
        let m₁ : CallMemory κ δ :=
          discardCall a call { m with next := Function.update m.next p (m.next a) }
        have hnextp : m₁.next p = m.next a := Function.update_self ..
        have hnext₁ : ∀ x, x ≠ p → m₁.next x = m.next x := fun x hx => Function.update_of_ne hx _ _
        have hcalls₁ : ∀ x, x ≠ a → m₁.calls x = m.calls x := fun x hx =>
          Function.update_of_ne hx _ _
        have hlist₁ : CallList m₁ (m₁.next p) l := by
          rw [hnextp]
          refine hrest.congr (fun x hx => hnext₁ _ ?_) fun x hx => hcalls₁ _ ?_
          · exact fun heq => hp.2 (heq ▸ List.mem_map_of_mem hx)
          · exact fun heq => hnodup.1 (heq ▸ List.mem_map_of_mem hx)
        obtain ⟨m', hloop, hlist, hsame, hkept, hqueue, hinactive⟩ :=
          ih hlist₁ hp.2 (show l.length < fuel by omega)
        have hothers : others callback ((a, call) :: l) = others callback l := by
          simp [others, hof]
        rw [hothers]
        refine ⟨m', hloop, hlist, fun x hx => ?_, fun x hx => ?_, hqueue, hinactive⟩
        · exact (hsame x ⟨hx.1, hx.2.2⟩).trans (hnext₁ x hx.1)
        · exact (hkept x hx.2).trans (hcalls₁ x hx.1)
      · rw [if_neg hof]
        obtain ⟨m', hloop, hlist, hsame, hkept, hqueue, hinactive⟩ :=
          ih hrest hnodup.1 (show l.length < fuel by omega)
        refine ⟨m', hloop, ?_, fun x hx => hsame x hx.2, fun x hx => hkept x hx.2, hqueue,
          hinactive⟩
        have hothers : others callback ((a, call) :: l) = (a, call) :: others callback l := by
          simp [others, hof]
        rw [hothers, CallList.cons_iff]
        exact ⟨(hsame p (by simpa using hp)).trans hnext, (hkept a hnodup.1).trans hcall, hlist⟩

/-- The master of a callback: all but the master itself have it. -/
def masterOf (master callback : κ) : Option κ := if callback = master then none else some master

@[simp] theorem getD_masterOf (master callback : κ) :
    (masterOf master callback).getD callback = master := by
  unfold masterOf
  split_ifs with h
  · exact h
  · rfl

variable {master : κ}

/-- **A callback is stopped**, and the newest call is of another one. -/
theorem uvCallbackStop_spec (callback : κ) (h : CallList m (m.queue master) l) (hfuel : l.length < fuel)
    (hhead : ∀ x ∈ l.head?, x.2.callback ≠ callback) :
    ∃ m', uvCallbackStop fuel (masterOf master callback) callback m = some m' ∧
      CallList m' (m'.queue master) (others callback l) := by
  unfold uvCallbackStop dequeueAllFromCallback
  rw [getD_masterOf]
  let m₀ : CallMemory κ δ := { m with inactive := Function.update m.inactive callback true }
  have h₀ : CallList m₀ (m₀.queue master) l := h.congr (fun _ _ => rfl) fun _ _ => rfl
  obtain ⟨fuel, rfl⟩ : ∃ n, fuel = n + 1 := ⟨fuel - 1, by omega⟩
  cases l with
  | nil =>
      have hnone : m₀.queue master = none := by
        have hlist := h₀.list
        generalize m₀.queue master = first at hlist
        cases hlist
        rfl
      refine ⟨m₀, ?_, h₀⟩
      change dequeueLoop callback (fuel + 1) none (m₀.queue master) m₀ = some m₀
      rw [hnone]
      rfl
  | cons x l =>
      obtain ⟨a, call⟩ := x
      have hother : call.callback ≠ callback := hhead (a, call) rfl
      have hnodup : a ∉ l.map Prod.fst := (List.nodup_cons.1 h₀.nodup).1
      obtain ⟨hfirst, hcall, hrest⟩ := CallList.cons_iff.1 h₀
      obtain ⟨m', hloop, hlist, -, hkept, hqueue, -⟩ :=
        dequeueLoop_spec callback hrest hnodup (by simpa using hfuel)
      refine ⟨m', ?_, ?_⟩
      · change dequeueLoop callback (fuel + 1) none (m₀.queue master) m₀ = some m'
        rw [hfirst, dequeueLoop, hcall]
        dsimp only
        rwa [if_neg hother]
      · have hothers : others callback ((a, call) :: l) = (a, call) :: others callback l := by
          simp [others, hother]
        rw [hothers, CallList.cons_iff]
        exact ⟨by rw [hqueue]; exact hfirst, (hkept a hnodup).trans hcall, hlist⟩

/-- **The newest call is of the callback that is stopped**: the loop goes on behind none. -/
theorem uvCallbackStop_newest {a : ℕ} {call : UvCall κ δ}
    (h : CallList m (m.queue master) ((a, call) :: l)) (hcall : call.callback = callback) :
    uvCallbackStop fuel (masterOf master callback) callback m = none := by
  unfold uvCallbackStop dequeueAllFromCallback
  rw [getD_masterOf]
  obtain ⟨hfirst, hmem, -⟩ := CallList.cons_iff.1 h
  cases fuel with
  | zero => rfl
  | succ fuel =>
      dsimp only
      rw [hfirst, dequeueLoop]
      dsimp only
      rw [hmem]
      dsimp only
      rw [if_pos hcall]

/-- The loop of `dequeue_call` ends at the tail. -/
theorem lastCall_spec {next : ℕ → Option ℕ} {first last : ℕ} {as : List ℕ} {prev : Option ℕ}
    (h : IsList next (some first) (as ++ [last])) (hfuel : as.length < fuel) :
    lastCall next fuel prev first = some (as.getLast?.or prev, last) := by
  induction as generalizing first prev fuel with
  | nil =>
      obtain ⟨fuel, rfl⟩ : ∃ n, fuel = n + 1 := ⟨fuel - 1, by omega⟩
      cases h with
      | cons rest =>
          have hnone : next last = none := by
            generalize next last = second at rest
            cases rest
            rfl
          rw [lastCall, hnone]
          rfl
  | cons a as ih =>
      obtain ⟨fuel, rfl⟩ : ∃ n, fuel = n + 1 := ⟨fuel - 1, by omega⟩
      cases h with
      | cons rest =>
          cases hnext : next a with
          | none =>
              rw [hnext] at rest
              cases as <;> cases rest
          | some call =>
              rw [hnext] at rest
              rw [lastCall, hnext]
              refine (ih rest (by simpa using hfuel)).trans ?_
              rw [List.getLast?_cons]
              cases as.getLast? <;> rfl

/-- **The oldest call is taken.** -/
theorem dequeueCall_spec {a : ℕ} {call : UvCall κ δ}
    (h : CallList m (m.queue master) (l ++ [(a, call)])) (hfuel : l.length < fuel) :
    ∃ m', dequeueCall fuel master m = some (some a, m') ∧ CallList m' (m'.queue master) l ∧
      m'.calls = m.calls ∧ m'.inactive = m.inactive := by
  have hlist := h.list
  rw [List.map_append, List.map_singleton] at hlist
  obtain ⟨first, hfirst⟩ : ∃ first, m.queue master = some first := by
    cases hqueue : m.queue master with
    | none =>
        rw [hqueue] at hlist
        cases l <;> cases hlist
    | some first => exact ⟨first, rfl⟩
  have hlast : lastCall m.next fuel none first = some ((l.map Prod.fst).getLast?, a) := by
    rw [lastCall_spec (hfirst ▸ hlist) (by simpa using hfuel), Option.or_none]
  rcases List.eq_nil_or_concat' l with rfl | ⟨init, ⟨b, other⟩, rfl⟩
  · refine ⟨{ m with queue := Function.update m.queue master none }, ?_, ?_, rfl, rfl⟩
    · rw [dequeueCall, hfirst]
      dsimp only
      rw [hlast]
      rfl
    · refine ⟨?_, by simp⟩
      dsimp only
      rw [Function.update_self]
      exact .nil
  · refine ⟨{ m with next := Function.update m.next b none }, ?_, ?_, rfl, rfl⟩
    · rw [dequeueCall, hfirst]
      dsimp only
      rw [hlast]
      simp
    · refine ⟨?_, fun x hx => h.calls x (List.mem_append_left _ hx)⟩
      rw [List.map_append, List.map_singleton] at hlist ⊢
      rw [List.append_assoc] at hlist
      exact hlist.relink .nil (by simp)

/-- **A call is fired.** -/
theorem uvCallbackFireEx_spec {a : ℕ} {call : UvCall κ δ} (h : CallList m (m.queue master) l)
    (hfresh : m.calls a = none) (hactive : m.inactive call.callback = false) :
    ∃ m', uvCallbackFireEx (masterOf master call.callback) call (some a) m = (.ok, m') ∧
      CallList m' (m'.queue master) ((a, call) :: l) := by
  have hne : ∀ x ∈ l, x.1 ≠ a := by
    rintro x hx rfl
    simp [h.calls x hx] at hfresh
  refine ⟨_, by rw [uvCallbackFireEx, hactive]; rfl, ?_⟩
  rw [getD_masterOf, CallList.cons_iff]
  refine ⟨Function.update_self .., Function.update_self .., ?_⟩
  have hnext : Function.update m.next a (m.queue master) a = m.queue master :=
    Function.update_self ..
  dsimp only
  rw [hnext]
  exact h.congr (fun x hx => Function.update_of_ne (hne x hx) _ _)
    fun x hx => Function.update_of_ne (hne x hx) _ _

/-! ## The runs -/

/-- What the threads do with the callbacks that share the queue. -/
inductive CallEvent (κ δ : Type*)
  /-- `uv_callback_fire_ex`; `block` is what `malloc` returns. -/
  | fire (call : UvCall κ δ) (block : Option ℕ)
  /-- `uv_callback_async_cb` of the master takes a call, which is freed in the end. -/
  | dequeue
  /-- `uv_callback_stop`. -/
  | stop (callback : κ)

/-- The memory, unless an absent element has been followed, and what has been taken from the
queue; beside it what the queue holds, the oldest call first, and what is due. -/
structure CallRun (κ δ : Type*) where
  memory : Option (CallMemory κ δ)
  delivered : List (UvCall κ δ)
  queued : List (UvCall κ δ)
  due : List (UvCall κ δ)

/-- One step.  There is none after an absent element has been followed, and `malloc` returns no
block that is in use. -/
def callStep (fuel : ℕ) (master : κ) (s : CallRun κ δ) : CallEvent κ δ → Option (CallRun κ δ)
  | .fire call block => s.memory.bind fun m =>
      if (block.bind m.calls).isSome then none
      else
        let (rc, m) := uvCallbackFireEx (masterOf master call.callback) call block m
        some { s with
          memory := some m
          queued := if rc = .ok then s.queued ++ [call] else s.queued }
  | .dequeue => s.memory.map fun m =>
      let s := { s with queued := s.queued.tail, due := s.due ++ s.queued.head?.toList }
      match dequeueCall fuel master m with
      | none => { s with memory := none }
      | some (none, m) => { s with memory := some m }
      | some (some a, m) => { s with
          memory := some { m with calls := Function.update m.calls a none }
          delivered := s.delivered ++ (m.calls a).toList }
  | .stop callback => s.memory.map fun m => { s with
      memory := uvCallbackStop fuel (masterOf master callback) callback m
      queued := s.queued.filter fun call => decide (call.callback ≠ callback) }

/-- No absent element has been followed, the list in memory holds what the queue holds, and
what was due has been delivered. -/
def CallRun.Correct (master : κ) (s : CallRun κ δ) : Prop :=
  ∃ m, s.memory = some m ∧ m.Holds master s.queued ∧ s.delivered = s.due

/-- A callback is stopped whose call is the newest in the queue. -/
def StopsNewest (s : CallRun κ δ) (e : CallEvent κ δ) : Prop :=
  ∃ call, s.queued.getLast? = some call ∧ e = .stop call.callback

variable {s t : CallRun κ δ} {e : CallEvent κ δ}

/-- At most one call is added. -/
theorem callStep_length (h : callStep fuel master s e = some t) :
    t.queued.length ≤ s.queued.length + 1 := by
  cases e with
  | fire call block =>
      obtain ⟨m, -, h⟩ := Option.bind_eq_some_iff.1 h
      split_ifs at h
      obtain rfl := Option.some.inj h
      dsimp only
      split_ifs
      · simp
      · exact Nat.le_succ _
  | dequeue =>
      obtain ⟨m, -, h⟩ := Option.map_eq_some_iff.1 h
      dsimp only at h
      have htail : s.queued.tail.length ≤ s.queued.length + 1 := by
        rw [List.length_tail]
        omega
      split at h <;> exact h ▸ htail
  | stop callback =>
      obtain ⟨m, -, rfl⟩ := Option.map_eq_some_iff.1 h
      exact Nat.le_succ_of_le (List.length_filter_le _ _)

theorem fire_correct {call : UvCall κ δ} {block : Option ℕ} (hs : s.Correct master)
    (h : callStep fuel master s (.fire call block) = some t) : t.Correct master := by
  obtain ⟨m, hm, ⟨l, hl, hqueued⟩, hdelivered⟩ := hs
  simp only [callStep, hm, Option.bind_some] at h
  split_ifs at h with hused hok
  · obtain rfl := Option.some.inj h
    cases hactive : m.inactive call.callback with
    | true => simp [uvCallbackFireEx, hactive] at hok
    | false =>
        cases block with
        | none => simp [uvCallbackFireEx, hactive] at hok
        | some a =>
            have hfresh : m.calls a = none := by simpa using hused
            obtain ⟨m', hfire, hlist⟩ := uvCallbackFireEx_spec hl hfresh hactive
            exact ⟨m', by rw [hfire], ⟨_, hlist, by simp [hqueued]⟩, hdelivered⟩
  · obtain rfl := Option.some.inj h
    refine ⟨m, ?_, ⟨l, hl, hqueued⟩, hdelivered⟩
    cases hactive : m.inactive call.callback with
    | true => simp [uvCallbackFireEx, hactive]
    | false =>
        cases block with
        | none => simp [uvCallbackFireEx, hactive]
        | some a => simp [uvCallbackFireEx, hactive] at hok

theorem dequeue_correct (hs : s.Correct master) (hfuel : s.queued.length < fuel)
    (h : callStep fuel master s .dequeue = some t) : t.Correct master := by
  obtain ⟨m, hm, ⟨l, hl, hqueued⟩, hdelivered⟩ := hs
  simp only [callStep, hm, Option.map_some, Option.some.injEq] at h
  rcases List.eq_nil_or_concat' l with rfl | ⟨l, ⟨a, call⟩, rfl⟩
  · have hnone : m.queue master = none := by
      have hlist := hl.list
      generalize m.queue master = first at hlist
      cases hlist
      rfl
    obtain hnil : s.queued = [] := hqueued.symm
    rw [dequeueCall, hnone] at h
    obtain rfl := h
    exact ⟨m, rfl, ⟨[], hl, by simp [hnil]⟩, by simp [hnil, hdelivered]⟩
  · have hcons : s.queued = call :: (l.map Prod.snd).reverse := by simp [← hqueued]
    obtain ⟨m', hdequeue, hlist, hcalls, -⟩ := dequeueCall_spec hl (show l.length < fuel by
      rw [hcons, List.length_cons, List.length_reverse, List.length_map] at hfuel
      omega)
    have hmem : m'.calls a = some call := by
      rw [hcalls]
      exact hl.calls (a, call) (by simp)
    have hnotMem : a ∉ l.map Prod.fst := fun ha => by
      have hnodup := hl.nodup
      rw [List.map_append] at hnodup
      exact List.disjoint_of_nodup_append hnodup ha (by simp)
    rw [hdequeue] at h
    obtain rfl := h
    refine ⟨_, rfl, ⟨l, hlist.congr (fun _ _ => rfl) fun x hx => ?_, by simp [hcons]⟩,
      by simp [hcons, hdelivered, hmem]⟩
    have hne : x.1 ≠ a := fun heq => hnotMem (heq ▸ List.mem_map_of_mem hx)
    exact Function.update_of_ne hne _ _

theorem stop_correct (hs : s.Correct master) (hfuel : s.queued.length < fuel)
    (h : callStep fuel master s (.stop callback) = some t) :
    StopsNewest s (.stop callback : CallEvent κ δ) ∧ t.memory = none ∨
      ¬StopsNewest s (.stop callback : CallEvent κ δ) ∧ t.Correct master := by
  obtain ⟨m, hm, ⟨l, hl, hqueued⟩, hdelivered⟩ := hs
  simp only [callStep, hm, Option.map_some, Option.some.injEq] at h
  have hlast : s.queued.getLast? = l.head?.map Prod.snd := by
    rw [← hqueued, List.getLast?_reverse, List.head?_map]
  have hlength : s.queued.length = l.length := by simp [← hqueued]
  obtain rfl := h
  by_cases hstops : StopsNewest s (.stop callback : CallEvent κ δ)
  · refine .inl ⟨hstops, ?_⟩
    obtain ⟨call, hcall, heq⟩ := hstops
    rw [hlast] at hcall
    obtain ⟨⟨a, call⟩, hhead, rfl⟩ := Option.map_eq_some_iff.1 hcall
    obtain ⟨l, rfl⟩ := List.head?_eq_some_iff.1 hhead
    exact uvCallbackStop_newest hl (by cases heq; rfl)
  · refine .inr ⟨hstops, ?_⟩
    obtain ⟨m', hstop, hlist⟩ := uvCallbackStop_spec callback hl (hlength ▸ hfuel)
      fun x hx heq => by
        refine hstops ⟨x.2, ?_, heq ▸ rfl⟩
        rw [hlast, hx]
        rfl
    refine ⟨m', hstop, ⟨_, hlist, ?_⟩, hdelivered⟩
    rw [others, ← hqueued, List.filter_reverse, List.filter_map]
    rfl

/-- **One step.** -/
theorem callStep_correct (hs : s.Correct master) (hfuel : s.queued.length < fuel)
    (h : callStep fuel master s e = some t) :
    StopsNewest s e ∧ t.memory = none ∨ ¬StopsNewest s e ∧ t.Correct master := by
  cases e with
  | fire call block => exact .inr ⟨(fun ⟨_, _, heq⟩ => nomatch heq), fire_correct hs h⟩
  | dequeue => exact .inr ⟨(fun ⟨_, _, heq⟩ => nomatch heq), dequeue_correct hs hfuel h⟩
  | stop callback => exact stop_correct hs hfuel h

/-- **The queue delivers the calls in order, and a stopped callback loses its calls and no
others**, in exactly those runs in which no callback is stopped whose call is the newest. -/
theorem callRun_correct_iff {events : List (CallEvent κ δ)} (hs : s.Correct master)
    (hfuel : s.queued.length + events.length < fuel)
    (hr : System.run (callStep fuel master) s events = some t) :
    t.Correct master ↔ ¬System.Meets (callStep fuel master) StopsNewest s events := by
  induction events generalizing s with
  | nil =>
      obtain rfl := Option.some.inj hr
      exact iff_of_true hs nofun
  | cons e events ih =>
      obtain ⟨u, hu, hr⟩ := Option.bind_eq_some_iff.1 hr
      rw [List.length_cons] at hfuel
      rw [System.Meets.cons_iff hu, not_or]
      have hlength := callStep_length hu
      obtain ⟨hstops, hnone⟩ | ⟨hstops, hcorrect⟩ := callStep_correct hs (by omega) hu
      · -- the program has gone wrong, and no step follows
        refine iff_of_false ?_ fun h => h.1 hstops
        rintro ⟨m, hm, -⟩
        cases events with
        | nil =>
            obtain rfl := Option.some.inj hr
            simp [hnone] at hm
        | cons e events =>
            obtain ⟨v, hv, -⟩ := Option.bind_eq_some_iff.1 hr
            cases e <;> simp [callStep, hnone] at hv
      · rw [and_iff_right hstops]
        exact ih hcorrect (by omega) hr

end

/-- The master 0 and the callback 1, with nothing in their queue. -/
def emptyCallRun : CallRun ℕ ℕ :=
  ⟨some ⟨fun _ => none, fun _ => none, fun _ => none, fun _ => false, []⟩, [], [], []⟩

theorem emptyCallRun_correct : emptyCallRun.Correct 0 :=
  ⟨_, rfl, ⟨[], ⟨.nil, nofun⟩, rfl⟩, rfl⟩

/-- A call with a number. -/
def numberedCall (callback n : ℕ) : UvCall ℕ ℕ := ⟨callback, some n, false, none⟩

/-- Two callbacks fire in turns, two calls are taken, and the callback whose call is not the newest
is stopped. -/
def twoCallbacks : List (CallEvent ℕ ℕ) :=
  [.fire (numberedCall 1 7) (some 0), .fire (numberedCall 0 8) (some 1), .dequeue,
    .fire (numberedCall 1 9) (some 2), .fire (numberedCall 0 10) (some 3), .stop 1, .dequeue]

/-- What they lead to. -/
def twoCallbacksEnd : CallRun ℕ ℕ :=
  (System.run (callStep 8 0) emptyCallRun twoCallbacks).getD emptyCallRun

/-- The hypotheses hold of them, and the calls 7 and 8 have been delivered. -/
theorem callRun_correct_mixed :
    twoCallbacksEnd.delivered = [numberedCall 1 7, numberedCall 0 8] ∧
      ¬System.Meets (callStep 8 0) StopsNewest emptyCallRun twoCallbacks :=
  ⟨rfl, (callRun_correct_iff emptyCallRun_correct (by decide)
    (show System.run _ _ _ = some twoCallbacksEnd by rfl)).1
      ⟨_, rfl, ⟨[(3, numberedCall 0 10)], ⟨.cons .nil, by simp [numberedCall]; rfl⟩, rfl⟩, rfl⟩⟩

/-- A callback fires and is stopped. -/
def fireAndStop (callback : ℕ) : List (CallEvent ℕ ℕ) :=
  [.fire (numberedCall callback 7) (some 0), .stop callback]

/-- **A callback is stopped whose call is the newest**: the master itself, or one that has it. -/
theorem stop_newest_call :
    (∃ t, System.run (callStep 3 0) emptyCallRun (fireAndStop 0) = some t ∧ t.memory = none ∧
      ¬t.Correct 0) ∧
    ∃ t, System.run (callStep 3 0) emptyCallRun (fireAndStop 1) = some t ∧ t.memory = none ∧
      ¬t.Correct 0 :=
  ⟨⟨_, rfl, rfl, fun ⟨_, hm, _⟩ => nomatch hm⟩, ⟨_, rfl, rfl, fun ⟨_, hm, _⟩ => nomatch hm⟩⟩

end Common
end AergoLite
