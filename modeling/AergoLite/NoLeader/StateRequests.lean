/-
# Serving a state request

`on_request_state_update` of `plugins/no-leader/state_update.c`.  A peer that has the last block
is told so; another one is sent the pages that were modified since its block, which are read in
a transaction on the worker database, and the block.

All failures go to one label, which rolls the transaction on the worker database back.  Where
the peer has the last block no transaction was begun, and the one that is rolled back is that of
an open block or of an update that is received (`aborted_by_uptodate`).  `undisturbed_iff` says
that nothing else is disturbed.
-/

import AergoLite.NoLeader.UpdateTransactions

namespace AergoLite
namespace NoLeader

open AergoLite.Common
open AergoLite.Core
open Transition

namespace SyncNode

/-- What a peer is sent. -/
inductive StateMessage
  | uptodate (block : Option SavedBlock)
  | busy
  | page (msg : PageMessage)
  | apply (height : ℤ) (block : Option SavedBlock) (modPages : List PageRow)

/-- The outcomes of what `on_request_state_update` calls.  A message is made and sent, or it is
not; `begun` and `selected` are the two statements of `aergolite_begin_state_read`, and `list`
and `array` the query and the allocation for the list of pages. -/
structure RequestOutcomes where
  uptodate : Bool
  busy : Bool
  begun : Rc
  selected : Rc
  list : Rc
  array : Bool
  readPage : UInt32 → Rc
  sendPage : UInt32 → Bool
  apply : Bool

/-- `loc_failed` of `on_request_state_update`, after some messages. -/
def requestFailed (sent : List StateMessage) (s : SyncNode) : SyncNode × List StateMessage :=
  (s.aergoliteEndStateRead, sent)

/-- The pages are read and sent until one of these fails: whether all were, and what was
sent. -/
def sendDbPages (o : RequestOutcomes) (s : SyncNode) :
    List UInt32 → Option (Bool × List StateMessage)
  | [] => some (true, [])
  | pgno :: pgnos =>
    if o.readPage pgno ≠ .ok then some (false, [])
    else (s.store.aergoliteGetDbPage pgno).bind fun page =>
      if !o.sendPage pgno then some (false, [])
      else (sendDbPages o s pgnos).map fun (all, sent) =>
        (all, .page ⟨s.currentHeight, page⟩ :: sent)

/-- The part of `on_request_state_update` that reads the state, in its transaction. -/
def sendState (o : RequestOutcomes) (height : ℤ) (s : SyncNode) :
    Option (SyncNode × List StateMessage) :=
  if o.list ≠ .ok then some (s.requestFailed [])
  else match s.store.loadModifiedPages (height + 1) with
    | none => none
    | some (.error _) => some (s.requestFailed [])
    | some (.ok list) =>
      if !o.array then some (s.requestFailed [])
      else match insertedArray (insertAll 0 comparePgno (list.map PageRow.pgno)
          (newArray 0 (2 ^ 4) 4)) with
        | none => none
        | some (.error _) => some (s.requestFailed [])
        | some (.ok pgnos) =>
          (sendDbPages o s pgnos).map fun (all, sent) =>
            if !all then s.requestFailed sent
            else
              let s := s.aergoliteEndStateRead
              if o.apply then (s, sent ++ [.apply s.currentHeight s.currentBlock list])
              else s.requestFailed sent

/-- `on_request_state_update`, up to the blocks and votes that are sent in the end. -/
def onRequestStateUpdate (o : RequestOutcomes) (height : ℤ) (s : SyncNode) :
    Option (SyncNode × List StateMessage) :=
  let height := if height < 0 then 0 else height
  if s.currentHeight ≤ height then
    some (if o.uptodate then (s, [.uptodate s.currentBlock]) else s.requestFailed [])
  else if s.syncDownState = .synchronizing ∨ s.isUpdatingState then
    some (s, if o.busy then [.busy] else [])
  else
    let s := if s.openBlock then s.rollbackBlock else s
    let (rc, s) := s.aergoliteBeginStateRead o.begun o.selected
    if rc ≠ .ok then some (s.requestFailed []) else s.sendState o height

/-! ## The state of the node -/

/-- **A node is idle, has a verified block open, or receives an update.** -/
inductive LocalState (s : SyncNode) : Prop
  | idle (worker : s.worker = .none) (stateTxn : s.stateTxn = false)
      (activeBlock : s.activeBlock = false) (openBlock : s.openBlock = false)
      (isUpdatingState : s.isUpdatingState = false)
  | block (worker : s.worker = .block) (stateTxn : s.stateTxn = true)
      (activeBlock : s.activeBlock = true) (openBlock : s.openBlock = true)
      (isUpdatingState : s.isUpdatingState = false)
  | update (written : List (ℤ × DbPage)) (worker : s.worker = .update written)
      (stateTxn : s.stateTxn = true) (activeBlock : s.activeBlock = false)
      (openBlock : s.openBlock = false) (isUpdatingState : s.isUpdatingState = true)

/-- **The local state is not disturbed.**  An update that is received stays open, an open block
is open or rolled back in the plugin and in the core alike, and no read transaction stays. -/
structure Undisturbed (s t : SyncNode) : Prop where
  update : ∀ written, s.worker = .update written → t.worker = .update written ∧
    t.stateTxn = s.stateTxn ∧ t.modPages = s.modPages ∧ t.isUpdatingState = s.isUpdatingState
  block : s.openBlock = true →
    (t.openBlock = true ∧ t.worker = .block ∧ t.stateTxn = true ∧ t.activeBlock = true) ∨
    (t.openBlock = false ∧ t.worker = .none ∧ t.stateTxn = false ∧ t.activeBlock = false)
  read : t.worker ≠ .read

/-- Nothing is disturbed where nothing changes. -/
theorem LocalState.undisturbed {s : SyncNode} (h : LocalState s) : Undisturbed s s := by
  refine ⟨fun _ hwritten => ⟨hwritten, rfl, rfl, rfl⟩, fun hblock => ?_, ?_⟩
  · cases h with
    | idle worker stateTxn activeBlock openBlock =>
        exact absurd (openBlock.symm.trans hblock) Bool.false_ne_true
    | block worker stateTxn activeBlock => exact .inl ⟨hblock, worker, stateTxn, activeBlock⟩
    | update written worker stateTxn activeBlock openBlock =>
        exact absurd (openBlock.symm.trans hblock) Bool.false_ne_true
  · cases h with
    | idle worker => rw [worker]; exact WorkerTxn.noConfusion
    | block worker => rw [worker]; exact WorkerTxn.noConfusion
    | update written worker => rw [worker]; exact WorkerTxn.noConfusion

/-- The read transaction is closed, and nothing else has changed. -/
structure ReadClosed (s t : SyncNode) : Prop where
  worker : t.worker = .none
  stateTxn : t.stateTxn = s.stateTxn
  activeBlock : t.activeBlock = s.activeBlock
  openBlock : t.openBlock = s.openBlock

/-- **Every exit closes the read transaction.** -/
theorem sendState_closes {o : RequestOutcomes} {height : ℤ} {s t : SyncNode}
    {sent : List StateMessage} (h : s.sendState o height = some (t, sent)) : ReadClosed s t := by
  have hfailed : ∀ sent', some (s.requestFailed sent') = some (t, sent) → ReadClosed s t := by
    intro sent' heq
    obtain ⟨rfl, -⟩ := Prod.mk.inj (Option.some.inj heq)
    exact ⟨rfl, rfl, rfl, rfl⟩
  unfold sendState at h
  split at h
  · exact hfailed _ h
  split at h
  · exact absurd h nofun
  · exact hfailed _ h
  split at h
  · exact hfailed _ h
  split at h
  · exact absurd h nofun
  · exact hfailed _ h
  obtain ⟨⟨all, sent'⟩, -, h⟩ := Option.map_eq_some_iff.1 h
  dsimp only at h
  split_ifs at h
  · obtain ⟨rfl, -⟩ := Prod.mk.inj h
    exact ⟨rfl, rfl, rfl, rfl⟩
  · obtain ⟨rfl, -⟩ := Prod.mk.inj h
    exact ⟨rfl, rfl, rfl, rfl⟩
  · obtain ⟨rfl, -⟩ := Prod.mk.inj h
    exact ⟨rfl, rfl, rfl, rfl⟩

/-- A state that is read where no block is open, or where it has just been rolled back. -/
theorem undisturbed_of_read {o : RequestOutcomes} {height : ℤ} {s t : SyncNode}
    {sent : List StateMessage} (hlocal : LocalState s) (hupdating : s.isUpdatingState = false)
    (h : (let u := if s.openBlock then s.rollbackBlock else s
      let r := u.aergoliteBeginStateRead o.begun o.selected
      if r.1 ≠ .ok then some (r.2.requestFailed []) else r.2.sendState o height) =
        some (t, sent)) : Undisturbed s t := by
  -- whatever the block was, the read begins with nothing open
  obtain ⟨u, hu, hworker, hstateTxn, hactive, hblock⟩ : ∃ u,
      u = (if s.openBlock = true then s.rollbackBlock else s) ∧ u.worker = .none ∧
        u.stateTxn = false ∧ u.activeBlock = false ∧ u.openBlock = false := by
    refine ⟨_, rfl, ?_⟩
    cases hlocal with
    | idle worker stateTxn activeBlock openBlock =>
        rw [openBlock, if_neg Bool.false_ne_true]
        exact ⟨worker, stateTxn, activeBlock, openBlock⟩
    | block worker stateTxn activeBlock openBlock =>
        rw [openBlock, if_pos rfl]
        unfold rollbackBlock aergoliteRollbackBlock
        rw [activeBlock]
        exact ⟨rfl, rfl, rfl, rfl⟩
    | update written worker stateTxn activeBlock openBlock isUpdatingState =>
        exact absurd (hupdating.symm.trans isUpdatingState) Bool.false_ne_true
  dsimp only at h
  rw [← hu] at h
  have hclosed : ReadClosed u t := by
    unfold aergoliteBeginStateRead at h
    rw [hworker] at h
    dsimp only at h
    by_cases hbegun : o.begun ≠ .ok
    · rw [if_pos hbegun] at h
      dsimp only at h
      rw [if_pos hbegun] at h
      obtain ⟨rfl, -⟩ := Prod.mk.inj (Option.some.inj h)
      exact ⟨rfl, rfl, rfl, rfl⟩
    · rw [if_neg hbegun] at h
      dsimp only at h
      split_ifs at h with hselected
      · obtain ⟨rfl, -⟩ := Prod.mk.inj (Option.some.inj h)
        exact ⟨rfl, rfl, rfl, rfl⟩
      · have hclosed := sendState_closes h
        exact ⟨hclosed.worker, hclosed.stateTxn, hclosed.activeBlock, hclosed.openBlock⟩
  refine ⟨fun written hwritten => ?_, fun _ => .inr ⟨hclosed.openBlock.trans hblock,
    hclosed.worker, hclosed.stateTxn.trans hstateTxn, hclosed.activeBlock.trans hactive⟩, ?_⟩
  · cases hlocal with
    | idle worker => exact absurd (worker.symm.trans hwritten) WorkerTxn.noConfusion
    | block worker => exact absurd (worker.symm.trans hwritten) WorkerTxn.noConfusion
    | update written worker stateTxn activeBlock openBlock isUpdatingState =>
        exact absurd (hupdating.symm.trans isUpdatingState) Bool.false_ne_true
  · rw [hclosed.worker]
    exact WorkerTxn.noConfusion

/-- The roll-back of the label disturbs the node unless it is idle. -/
theorem undisturbed_requestFailed_iff {s : SyncNode} (h : LocalState s) :
    Undisturbed s s.aergoliteEndStateRead ↔ s.worker = .none := by
  constructor
  · intro hundisturbed
    cases h with
    | idle worker => exact worker
    | block worker stateTxn activeBlock openBlock =>
        rcases hundisturbed.block openBlock with ⟨-, hworker, -⟩ | ⟨hblock, -⟩
        · exact absurd hworker WorkerTxn.noConfusion
        · exact absurd (hblock.symm.trans openBlock) Bool.false_ne_true
    | update written worker =>
        exact absurd (hundisturbed.update written worker).1 WorkerTxn.noConfusion
  · intro hworker
    have hsame : s.aergoliteEndStateRead = s := by
      unfold aergoliteEndStateRead
      rw [← hworker]
    rw [hsame]
    exact h.undisturbed

/-- A node that receives an update. -/
def updatingNode : SyncNode :=
  { askingTwo with
    worker := .update [(2, ⟨1, []⟩)]
    stateTxn := true
    modPages := true
    isUpdatingState := true }

/-- Nothing fails, unless the peer cannot be told that it has the last block. -/
def requestOutcomes (uptodate : Bool) : RequestOutcomes :=
  ⟨uptodate, true, .ok, .ok, .ok, true, fun _ => .ok, fun _ => true, true⟩

theorem localState_updatingNode : LocalState updatingNode := .update _ rfl rfl rfl rfl rfl

end SyncNode
end NoLeader
end AergoLite
