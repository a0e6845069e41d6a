/-
# State updates over whole runs

What holds of the handlers of state updates in every order of answers, timeouts, failures and
changes of the connections.

The handlers recognise the contacted node by its id, and the id is 0 where no node is contacted.
But a peer that is not identified has the id 0 as well, so its answers are taken where no node
is contacted (`unidentified_peer_answers`).  `onlyContacted_of_addressed` says that, this
and the two places apart where the state is left while a node is contacted, the assertion of
`request_state_update_next` holds and other answers change nothing.
-/

import AergoLite.NoLeader.StateUpdate

namespace AergoLite
namespace NoLeader

open AergoLite.Common
open AergoLite.Core
open Transition

namespace SyncNode

variable {c : Crypto}

/-! ## Asking the next peer -/

/-- Asking the next peer changes nothing else. -/
structure Asks (s t : SyncNode) : Prop where
  store : t.store = s.store
  authorizations : t.authorizations = s.authorizations
  worker : t.worker = s.worker
  stateTxn : t.stateTxn = s.stateTxn
  activeBlock : t.activeBlock = s.activeBlock
  modPages : t.modPages = s.modPages
  currentBlock : t.currentBlock = s.currentBlock
  openBlock : t.openBlock = s.openBlock
  isUpdatingState : t.isUpdatingState = s.isUpdatingState
  assertFailed : t.assertFailed = s.assertFailed
  applied : t.applied = s.applied

theorem Asks.refl (s : SyncNode) : Asks s s :=
  ⟨rfl, rfl, rfl, rfl, rfl, rfl, rfl, rfl, rfl, rfl, rfl⟩

theorem Asks.trans {s t u : SyncNode} (h : Asks s t) (h' : Asks t u) : Asks s u :=
  ⟨h'.store.trans h.store, h'.authorizations.trans h.authorizations, h'.worker.trans h.worker,
    h'.stateTxn.trans h.stateTxn, h'.activeBlock.trans h.activeBlock,
    h'.modPages.trans h.modPages, h'.currentBlock.trans h.currentBlock,
    h'.openBlock.trans h.openBlock, h'.isUpdatingState.trans h.isUpdatingState,
    h'.assertFailed.trans h.assertFailed, h'.applied.trans h.applied⟩

/-- The arrays are made, and the rest stays. -/
theorem makeArrays_spec (s : SyncNode) : Asks s s.makeArrays ∧
    s.makeArrays.syncDownState = s.syncDownState := by
  unfold makeArrays
  cases s.contactedNodes with
  | none => exact ⟨⟨rfl, rfl, rfl, rfl, rfl, rfl, rfl, rfl, rfl, rfl, rfl⟩, rfl⟩
  | some ids => exact ⟨⟨rfl, rfl, rfl, rfl, rfl, rfl, rfl, rfl, rfl, rfl, rfl⟩, rfl⟩

/-- How asking ends: a timer waits for an answer or for new peers, or the request is
finished. -/
inductive AskEnds (s t : SyncNode) : Prop
  | waits (timer : t.stateUpdateTimer = true) (state : t.syncDownState = s.syncDownState)
  | finishes (timer : t.stateUpdateTimer = false) (contacted : t.contactedNodeId = 0)
      (state : t.syncDownState =
        if s.syncDownState = .synchronizing then .inSync else s.syncDownState)

/-- What a round does, as far as the other handlers are concerned. -/
def Round.Spec (s : SyncNode) : Round → Prop
  | .again t => Asks s t ∧ t.syncDownState = s.syncDownState
  | .ends t => Asks s t ∧ AskEnds s t

theorem contactNode_spec (attempt : Attempt) (s : SyncNode) : (contactNode attempt s).Spec s := by
  obtain ⟨hmake, hstate⟩ := makeArrays_spec s
  unfold contactNode
  dsimp only
  by_cases hmajority : (majority s.totalAuthorizedNodes : ℤ) ≤ arrayCount s.contactedNodes + 1 ∧
      s.currentBlock.isSome
  · rw [if_pos hmajority]
    exact ⟨⟨rfl, rfl, rfl, rfl, rfl, rfl, rfl, rfl, rfl, rfl, rfl⟩, .finishes rfl rfl rfl⟩
  rw [if_neg hmajority]
  cases selectNode attempt.num (s.makeArrays.contactedNodes.getD []) s.makeArrays.peers with
  | none =>
      dsimp only
      split_ifs
      · exact ⟨hmake.trans ⟨rfl, rfl, rfl, rfl, rfl, rfl, rfl, rfl, rfl, rfl, rfl⟩,
          .waits rfl hstate⟩
      · exact ⟨hmake.trans ⟨rfl, rfl, rfl, rfl, rfl, rfl, rfl, rfl, rfl, rfl, rfl⟩, hstate⟩
  | some nodeId =>
      dsimp only
      split_ifs
      · exact ⟨hmake.trans ⟨rfl, rfl, rfl, rfl, rfl, rfl, rfl, rfl, rfl, rfl, rfl⟩,
          .waits rfl hstate⟩
      · exact ⟨hmake.trans ⟨rfl, rfl, rfl, rfl, rfl, rfl, rfl, rfl, rfl, rfl, rfl⟩, hstate⟩

/-- **The loop of `request_state_update_next`**, as far as the other handlers are concerned. -/
theorem contactNext_spec {attempts : List Attempt} {s t : SyncNode}
    (h : contactNext attempts s = some t) : Asks s t ∧ AskEnds s t := by
  induction attempts generalizing s with
  | nil => exact absurd h nofun
  | cons attempt attempts ih =>
      have hround := contactNode_spec attempt s
      unfold contactNext at h
      cases hnode : contactNode attempt s with
      | again s' =>
          rw [hnode] at h hround
          obtain ⟨hasks, hstate⟩ := hround
          obtain ⟨hrest, hends⟩ := ih h
          refine ⟨hasks.trans hrest, ?_⟩
          cases hends with
          | waits timer state => exact .waits timer (state.trans hstate)
          | finishes timer contacted state => exact .finishes timer contacted (hstate ▸ state)
      | ends s' =>
          rw [hnode] at h hround
          obtain rfl := Option.some.inj h
          exact hround

/-! ## The functions of the core -/

/-- The request goes on as it was. -/
structure SameRequest (s t : SyncNode) : Prop where
  peers : t.peers = s.peers
  currentBlock : t.currentBlock = s.currentBlock
  contactedNodeId : t.contactedNodeId = s.contactedNodeId
  contactedNodes : t.contactedNodes = s.contactedNodes
  failedNodes : t.failedNodes = s.failedNodes
  syncDownState : t.syncDownState = s.syncDownState
  assertFailed : t.assertFailed = s.assertFailed
  asked : t.asked = s.asked
  answered : t.answered = s.answered
  gaveUp : t.gaveUp = s.gaveUp

theorem SameRequest.refl (s : SyncNode) : SameRequest s s :=
  ⟨rfl, rfl, rfl, rfl, rfl, rfl, rfl, rfl, rfl, rfl⟩

theorem SameRequest.trans {s t u : SyncNode} (h : SameRequest s t) (h' : SameRequest t u) :
    SameRequest s u :=
  ⟨h'.peers.trans h.peers, h'.currentBlock.trans h.currentBlock,
    h'.contactedNodeId.trans h.contactedNodeId, h'.contactedNodes.trans h.contactedNodes,
    h'.failedNodes.trans h.failedNodes, h'.syncDownState.trans h.syncDownState,
    h'.assertFailed.trans h.assertFailed, h'.asked.trans h.asked, h'.answered.trans h.answered,
    h'.gaveUp.trans h.gaveUp⟩

theorem sameRequest_cancel (s : SyncNode) : SameRequest s s.aergoliteCancelStateUpdate :=
  ⟨rfl, rfl, rfl, rfl, rfl, rfl, rfl, rfl, rfl, rfl⟩

theorem sameRequest_timer (s : SyncNode) (stateUpdateTimer : Bool) :
    SameRequest s { s with stateUpdateTimer } := ⟨rfl, rfl, rfl, rfl, rfl, rfl, rfl, rfl, rfl, rfl⟩

theorem sameRequest_updating (s : SyncNode) (isUpdatingState : Bool) :
    SameRequest s { s with isUpdatingState } := ⟨rfl, rfl, rfl, rfl, rfl, rfl, rfl, rfl, rfl, rfl⟩

/-- What `aergolite_begin_state_update` and `aergolite_update_db_page` leave alone. -/
structure InUpdate (s t : SyncNode) : Prop where
  request : SameRequest s t
  store : t.store = s.store
  authorizations : t.authorizations = s.authorizations
  applied : t.applied = s.applied
  openBlock : t.openBlock = s.openBlock
  isUpdatingState : t.isUpdatingState = s.isUpdatingState

/-- **`aergolite_begin_state_update`** opens both transactions or closes both. -/
theorem beginStateUpdate_spec {o : BeginOutcomes} {s t : SyncNode} {rc : Rc}
    (h : s.aergoliteBeginStateUpdate o = (rc, t)) :
    InUpdate s t ∧ (rc = .ok → t.worker = .update []) ∧ (rc ≠ .ok → t.worker = .none) := by
  have hcancel : ∀ rc' : Rc, rc' ≠ .ok → (rc', s.aergoliteCancelStateUpdate) = (rc, t) →
      InUpdate s t ∧ (rc = .ok → t.worker = .update []) ∧ (rc ≠ .ok → t.worker = .none) := by
    intro rc' hrc heq
    obtain ⟨rfl, rfl⟩ := Prod.mk.inj heq
    exact ⟨⟨⟨rfl, rfl, rfl, rfl, rfl, rfl, rfl, rfl, rfl, rfl⟩, rfl, rfl, rfl, rfl, rfl⟩,
      fun hok => absurd hok hrc, fun _ => rfl⟩
  unfold aergoliteBeginStateUpdate at h
  by_cases hallocated : (!o.allocated) = true
  · rw [if_pos hallocated] at h
    exact hcancel _ (by decide) h
  rw [if_neg hallocated] at h
  cases hworker : s.worker with
  | none =>
      rw [hworker] at h
      dsimp only at h
      split_ifs at h with hbegin hopen hstate
      · exact hcancel _ hbegin h
      · exact hcancel _ (by decide) h
      · exact hcancel _ hstate h
      · obtain ⟨rfl, rfl⟩ := Prod.mk.inj h
        exact ⟨⟨⟨rfl, rfl, rfl, rfl, rfl, rfl, rfl, rfl, rfl, rfl⟩, rfl, rfl, rfl, rfl, rfl⟩,
          fun _ => rfl, fun hne => absurd rfl hne⟩
  | block =>
      rw [hworker] at h
      exact hcancel _ (by decide) h
  | read =>
      rw [hworker] at h
      exact hcancel _ (by decide) h
  | update written =>
      rw [hworker] at h
      exact hcancel .error (by decide) h

/-- **`aergolite_update_db_page`** writes the page to the open update. -/
theorem updateDbPage_spec {rc : Rc} {nodeId : ℤ} {page : DbPage} {s : SyncNode}
    {written : List (ℤ × DbPage)} (hopen : s.worker = .update written) :
    let r := s.aergoliteUpdateDbPage rc nodeId page
    InUpdate s r.2 ∧ r.1 = rc ∧
      (rc = .ok → r.2.worker = .update (written ++ [(nodeId, page)])) := by
  unfold aergoliteUpdateDbPage
  rw [hopen]
  dsimp only
  split_ifs with hrc
  · exact ⟨⟨⟨rfl, rfl, rfl, rfl, rfl, rfl, rfl, rfl, rfl, rfl⟩, rfl, rfl, rfl, rfl, rfl⟩, rfl,
      fun _ => rfl⟩
  · exact ⟨⟨SameRequest.refl s, rfl, rfl, rfl, rfl, rfl⟩, rfl, fun h => absurd h hrc⟩

/-- **`aergolite_apply_state_update`** closes the transactions and applies what is written, or
fails. -/
theorem applyStateUpdate_spec {c : Crypto} {o : ApplyOutcomes} {nodeId : ℤ} {header : Header}
    {votes : List VoteItem} {list : List PageRow} {s t : SyncNode} {rc : Rc}
    (h : s.aergoliteApplyStateUpdate c o nodeId header votes list = some (rc, t)) :
    SameRequest s t ∧ t.openBlock = s.openBlock ∧ (rc = .ok → t.worker = .none) ∧
      (t.applied = s.applied ∨ t.applied = s.applied ++ [(nodeId, s.worker.written)]) := by
  unfold aergoliteApplyStateUpdate at h
  dsimp only at h
  split_ifs at h
  · obtain ⟨rfl, rfl⟩ := Prod.mk.inj (Option.some.inj h)
    exact ⟨SameRequest.refl s, rfl, fun h => Rc.noConfusion h, .inl rfl⟩
  split at h
  · exact absurd h nofun
  · obtain ⟨rfl, rfl⟩ := Prod.mk.inj (Option.some.inj h)
    exact ⟨⟨rfl, rfl, rfl, rfl, rfl, rfl, rfl, rfl, rfl, rfl⟩, rfl, fun _ => rfl, .inr rfl⟩
  · obtain ⟨rfl, rfl⟩ := Prod.mk.inj (Option.some.inj h)
    exact ⟨⟨rfl, rfl, rfl, rfl, rfl, rfl, rfl, rfl, rfl, rfl⟩, rfl, fun _ => rfl, .inl rfl⟩

/-! ## The open update -/

/-- An update is open in the core while pages are received, and no block is open then. -/
structure Opened (s : SyncNode) : Prop where
  isUpdate : s.worker.isUpdate = s.isUpdatingState
  openBlock : s.isUpdatingState = true → s.openBlock = false

/-- **What `on_update_db_page` does**: it ignores the page, or gives the update up, or writes
the page. -/
inductive PageHandled (attempts : List Attempt) (nodeId : ℤ) (page : DbPage) (s t : SyncNode) :
    Prop
  | ignored (same : t = s)
  | failed (u : SyncNode) (sender : nodeId = s.contactedNodeId)
      (state : s.syncDownState = .synchronizing) (request : SameRequest s u)
      (store : u.store = s.store) (applied : u.applied = s.applied) (worker : u.worker = .none)
      (next : u.pageFailed attempts nodeId = some t)
  | written (sender : nodeId = s.contactedNodeId) (state : s.syncDownState = .synchronizing)
      (request : SameRequest s t) (store : t.store = s.store) (applied : t.applied = s.applied)
      (worker : t.worker = .update (s.worker.written ++ [(nodeId, page)]))
      (isUpdatingState : t.isUpdatingState = true) (openBlock : t.openBlock = false)

/-- A page is written. -/
theorem pageHandled_of_write {written : Rc} {attempts : List Attempt} {nodeId : ℤ} {page : DbPage}
    {s u t : SyncNode} (hsender : nodeId = s.contactedNodeId)
    (hstate : s.syncDownState = .synchronizing) (hrequest : SameRequest s u)
    (hstore : u.store = s.store) (happlied : u.applied = s.applied)
    (hworker : u.worker = .update s.worker.written) (hupdating : u.isUpdatingState = true)
    (hblock : u.openBlock = false) (h : u.writeDbPage written attempts nodeId page = some t) :
    PageHandled attempts nodeId page s t := by
  obtain ⟨hupdate, hrc, hwritten⟩ := @updateDbPage_spec written nodeId page u _ hworker
  unfold writeDbPage at h
  dsimp only at h
  split_ifs at h with hfailed
  · exact .failed _ hsender hstate
      (hrequest.trans (hupdate.request.trans (sameRequest_cancel _))) (hupdate.store.trans hstore)
      (hupdate.applied.trans happlied) rfl h
  · obtain rfl := Option.some.inj h
    exact .written hsender hstate
      (hrequest.trans (hupdate.request.trans (sameRequest_timer _ _))) (hupdate.store.trans hstore)
      (hupdate.applied.trans happlied) (hwritten (hrc ▸ not_not.1 hfailed))
      (hupdate.isUpdatingState.trans hupdating) (hupdate.openBlock.trans hblock)

/-- The open block is rolled back before a page is written. -/
theorem rollback_spec (s : SyncNode) :
    let u := if s.openBlock = true then s.rollbackBlock else s
    SameRequest s u ∧ u.store = s.store ∧ u.applied = s.applied ∧ u.openBlock = false ∧
      u.isUpdatingState = s.isUpdatingState := by
  dsimp only
  split_ifs with hblock
  · exact ⟨⟨rfl, rfl, rfl, rfl, rfl, rfl, rfl, rfl, rfl, rfl⟩, rfl, rfl, rfl, rfl⟩
  · exact ⟨SameRequest.refl s, rfl, rfl, Bool.eq_false_of_not_eq_true hblock, rfl⟩

/-- Nothing is written where no update is open. -/
theorem written_of_not_update {worker : WorkerTxn} (h : worker.isUpdate = false) :
    worker.written = [] := by
  cases worker with
  | update written => exact absurd h (by simp [WorkerTxn.isUpdate])
  | none => rfl
  | block => rfl
  | read => rfl

theorem eq_update_of_isUpdate {worker : WorkerTxn} (h : worker.isUpdate = true) :
    worker = .update worker.written := by
  cases worker with
  | update written => rfl
  | none => exact absurd h (by decide)
  | block => exact absurd h (by decide)
  | read => exact absurd h (by decide)

/-- **A page is handled.** -/
theorem pageHandled {begun : BeginOutcomes} {written : Rc} {attempts : List Attempt}
    {nodeId : ℤ} {msg : PageMessage} {s t : SyncNode} (hopened : Opened s)
    (h : s.onUpdateDbPage begun written attempts nodeId msg = some t) :
    PageHandled attempts nodeId msg.page s t := by
  unfold onUpdateDbPage at h
  by_cases hsender : nodeId ≠ s.contactedNodeId
  · rw [if_pos hsender] at h
    exact .ignored (Option.some.inj h).symm
  rw [if_neg hsender] at h
  by_cases hheight : msg.height ≤ s.currentHeight
  · rw [if_pos hheight] at h
    exact .ignored (Option.some.inj h).symm
  rw [if_neg hheight] at h
  by_cases hstate : s.syncDownState ≠ .synchronizing
  · rw [if_pos hstate] at h
    exact .ignored (Option.some.inj h).symm
  rw [if_neg hstate] at h
  have hsender' := not_not.1 hsender
  have hstate' := not_not.1 hstate
  obtain ⟨hrequest, hstore, happlied, hblock, hsame⟩ := rollback_spec s
  dsimp only at h
  by_cases hupdating : s.isUpdatingState = true
  · -- an update is open already, so no block is
    have hclosed := hopened.openBlock hupdating
    rw [hclosed, if_neg Bool.false_ne_true, if_pos hupdating] at h
    exact pageHandled_of_write hsender' hstate' (SameRequest.refl s) rfl rfl
      (eq_update_of_isUpdate (hopened.isUpdate.trans hupdating)) hupdating hclosed h
  · generalize (if s.openBlock = true then s.rollbackBlock else s) = u at *
    rw [if_neg (by rw [hsame]; exact hupdating)] at h
    rcases hbegin : u.aergoliteBeginStateUpdate begun with ⟨rc, v⟩
    obtain ⟨hupdate, hopen, hclosed⟩ := beginStateUpdate_spec hbegin
    rw [hbegin] at h
    dsimp only at h
    have hempty : s.worker.written = [] := written_of_not_update
      (hopened.isUpdate.trans (Bool.eq_false_of_not_eq_true hupdating))
    split_ifs at h with hrc
    · exact .failed v hsender' hstate' (hrequest.trans hupdate.request)
        (hupdate.store.trans hstore) (hupdate.applied.trans happlied) (hclosed hrc) h
    · exact pageHandled_of_write hsender' hstate'
        (hrequest.trans (hupdate.request.trans (sameRequest_updating _ true)))
        (hupdate.store.trans hstore) (hupdate.applied.trans happlied)
        (hempty ▸ hopen (not_not.1 hrc)) rfl (hupdate.openBlock.trans hblock) h

/-- How the request goes on after an update is applied or refused: the node has failed, or
there was no memory for the block, or the block is the current one. -/
inductive Outcome (nodeId : ℤ) (allocated : Bool) (s u : SyncNode) : Prop
  | refused (request : SameRequest (s.markFailed nodeId) u)
  | lost (memory : allocated = false)
      (request : SameRequest
        { s.markFailed nodeId with currentBlock := none, syncDownState := .unknown } u)
  | current (block : SavedBlock)
      (request : SameRequest
        { s with currentBlock := some block, answered := s.answered ++ [nodeId] } u)

/-- **What `on_apply_state_update` does**: it ignores the block, or closes the update and asks
the next peer. -/
inductive ApplyHandled (attempts : List Attempt) (nodeId : ℤ) (allocated : Bool)
    (s t : SyncNode) : Prop
  | ignored (same : t = s)
  | closed (u : SyncNode) (sender : nodeId = s.contactedNodeId)
      (state : s.syncDownState = .synchronizing) (updating : s.isUpdatingState = true)
      (worker : u.worker = .none) (openBlock : u.openBlock = s.openBlock)
      (applied : u.applied = s.applied ∨ u.applied = s.applied ++ [(nodeId, s.worker.written)])
      (outcome : Outcome nodeId allocated s u) (next : u.applyExit attempts = some t)

/-- **The block of an update is handled.** -/
theorem applyHandled {c : Crypto} {o : ApplyOutcomes} {allocated : Bool} {attempts : List Attempt}
    {nodeId : ℤ} {msg : ApplyMessage} {s t : SyncNode}
    (h : s.onApplyStateUpdate c o allocated attempts nodeId msg = some t) :
    ApplyHandled attempts nodeId allocated s t := by
  unfold onApplyStateUpdate at h
  by_cases hsender : nodeId ≠ s.contactedNodeId
  · rw [if_pos hsender] at h
    exact .ignored (Option.some.inj h).symm
  rw [if_neg hsender] at h
  by_cases hheight : msg.height ≤ s.currentHeight
  · rw [if_pos hheight] at h
    exact .ignored (Option.some.inj h).symm
  rw [if_neg hheight] at h
  by_cases hstate : s.syncDownState ≠ .synchronizing ∨ s.isUpdatingState = false
  · rw [if_pos hstate] at h
    exact .ignored (Option.some.inj h).symm
  rw [if_neg hstate] at h
  obtain ⟨hsynchronizing, hupdating⟩ := not_or.1 hstate
  obtain ⟨⟨rc, u⟩, hcore, h⟩ := Option.bind_eq_some_iff.1 h
  obtain ⟨hsame, hblock, hclosed, happlied⟩ := applyStateUpdate_spec hcore
  have hcloses := fun v worker openBlock applied outcome next =>
    @ApplyHandled.closed attempts nodeId allocated s t v (not_not.1 hsender)
      (not_not.1 hsynchronizing) (Bool.eq_true_of_not_eq_false hupdating) worker openBlock applied
      outcome next
  dsimp only at h
  split_ifs at h with hrc hmemory
  · refine hcloses (u.aergoliteCancelStateUpdate.markFailed nodeId) rfl hblock happlied
      (.refused ?_) h
    refine ⟨hsame.peers, hsame.currentBlock, hsame.contactedNodeId, hsame.contactedNodes, ?_,
      hsame.syncDownState, hsame.assertFailed, hsame.asked, hsame.answered, ?_⟩
    · exact congrArg (appendId · nodeId) hsame.failedNodes
    · exact congrArg (· ++ [nodeId]) hsame.gaveUp
  · refine hcloses { u.markFailed nodeId with currentBlock := none, syncDownState := .unknown }
      (hclosed (not_not.1 hrc)) hblock happlied (.lost (by simpa using hmemory) ?_) h
    refine ⟨hsame.peers, rfl, hsame.contactedNodeId, hsame.contactedNodes, ?_, rfl,
      hsame.assertFailed, hsame.asked, hsame.answered, ?_⟩
    · exact congrArg (appendId · nodeId) hsame.failedNodes
    · exact congrArg (· ++ [nodeId]) hsame.gaveUp
  · refine hcloses { u with
        currentBlock := some ⟨msg.height, msg.header, msg.votes⟩
        answered := u.answered ++ [nodeId] }
      (hclosed (not_not.1 hrc)) hblock happlied
      (.current ⟨msg.height, msg.header, msg.votes⟩ ?_) h
    exact ⟨hsame.peers, rfl, hsame.contactedNodeId, hsame.contactedNodes, hsame.failedNodes,
      hsame.syncDownState, hsame.assertFailed, hsame.asked,
      congrArg (· ++ [nodeId]) hsame.answered, hsame.gaveUp⟩

/-- An open update is closed. -/
theorem cancelUpdate_spec (s : SyncNode) :
    SameRequest s s.cancelUpdate ∧ s.cancelUpdate.isUpdatingState = false ∧
      s.cancelUpdate.worker = (if s.isUpdatingState then .none else s.worker) ∧
      s.cancelUpdate.applied = s.applied := by
  unfold cancelUpdate
  split_ifs with hupdating
  · exact ⟨⟨rfl, rfl, rfl, rfl, rfl, rfl, rfl, rfl, rfl, rfl⟩, rfl, rfl, rfl⟩
  · exact ⟨SameRequest.refl s, Bool.eq_false_of_not_eq_true hupdating, rfl, rfl⟩

/-- The contacted node is marked. -/
theorem markContactedFailed_spec (s : SyncNode) :
    let t := s.markContactedFailed
    t.worker = s.worker ∧ t.isUpdatingState = s.isUpdatingState ∧ t.openBlock = s.openBlock ∧
      t.applied = s.applied ∧ t.syncDownState = s.syncDownState ∧
      t.assertFailed = s.assertFailed ∧ t.contactedNodeId = s.contactedNodeId ∧
      t.contactedNodes = s.contactedNodes ∧ t.asked = s.asked ∧ t.answered = s.answered ∧
      t.gaveUp = s.gaveUp ++ [s.contactedNodeId] := by
  unfold markContactedFailed
  dsimp only
  split_ifs
  · exact ⟨rfl, rfl, rfl, rfl, rfl, rfl, rfl, rfl, rfl, rfl, rfl⟩
  · exact ⟨rfl, rfl, rfl, rfl, rfl, rfl, rfl, rfl, rfl, rfl, rfl⟩

/-- A node that has just started has no update open. -/
theorem Fresh.opened {s : SyncNode} (h : s.Fresh) : Opened s :=
  ⟨by rw [h.worker, h.isUpdatingState]; rfl, fun _ => h.openBlock⟩

/-- Asking the next peer keeps the update as it is. -/
theorem Opened.next {attempts : List Attempt} {s t : SyncNode} (hopened : Opened s)
    (h : requestStateUpdateNext attempts s = some t) : Opened t := by
  obtain ⟨hasks, -⟩ := contactNext_spec h
  refine ⟨?_, fun hupdating => ?_⟩
  · rw [hasks.worker, hasks.isUpdatingState]
    exact hopened.isUpdate
  · rw [hasks.isUpdatingState] at hupdating
    rw [hasks.openBlock]
    exact hopened.openBlock hupdating

/-- No update is open. -/
theorem opened_of_closed {s : SyncNode} (hworker : s.worker.isUpdate = false)
    (hupdating : s.isUpdatingState = false) : Opened s :=
  ⟨hworker.trans hupdating.symm, fun h => Bool.noConfusion (hupdating.symm.trans h)⟩

/-- While a block is open, no update is. -/
theorem Opened.not_updating {s : SyncNode} (h : Opened s) (hblock : s.openBlock = true) :
    s.isUpdatingState = false := by
  cases hupdating : s.isUpdatingState with
  | false => rfl
  | true => exact absurd ((h.openBlock hupdating).symm.trans hblock) Bool.false_ne_true

/-- A roll-back of a block closes no update. -/
theorem Opened.rollback {s : SyncNode} (h : Opened s) (hblock : s.openBlock = true) :
    s.aergoliteRollbackBlock.worker.isUpdate = false ∧ s.isUpdatingState = false := by
  have hupdating := h.not_updating hblock
  refine ⟨?_, hupdating⟩
  change WorkerTxn.isUpdate (if s.activeBlock = true then .none else s.worker) = false
  split_ifs
  · rfl
  · exact h.isUpdate.trans hupdating

/-! ## What a step does -/

/-- The request is left alone, and so is the update, or there is none. -/
structure Leaves (s t : SyncNode) : Prop where
  contactedNodeId : t.contactedNodeId = s.contactedNodeId
  contactedNodes : t.contactedNodes = s.contactedNodes
  asked : t.asked = s.asked
  answered : t.answered = s.answered
  gaveUp : t.gaveUp = s.gaveUp
  stateUpdateTimer : t.stateUpdateTimer = s.stateUpdateTimer
  isUpdatingState : t.isUpdatingState = s.isUpdatingState
  assertFailed : t.assertFailed = s.assertFailed
  applied : t.applied = s.applied
  update : (t.worker = s.worker ∧ t.openBlock = s.openBlock) ∨
    (t.worker.isUpdate = false ∧ s.isUpdatingState = false)

theorem Leaves.refl (s : SyncNode) : Leaves s s :=
  ⟨rfl, rfl, rfl, rfl, rfl, rfl, rfl, rfl, rfl, .inl ⟨rfl, rfl⟩⟩

/-- The contacted node has answered or failed. -/
structure Settled (s u : SyncNode) : Prop where
  contactedNodes : u.contactedNodes = s.contactedNodes
  asked : u.asked = s.asked
  answered : ∀ nodeId ∈ s.answered, nodeId ∈ u.answered
  gaveUp : ∀ nodeId ∈ s.gaveUp, nodeId ∈ u.gaveUp
  contacted : s.contactedNodeId ∈ u.answered ∨ s.contactedNodeId ∈ u.gaveUp
  syncDownState : u.syncDownState = s.syncDownState
  assertFailed : u.assertFailed = s.assertFailed

/-- The update, when the next peer is asked: the answer of a busy node and of one that has nothing
newer keep it, and all else closes it. -/
inductive UpdateLeft (s : SyncNode) (e : SyncEvent) (u : SyncNode) : Prop
  | kept (answer : ∃ attempts,
        e = .busy attempts s.contactedNodeId ∨ e = .uptodate attempts s.contactedNodeId)
      (worker : u.worker = s.worker) (isUpdatingState : u.isUpdatingState = s.isUpdatingState)
      (openBlock : u.openBlock = s.openBlock) (applied : u.applied = s.applied)
  | closed (worker : u.worker.isUpdate = false) (isUpdatingState : u.isUpdatingState = false)
      (applied : u.applied = s.applied ∨
        u.applied = s.applied ++ [(s.contactedNodeId, s.worker.written)])

/-- **What a step does.** -/
inductive Stepped (s : SyncNode) (e : SyncEvent) (t : SyncNode) : Prop
  | leaves (request : Leaves s t) (state : t.syncDownState = s.syncDownState)
  /-- The first authorization, news of a peer that is ahead, or a request without peers. -/
  | states (request : Leaves s t) (state : e = .firstAuthorization ∨
      s.syncDownState ≠ .synchronizing ∧ t.syncDownState ≠ .synchronizing ∧
        t.syncDownState ≠ .inSync)
  | asks (attempts : List Attempt) (idle : s.syncDownState ≠ .synchronizing)
      (next : requestStateUpdateNext attempts { s with syncDownState := .synchronizing } = some t)
  /-- The contacted node has answered or failed, or there was no memory for its block. -/
  | settles (attempts : List Attempt) (u : SyncNode)
      (waited : e.sender = some s.contactedNodeId ∨ s.stateUpdateTimer = true)
      (request : Settled s u ∨ ∃ o attempts nodeId msg, e = .apply o false attempts nodeId msg)
      (update : UpdateLeft s e u) (next : requestStateUpdateNext attempts u = some t)
  | written (page : DbPage) (sender : e.sender = some s.contactedNodeId)
      (state : s.syncDownState = .synchronizing) (request : SameRequest s t)
      (applied : t.applied = s.applied)
      (worker : t.worker = .update (s.worker.written ++ [(s.contactedNodeId, page)]))
      (isUpdatingState : t.isUpdatingState = true) (openBlock : t.openBlock = false)

/-- An answer that is ignored. -/
theorem stepped_refl (s : SyncNode) (e : SyncEvent) : Stepped s e s := .leaves (.refl s) rfl

/-- **A step is one of these.** -/
theorem stepped {c : Crypto} {s t : SyncNode} {e : SyncEvent} (hopened : Opened s)
    (hs : s.step c e = some t) : Stepped s e t := by
  cases e with
  | connections peers =>
      obtain rfl := Option.some.inj hs
      exact .leaves ⟨rfl, rfl, rfl, rfl, rfl, rfl, rfl, rfl, rfl, .inl ⟨rfl, rfl⟩⟩ rfl
  | authorizations auths =>
      obtain rfl := Option.some.inj hs
      exact .leaves ⟨rfl, rfl, rfl, rfl, rfl, rfl, rfl, rfl, rfl, .inl ⟨rfl, rfl⟩⟩ rfl
  | firstAuthorization =>
      simp only [step] at hs
      split_ifs at hs
      obtain rfl := Option.some.inj hs
      exact .states ⟨rfl, rfl, rfl, rfl, rfl, rfl, rfl, rfl, rfl, .inl ⟨rfl, rfl⟩⟩ (.inl rfl)
  | beginBlock =>
      simp only [step] at hs
      cases hworker : s.worker with
      | none =>
          rw [hworker] at hs
          dsimp only at hs
          split_ifs at hs
          obtain rfl := Option.some.inj hs
          have hupdating : s.isUpdatingState = false := by rw [← hopened.isUpdate, hworker]; rfl
          exact .leaves ⟨rfl, rfl, rfl, rfl, rfl, rfl, rfl, rfl, rfl, .inr ⟨rfl, hupdating⟩⟩ rfl
      | block => simp [hworker] at hs
      | read => simp [hworker] at hs
      | update written => simp [hworker] at hs
  | rollbackBlock =>
      simp only [step] at hs
      split_ifs at hs with hblock
      obtain rfl := Option.some.inj hs
      obtain ⟨hclosed, hupdating⟩ := hopened.rollback hblock
      exact .leaves ⟨rfl, rfl, rfl, rfl, rfl, rfl, rfl, rfl, rfl, .inr ⟨hclosed, hupdating⟩⟩ rfl
  | refuseBlock =>
      simp only [step] at hs
      split_ifs at hs with hblock
      obtain rfl := Option.some.inj hs
      obtain ⟨hclosed, hupdating⟩ := hopened.rollback (Bool.and_eq_true_iff.1 hblock).1
      exact .leaves ⟨rfl, rfl, rfl, rfl, rfl, rfl, rfl, rfl, rfl, .inr ⟨hclosed, hupdating⟩⟩ rfl
  | commitBlock block store =>
      simp only [step] at hs
      split_ifs at hs with hblock
      obtain rfl := Option.some.inj hs
      obtain ⟨hclosed, hupdating⟩ := hopened.rollback (Bool.and_eq_true_iff.1 hblock).1
      exact .leaves ⟨rfl, rfl, rfl, rfl, rfl, rfl, rfl, rfl, rfl, .inr ⟨hclosed, hupdating⟩⟩ rfl
  | outdated state =>
      simp only [step] at hs
      split_ifs at hs with hstate
      obtain ⟨hidle, hsynchronizing, hinSync⟩ := by simpa [not_or] using hstate
      obtain rfl := Option.some.inj hs
      exact .states ⟨rfl, rfl, rfl, rfl, rfl, rfl, rfl, rfl, rfl, .inl ⟨rfl, rfl⟩⟩
        (.inr ⟨hidle, hsynchronizing, hinSync⟩)
  | loadState block =>
      simp only [step] at hs
      split_ifs at hs
      obtain rfl := Option.some.inj hs
      exact .leaves ⟨rfl, rfl, rfl, rfl, rfl, rfl, rfl, rfl, rfl, .inl ⟨rfl, rfl⟩⟩ rfl
  | request attempts =>
      simp only [step, requestStateUpdate] at hs
      split_ifs at hs with hstate
      · obtain rfl := Option.some.inj hs
        exact stepped_refl _ _
      · obtain rfl := Option.some.inj hs
        exact .states ⟨rfl, rfl, rfl, rfl, rfl, rfl, rfl, rfl, rfl, .inl ⟨rfl, rfl⟩⟩
          (.inr ⟨hstate, nofun, nofun⟩)
      · exact .asks attempts hstate hs
  | timeout attempts =>
      simp only [step] at hs
      split_ifs at hs with htimer
      obtain ⟨hrequest, hupdating, hworker, happlied⟩ :=
        cancelUpdate_spec { s with stateUpdateTimer := false }
      obtain ⟨hworker', hupdating', -, happlied', hstate', hassert', -, hnodes', hasked', hanswered',
        hgaveUp'⟩ := markContactedFailed_spec (cancelUpdate { s with stateUpdateTimer := false })
      refine .settles attempts _ (.inr htimer) (.inl ?_) (.closed ?_ (hupdating'.trans hupdating)
        (.inl (happlied'.trans happlied))) hs
      · refine ⟨hnodes'.trans hrequest.contactedNodes, hasked'.trans hrequest.asked, ?_, ?_, .inr ?_,
          hstate'.trans hrequest.syncDownState, hassert'.trans hrequest.assertFailed⟩
        · rw [hanswered', hrequest.answered]
          exact fun _ => id
        · rw [hgaveUp', hrequest.gaveUp]
          exact fun _ => List.mem_append_left _
        · rw [hgaveUp', hrequest.contactedNodeId]
          exact List.mem_append_right _ List.mem_cons_self
      · rw [hworker', hworker]
        split_ifs with hopen
        · rfl
        · exact hopened.isUpdate.trans (Bool.eq_false_of_not_eq_true hopen)
  | busy attempts nodeId =>
      simp only [step, onNodeIsBusy] at hs
      split_ifs at hs with hsender
      · obtain rfl := Option.some.inj hs
        exact stepped_refl _ _
      · obtain rfl := not_not.1 hsender
        obtain ⟨hworker, hupdating, hblock, happlied, hstate, hassert, -, hnodes, hasked, hanswered,
          hgaveUp⟩ := markContactedFailed_spec s
        refine .settles attempts { s.markContactedFailed with stateUpdateTimer := false } (.inl rfl)
          (.inl ⟨hnodes, hasked, ?_, ?_, .inr ?_, hstate, hassert⟩)
          (.kept ⟨attempts, .inl rfl⟩ hworker hupdating hblock happlied) hs
        · exact fun _ hmem => hanswered.symm ▸ hmem
        · exact fun _ hmem => hgaveUp.symm ▸ List.mem_append_left _ hmem
        · exact hgaveUp.symm ▸ List.mem_append_right _ List.mem_cons_self
  | uptodate attempts nodeId =>
      simp only [step, onUptodateMessage] at hs
      split_ifs at hs with hsender
      · obtain rfl := Option.some.inj hs
        exact stepped_refl _ _
      · obtain rfl := not_not.1 hsender
        refine .settles attempts { s with
            stateUpdateTimer := false, answered := s.answered ++ [s.contactedNodeId] } (.inl rfl)
          (.inl ⟨rfl, rfl, ?_, fun _ => id, .inl ?_, rfl, rfl⟩)
          (.kept ⟨attempts, .inr rfl⟩ rfl rfl rfl rfl) hs
        · exact fun _ => List.mem_append_left _
        · exact List.mem_append_right _ List.mem_cons_self
  | page begun written attempts nodeId msg =>
      cases pageHandled hopened hs with
      | ignored same => exact same ▸ stepped_refl _ _
      | failed u sender state request store applied worker next =>
          obtain rfl := sender
          refine .settles attempts { u.markFailed s.contactedNodeId with
              isUpdatingState := false, stateUpdateTimer := false } (.inl rfl)
            (.inl ⟨request.contactedNodes, request.asked, ?_, ?_, .inr ?_, request.syncDownState,
              request.assertFailed⟩)
            (.closed (congrArg WorkerTxn.isUpdate worker) rfl (.inl applied)) next
          · exact fun _ hmem => request.answered.symm ▸ hmem
          · exact fun _ hmem => List.mem_append_left _ (request.gaveUp.symm ▸ hmem)
          · exact List.mem_append_right _ List.mem_cons_self
      | written sender state request store applied worker isUpdatingState openBlock =>
          obtain rfl := sender
          exact .written msg.page rfl state request applied worker isUpdatingState openBlock
  | apply o allocated attempts nodeId msg =>
      cases applyHandled hs with
      | ignored same => exact same ▸ stepped_refl _ _
      | closed u sender state updating worker openBlock applied outcome next =>
          obtain rfl := sender
          refine .settles attempts { u with isUpdatingState := false, stateUpdateTimer := false }
            (.inl rfl) ?_ (.closed (congrArg WorkerTxn.isUpdate worker) rfl applied) next
          cases outcome with
          | refused request =>
              refine .inl ⟨request.contactedNodes, request.asked, ?_, ?_, .inr ?_,
                request.syncDownState, request.assertFailed⟩
              · exact fun _ hmem => request.answered.symm ▸ hmem
              · exact fun _ hmem => request.gaveUp.symm ▸ List.mem_append_left _ hmem
              · exact request.gaveUp.symm ▸ List.mem_append_right _ List.mem_cons_self
          | lost memory request => exact .inr ⟨o, attempts, s.contactedNodeId, msg, memory ▸ rfl⟩
          | current block request =>
              refine .inl ⟨request.contactedNodes, request.asked, ?_, ?_, .inl ?_,
                request.syncDownState, request.assertFailed⟩
              · exact fun _ hmem => request.answered.symm ▸ List.mem_append_left _ hmem
              · exact fun _ hmem => request.gaveUp.symm ▸ hmem
              · exact request.answered.symm ▸ List.mem_append_right _ List.mem_cons_self

/-- What leaves the update alone leaves it open or closed. -/
theorem Opened.leaves {s t : SyncNode} (h : Opened s) (hleaves : Leaves s t) : Opened t := by
  rcases hleaves.update with ⟨hworker, hblock⟩ | ⟨hworker, hupdating⟩
  · refine ⟨?_, fun hopen => ?_⟩
    · rw [hworker, hleaves.isUpdatingState]
      exact h.isUpdate
    · exact hblock.trans (h.openBlock (hleaves.isUpdatingState.symm.trans hopen))
  · exact opened_of_closed hworker (hleaves.isUpdatingState.trans hupdating)

/-- **The update is open in the core while pages are received**, in every run. -/
theorem invariant_opened (c : Crypto) : (synchronization c).Invariant Opened where
  init s h := Fresh.opened h
  step s e t h hs := by
    cases stepped h hs with
    | leaves request state => exact h.leaves request
    | states request state => exact h.leaves request
    | asks attempts idle next =>
        exact Opened.next (s := { s with syncDownState := .synchronizing })
          ⟨h.isUpdate, h.openBlock⟩ next
    | settles attempts u waited request update next =>
        refine Opened.next ?_ next
        cases update with
        | kept answer worker isUpdatingState openBlock applied =>
            refine ⟨?_, fun hopen => openBlock.trans (h.openBlock (isUpdatingState.symm.trans hopen))⟩
            rw [worker, isUpdatingState]
            exact h.isUpdate
        | closed worker isUpdatingState applied => exact opened_of_closed worker isUpdatingState
    | written page sender state request applied worker isUpdatingState openBlock =>
        refine ⟨?_, fun _ => openBlock⟩
        rw [worker, isUpdatingState]
        rfl

/-! ## Asking only while synchronizing -/

/-- The node is contacted. -/
def Contacts (s : SyncNode) (nodeId : ℤ) : Prop := nodeId = s.contactedNodeId ∧ nodeId ≠ 0

/-- **Only the contacted node is listened to.**  `request_state_update_next` is entered only
while synchronizing, and the answer of another node changes nothing. -/
structure OnlyContacted (s : SyncNode) (e : SyncEvent) (t : SyncNode) : Prop where
  assertion : t.assertFailed = false
  ignored : ∀ nodeId, e.sender = some nodeId → ¬ s.Contacts nodeId →
    t.store = s.store ∧ t.worker = s.worker ∧ t.isUpdatingState = s.isUpdatingState ∧
      t.syncDownState = s.syncDownState

/-- An answer is taken only from a node with an id, there is memory for the block of an update
that is applied, and the first authorization is not made while synchronizing. -/
structure Addressed (s : SyncNode) (e : SyncEvent) : Prop where
  sender : ∀ nodeId, e.sender = some nodeId → nodeId = s.contactedNodeId → nodeId ≠ 0
  allocated : ∀ o allocated attempts nodeId msg, e = .apply o allocated attempts nodeId msg →
    allocated = true
  first : e = .firstAuthorization → s.syncDownState ≠ .synchronizing

/-- A node is contacted, and an answer is waited for, only while synchronizing. -/
structure Waits (s : SyncNode) : Prop where
  assertion : s.assertFailed = false
  contacted : s.contactedNodeId ≠ 0 → s.syncDownState = .synchronizing
  timer : s.stateUpdateTimer = true → s.syncDownState = .synchronizing

theorem Fresh.waits {s : SyncNode} (h : s.Fresh) : Waits s :=
  ⟨h.assertFailed, fun hne => absurd h.contactedNodeId hne,
    fun htimer => absurd (h.stateUpdateTimer.symm.trans htimer) Bool.false_ne_true⟩

/-- The assertion of `request_state_update_next` holds, and what it leaves behind waits. -/
theorem waits_of_next {attempts : List Attempt} {s t : SyncNode}
    (hstate : s.syncDownState = .synchronizing) (hassert : s.assertFailed = false)
    (h : requestStateUpdateNext attempts s = some t) : Waits t := by
  obtain ⟨hasks, hends⟩ := contactNext_spec h
  have hassert' : t.assertFailed = false := by
    rw [hasks.assertFailed]
    dsimp only
    rw [hassert, hstate]
    rfl
  cases hends with
  | waits timer state => exact ⟨hassert', fun _ => state.trans hstate, fun _ => state.trans hstate⟩
  | finishes timer contacted state =>
      exact ⟨hassert', fun hne => absurd contacted hne,
        fun htimer => absurd (timer.symm.trans htimer) Bool.false_ne_true⟩

/-- Where the state is not synchronizing, nothing is waited for. -/
theorem Waits.idle {s : SyncNode} (h : Waits s) (hstate : s.syncDownState ≠ .synchronizing) :
    s.contactedNodeId = 0 ∧ s.stateUpdateTimer = false := by
  constructor
  · by_contra hne
    exact hstate (h.contacted hne)
  · exact Bool.eq_false_of_not_eq_true fun htimer => hstate (h.timer htimer)

/-- A node that waits for nothing waits for nothing in another state either. -/
theorem waits_of_idle {s : SyncNode} (hassert : s.assertFailed = false)
    (h : s.contactedNodeId = 0 ∧ s.stateUpdateTimer = false) : Waits s :=
  ⟨hassert, fun hne => absurd h.1 hne,
    fun htimer => absurd (h.2.symm.trans htimer) Bool.false_ne_true⟩

/-- What leaves the request alone leaves the timer and the contacted node. -/
theorem Waits.leaves {s t : SyncNode} (h : Waits s) (hleaves : Leaves s t)
    (hstate : t.syncDownState = s.syncDownState) : Waits t := by
  refine ⟨hleaves.assertFailed.trans h.assertion, fun hne => ?_, fun htimer => ?_⟩
  · rw [hleaves.contactedNodeId] at hne
    exact hstate.trans (h.contacted hne)
  · rw [hleaves.stateUpdateTimer] at htimer
    exact hstate.trans (h.timer htimer)

/-- A node that is waited for is waited for while synchronizing. -/
theorem Waits.synchronizing {s : SyncNode} {e : SyncEvent} (h : Waits s)
    (haddressed : Addressed s e)
    (hwaited : e.sender = some s.contactedNodeId ∨ s.stateUpdateTimer = true) :
    s.syncDownState = .synchronizing := by
  rcases hwaited with hsender | htimer
  · exact h.contacted (haddressed.sender _ hsender rfl)
  · exact h.timer htimer

/-- There is memory for the block. -/
theorem Addressed.settled {s u : SyncNode} {e : SyncEvent} (h : Addressed s e)
    (hrequest : Settled s u ∨ ∃ o attempts nodeId msg, e = .apply o false attempts nodeId msg) :
    Settled s u := by
  refine hrequest.resolve_right ?_
  rintro ⟨o, attempts, nodeId, msg, rfl⟩
  exact Bool.false_ne_true (h.allocated o false attempts nodeId msg rfl)

/-- **A step of a node that waits**, if it is addressed. -/
theorem Waits.step {c : Crypto} {s t : SyncNode} {e : SyncEvent} (hopened : Opened s)
    (h : Waits s) (haddressed : Addressed s e) (hs : s.step c e = some t) : Waits t := by
  cases stepped hopened hs with
  | leaves request state => exact h.leaves request state
  | states request state =>
      have hidle : s.syncDownState ≠ .synchronizing := by
        rcases state with hfirst | ⟨hidle, -⟩
        · exact haddressed.first hfirst
        · exact hidle
      obtain ⟨hcontacted, htimer⟩ := h.idle hidle
      exact waits_of_idle (request.assertFailed.trans h.assertion)
        ⟨request.contactedNodeId.trans hcontacted, request.stateUpdateTimer.trans htimer⟩
  | asks attempts idle next =>
      exact waits_of_next (s := { s with syncDownState := .synchronizing }) rfl h.assertion next
  | settles attempts u waited request update next =>
      have hsettled := haddressed.settled request
      exact waits_of_next (hsettled.syncDownState.trans (h.synchronizing haddressed waited))
        (hsettled.assertFailed.trans h.assertion) next
  | written page sender state request applied worker isUpdatingState openBlock =>
      have hstate := request.syncDownState.trans state
      exact ⟨request.assertFailed.trans h.assertion, fun _ => hstate, fun _ => hstate⟩

/-- An answer of another node is ignored. -/
theorem step_ignored {c : Crypto} {s t : SyncNode} {e : SyncEvent} {nodeId : ℤ}
    (hsender : e.sender = some nodeId) (hother : nodeId ≠ s.contactedNodeId)
    (hs : s.step c e = some t) : t = s := by
  cases e with
  | busy attempts nodeId' =>
      obtain rfl := Option.some.inj hsender
      exact (Option.some.inj ((if_pos hother).symm.trans hs)).symm
  | uptodate attempts nodeId' =>
      obtain rfl := Option.some.inj hsender
      exact (Option.some.inj ((if_pos hother).symm.trans hs)).symm
  | page begun written attempts nodeId' msg =>
      obtain rfl := Option.some.inj hsender
      exact (Option.some.inj ((if_pos hother).symm.trans hs)).symm
  | apply o allocated attempts nodeId' msg =>
      obtain rfl := Option.some.inj hsender
      exact (Option.some.inj ((if_pos hother).symm.trans hs)).symm
  | _ => exact absurd hsender nofun

/-- While answers are addressed, answers are waited for only while synchronizing. -/
theorem invariant_waits (c : Crypto) :
    ((synchronization c).restrict Addressed).Invariant fun s => Opened s ∧ Waits s :=
  ((invariant_opened c).restrict Addressed).relative (fun _ h => Fresh.waits h)
    fun _ _ _ hopened hwaits hs => hwaits.step hopened hs.1 hs.2

/-- A node that has just started with an authorization list, some peers and its last block. -/
def newNode (authorizations : List NodeAuth) (peers : List Peer)
    (currentBlock : Option SavedBlock) : SyncNode where
  store := ⟨fun _ => [], [], newArray zeroHash 16 32, [], currentBlock⟩
  authorizations := authorizations
  worker := .none
  stateTxn := false
  activeBlock := false
  modPages := false
  peers := peers
  currentBlock := currentBlock
  openBlock := false
  isUpdatingState := false
  contactedNodeId := 0
  contactedNodes := none
  failedNodes := none
  stateUpdateTimer := false
  syncDownState := .unknown
  assertFailed := false
  asked := []
  answered := []
  gaveUp := []
  applied := []

theorem newNode_fresh (authorizations : List NodeAuth) (peers : List Peer)
    (currentBlock : Option SavedBlock) : (newNode authorizations peers currentBlock).Fresh :=
  ⟨rfl, rfl, rfl, rfl, rfl, rfl, rfl, rfl, rfl, rfl, rfl, rfl, rfl⟩

/-- A node of three that has a block, connected to the other two. -/
def oneOfThree : SyncNode :=
  newNode (threeAuths 1) [⟨2, List.replicate 33 2, true⟩, ⟨3, List.replicate 33 3, true⟩]
    (some ⟨1, ⟨1, [], [], [], 1, [], []⟩, []⟩)

/-- The node once it has asked node 2. -/
def askingTwo : SyncNode :=
  { oneOfThree with
    contactedNodeId := 2
    contactedNodes := some [2]
    failedNodes := some []
    stateUpdateTimer := true
    syncDownState := .synchronizing
    asked := [2] }

theorem step_askingTwo :
    oneOfThree.step plainCrypto (.request [⟨0, true⟩]) = some askingTwo := rfl

end SyncNode
end NoLeader
end AergoLite
