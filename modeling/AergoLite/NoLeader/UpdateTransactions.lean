/-
# The transaction of a state update

The pages of an update are written in a transaction, which is open in the core exactly while
`is_updating_state` is set.  A page that cannot be written, a timeout, and the block of the
update close it.  An answer that the peer is busy or that nothing is newer does not, although
the next peer is asked then: the node can be in sync with the update still open
(`update_open_in_sync`), or write the pages of the next peer to it.  `oneUpdate_of_closed` says
that this is all.
-/

import AergoLite.NoLeader.Synchronization

namespace AergoLite
namespace NoLeader

open AergoLite.Core
open Transition

namespace SyncNode

/-- **One update at a time.**  It is open in the core exactly while pages are received, which
is while synchronizing; the node that sends its block has sent all of its pages. -/
structure OneUpdate (s : SyncNode) : Prop where
  isUpdate : s.worker.isUpdate = true ↔ s.isUpdatingState = true
  synchronizing : s.isUpdatingState = true → s.syncDownState = .synchronizing
  onePeer : ∃ nodeId, ∀ page ∈ s.worker.written, page.1 = nodeId
  applied : ∀ update ∈ s.applied, ∀ page ∈ update.2, page.1 = update.1

/-- The answers are those of nodes with an id; no contacted node answers that it is busy or that
nothing is newer while its pages are received, and the first authorization is not made then. -/
structure Closes (s : SyncNode) (e : SyncEvent) : Prop where
  sender : ∀ nodeId, e.sender = some nodeId → nodeId = s.contactedNodeId → nodeId ≠ 0
  busy : ∀ attempts, e = .busy attempts s.contactedNodeId → s.isUpdatingState = false
  uptodate : ∀ attempts, e = .uptodate attempts s.contactedNodeId → s.isUpdatingState = false
  first : e = .firstAuthorization → s.isUpdatingState = false

/-- The pages that are written are those of the contacted node, and so were those of an update
that is applied. -/
structure FromContacted (s : SyncNode) : Prop where
  synchronizing : s.isUpdatingState = true → s.syncDownState = .synchronizing
  written : ∀ page ∈ s.worker.written, page.1 = s.contactedNodeId
  applied : ∀ update ∈ s.applied, ∀ page ∈ update.2, page.1 = update.1

theorem Fresh.fromContacted {s : SyncNode} (h : s.Fresh) : FromContacted s := by
  refine ⟨fun hupdating => ?_, ?_, ?_⟩
  · exact absurd (h.isUpdatingState.symm.trans hupdating) Bool.false_ne_true
  · rw [h.worker]
    exact fun page hpage => absurd hpage List.not_mem_nil
  · rw [h.applied]
    exact fun update hupdate => absurd hupdate List.not_mem_nil

/-- No update is open. -/
theorem fromContacted_of_closed {s : SyncNode} (hworker : s.worker.isUpdate = false)
    (hupdating : s.isUpdatingState = false)
    (happlied : ∀ update ∈ s.applied, ∀ page ∈ update.2, page.1 = update.1) : FromContacted s := by
  refine ⟨fun h => absurd (hupdating.symm.trans h) Bool.false_ne_true, ?_, happlied⟩
  rw [written_of_not_update hworker]
  exact fun page hpage => absurd hpage List.not_mem_nil

/-- The next peer is asked while no update is open. -/
theorem fromContacted_of_next {attempts : List Attempt} {s t : SyncNode}
    (hworker : s.worker.isUpdate = false) (hupdating : s.isUpdatingState = false)
    (happlied : ∀ update ∈ s.applied, ∀ page ∈ update.2, page.1 = update.1)
    (h : requestStateUpdateNext attempts s = some t) : FromContacted t := by
  obtain ⟨hasks, -⟩ := contactNext_spec h
  refine fromContacted_of_closed ?_ (hasks.isUpdatingState.trans hupdating) ?_
  · rw [hasks.worker]
    exact hworker
  · rw [hasks.applied]
    exact happlied

/-- What a step that leaves the request alone does to the update. -/
theorem FromContacted.leaves {s t : SyncNode} (h : FromContacted s) (hleaves : Leaves s t)
    (hstate : t.syncDownState = s.syncDownState ∨ s.isUpdatingState = false) :
    FromContacted t := by
  rcases hleaves.update with ⟨hworker, -⟩ | ⟨hworker, hupdating⟩
  · refine ⟨fun hopen => ?_, ?_, ?_⟩
    · rw [hleaves.isUpdatingState] at hopen
      rcases hstate with hstate | hclosed
      · exact hstate.trans (h.synchronizing hopen)
      · exact absurd (hclosed.symm.trans hopen) Bool.false_ne_true
    · rw [hworker, hleaves.contactedNodeId]
      exact h.written
    · rw [hleaves.applied]
      exact h.applied
  · refine fromContacted_of_closed hworker (hleaves.isUpdatingState.trans hupdating) ?_
    rw [hleaves.applied]
    exact h.applied

/-- Where the state is not synchronizing, no pages are received. -/
theorem FromContacted.not_updating {s : SyncNode} (h : FromContacted s)
    (hstate : s.syncDownState ≠ .synchronizing) : s.isUpdatingState = false :=
  Bool.eq_false_of_not_eq_true fun hupdating => hstate (h.synchronizing hupdating)

/-- An update that is applied is that of the contacted node. -/
theorem FromContacted.applied_of_closed {s u : SyncNode} (h : FromContacted s)
    (happlied : u.applied = s.applied ∨
      u.applied = s.applied ++ [(s.contactedNodeId, s.worker.written)]) :
    ∀ update ∈ u.applied, ∀ page ∈ update.2, page.1 = update.1 := by
  rcases happlied with hsame | hnew
  · rw [hsame]
    exact h.applied
  · rw [hnew]
    intro update hupdate
    rcases List.mem_append.1 hupdate with hbefore | hlast
    · exact h.applied update hbefore
    · rw [List.mem_singleton.1 hlast]
      exact h.written

/-- **A step keeps the pages apart**, if it closes the update where it asks the next peer. -/
theorem FromContacted.step {c : Crypto} {s t : SyncNode} {e : SyncEvent} (hopened : Opened s)
    (h : FromContacted s) (hcloses : Closes s e) (hs : s.step c e = some t) :
    FromContacted t := by
  have hworker : s.isUpdatingState = false → s.worker.isUpdate = false := hopened.isUpdate.trans
  cases stepped hopened hs with
  | leaves request state => exact h.leaves request (.inl state)
  | states request state =>
      refine h.leaves request (.inr ?_)
      rcases state with hfirst | ⟨hidle, -⟩
      · exact hcloses.first hfirst
      · exact h.not_updating hidle
  | asks attempts idle next =>
      have hupdating := h.not_updating idle
      exact fromContacted_of_next (s := { s with syncDownState := .synchronizing })
        (hworker hupdating) hupdating h.applied next
  | settles attempts u waited request update next =>
      cases update with
      | kept answer worker isUpdatingState openBlock applied =>
          have hupdating : s.isUpdatingState = false := by
            obtain ⟨attempts', hbusy | huptodate⟩ := answer
            · exact hcloses.busy attempts' hbusy
            · exact hcloses.uptodate attempts' huptodate
          refine fromContacted_of_next ?_ (isUpdatingState.trans hupdating)
            (h.applied_of_closed (.inl applied)) next
          rw [worker]
          exact hworker hupdating
      | closed worker isUpdatingState applied =>
          exact fromContacted_of_next worker isUpdatingState (h.applied_of_closed applied) next
  | written page sender state request applied worker isUpdatingState openBlock =>
      refine ⟨fun _ => request.syncDownState.trans state, ?_, ?_⟩
      · rw [worker, request.contactedNodeId]
        intro other hother
        rcases List.mem_append.1 hother with hbefore | hnew
        · exact h.written other hbefore
        · rw [List.mem_singleton.1 hnew]
      · rw [applied]
        exact h.applied

/-- **One update at a time**, in every run whose steps close it. -/
theorem oneUpdate_of_closed {c : Crypto} {s : SyncNode}
    (hreach : ((synchronization c).restrict Closes).Reachable s) : OneUpdate s := by
  have hinvariant := ((invariant_opened c).restrict Closes).relative
    (fun _ h => Fresh.fromContacted h)
    (fun _ _ _ hopened h hs => h.step hopened hs.1 hs.2)
  obtain ⟨hopened, h⟩ := hinvariant.reachable hreach
  exact ⟨by rw [hopened.isUpdate], h.synchronizing, ⟨s.contactedNodeId, h.written⟩, h.applied⟩

/-- A page of the contacted node, and nothing that fails. -/
def pageOfTwo : SyncEvent :=
  .page ⟨true, .ok, .ok⟩ .ok [] 2 ⟨2, ⟨1, []⟩⟩

/-- The contacted node sends a page, and then that nothing is newer. -/
theorem update_open_in_sync : ¬ ∀ s, (synchronization plainCrypto).Reachable s → OneUpdate s := by
  intro h
  have hreach : (synchronization plainCrypto).Reachable askingTwo :=
    .step (.request [⟨0, true⟩]) (.init (newNode_fresh _ _ _)) step_askingTwo
  have hlast := h _ (.step (.uptodate [⟨0, true⟩] 2) (.step pageOfTwo hreach rfl) rfl)
  exact absurd (hlast.synchronizing rfl) (by decide)

/-- The contacted node sends a page. -/
theorem oneUpdate_of_closed_page : ∃ s,
    askingTwo.step plainCrypto pageOfTwo = some s ∧ OneUpdate s := by
  have hreach : ((synchronization plainCrypto).restrict Closes).Reachable askingTwo :=
    .step (.request [⟨0, true⟩]) (.init (newNode_fresh _ _ _))
      ⟨⟨fun _ h => absurd h nofun, fun _ h => absurd h nofun, fun _ h => absurd h nofun,
        fun h => absurd h nofun⟩, step_askingTwo⟩
  refine ⟨_, rfl, oneUpdate_of_closed (.step pageOfTwo hreach ⟨?_, rfl⟩)⟩
  exact ⟨fun _ h _ => Option.some.inj h ▸ (by decide), fun _ h => absurd h nofun,
    fun _ h => absurd h nofun, fun h => absurd h nofun⟩

end SyncNode
end NoLeader
end AergoLite
