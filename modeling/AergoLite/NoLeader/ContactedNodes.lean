/-
# The nodes that are contacted

A node is in sync once it has contacted the majority.  What it counts is the list of contacted
nodes, in which a node stays when it has timed out, was busy, could not be sent the request or
has sent an update that was refused: such nodes are contacted again only where no other node is
left.  So the node can be in sync without an answer (`inSync_without_answer`), and what holds is
`majority_contacted`: the majority has answered or failed since the request began.
-/

import AergoLite.NoLeader.Synchronization

namespace AergoLite
namespace NoLeader

open AergoLite.Core
open Transition

namespace SyncNode

/-- The majority is reached by the node itself and other nodes that meet a condition. -/
def Majority (s : SyncNode) (counts : ℤ → Prop) : Prop :=
  ∃ ids : List ℤ, ids.Nodup ∧ majority s.totalAuthorizedNodes ≤ ids.length + 1 ∧
    ∀ nodeId ∈ ids, counts nodeId

/-- A node that was asked and has answered or failed. -/
def Done (s : SyncNode) (nodeId : ℤ) : Prop :=
  nodeId ∈ s.asked ∧ (nodeId ∈ s.answered ∨ nodeId ∈ s.gaveUp)

/-- The nodes on the list of contacted nodes meet a condition, and each is there once. -/
def Listed (s : SyncNode) (counts : ℤ → Prop) : Prop :=
  ∀ ids ∈ s.contactedNodes, ids.Nodup ∧ ∀ nodeId ∈ ids, counts nodeId

/-- **What a request knows of the contacted nodes**: each was asked once, and has answered or
failed unless it is the one that is waited for; without a request there is no list. -/
structure Accounted (s : SyncNode) : Prop where
  idle : s.syncDownState ≠ .synchronizing → s.contactedNodes = none
  listed : s.Listed fun nodeId =>
    nodeId ∈ s.asked ∧
      (nodeId ∈ s.answered ∨ nodeId ∈ s.gaveUp ∨ nodeId = s.contactedNodeId)

/-- A selected node is connected and authorized, and is not on the list yet. -/
theorem selectNode_eq_some {num : ℕ} {excluded : List ℤ} {peers : List Peer} {nodeId : ℤ}
    (h : selectNode num excluded peers = some nodeId) :
    (∃ peer ∈ peers, peer.id = nodeId ∧ peer.isAuthorized = true) ∧ nodeId ∉ excluded := by
  unfold selectNode at h
  obtain ⟨peer, hpeer, rfl⟩ := List.mem_map.1 (List.mem_of_getElem? h)
  obtain ⟨hmem, hcondition⟩ := List.mem_filter.1 hpeer
  obtain ⟨hauthorized, hexcluded⟩ := Bool.and_eq_true_iff.1 hcondition
  exact ⟨⟨peer, hmem, rfl, hauthorized⟩, by simpa using hexcluded⟩

/-- Where the majority is contacted, there is a list of them. -/
theorem majority_of_count {s : SyncNode} {counts : ℤ → Prop} (h : s.Listed counts)
    (hcount : (majority s.totalAuthorizedNodes : ℤ) ≤ arrayCount s.contactedNodes + 1) :
    s.Majority counts := by
  have hpos : 1 ≤ majority s.totalAuthorizedNodes := Nat.succ_pos _
  cases hids : s.contactedNodes with
  | none =>
      rw [hids] at hcount
      change (majority s.totalAuthorizedNodes : ℤ) ≤ -1 + 1 at hcount
      omega
  | some ids =>
      rw [hids] at hcount
      change (majority s.totalAuthorizedNodes : ℤ) ≤ (ids.length : ℤ) + 1 at hcount
      obtain ⟨hnodup, hall⟩ := h ids hids
      exact ⟨ids, hnodup, by omega, hall⟩

/-- The arrays are made empty, or are as they were. -/
theorem makeArrays_listed {s : SyncNode} (h : s.Listed s.Done) :
    ∃ ids, s.makeArrays.contactedNodes = some ids ∧ ids.Nodup ∧
      ∀ nodeId ∈ ids, s.makeArrays.Done nodeId := by
  unfold makeArrays
  cases hids : s.contactedNodes with
  | none => exact ⟨[], rfl, List.nodup_nil, fun nodeId hmem => absurd hmem List.not_mem_nil⟩
  | some ids =>
      obtain ⟨hnodup, hall⟩ := h ids hids
      exact ⟨ids, rfl, hnodup, hall⟩

/-- What a round does to the list. -/
def Round.Counts (s : SyncNode) : Round → Prop
  | .again t => t.Listed t.Done
  | .ends t =>
    t.Listed (fun nodeId => nodeId ∈ t.asked ∧
      (nodeId ∈ t.answered ∨ nodeId ∈ t.gaveUp ∨ nodeId = t.contactedNodeId)) ∧
    (t.syncDownState = s.syncDownState ∨ t.contactedNodes = none ∧ t.Majority t.Done)

/-- **A round of the loop** counts the nodes that have answered or failed. -/
theorem contactNode_counts (attempt : Attempt) {s : SyncNode} (h : s.Listed s.Done) :
    (contactNode attempt s).Counts s := by
  obtain ⟨-, hstate⟩ := makeArrays_spec s
  obtain ⟨ids, hids, hnodup, hall⟩ := makeArrays_listed h
  unfold contactNode
  by_cases hmajority : (majority s.totalAuthorizedNodes : ℤ) ≤ arrayCount s.contactedNodes + 1 ∧
      s.currentBlock.isSome
  · rw [if_pos hmajority]
    have hreached : s.Majority s.Done := majority_of_count h hmajority.1
    exact ⟨fun ids hids => absurd hids nofun, .inr ⟨rfl, hreached⟩⟩
  rw [if_neg hmajority]
  dsimp only
  rw [hids, Option.getD_some]
  cases hselect : selectNode attempt.num ids s.makeArrays.peers with
  | none =>
      dsimp only
      split_ifs with hfailed
      · refine ⟨fun ids' hids' => ?_, .inl hstate⟩
        obtain rfl := Option.some.inj hids'
        exact ⟨hnodup, fun nodeId hmem => ⟨(hall nodeId hmem).1,
          (hall nodeId hmem).2.imp_right .inl⟩⟩
      · -- the failed nodes are taken off the list
        intro ids' hids'
        obtain rfl := Option.some.inj hids'
        have herase : ∀ (failed ids : List ℤ), ids.Nodup →
            (failed.foldl List.erase ids).Nodup ∧ ∀ nodeId ∈ failed.foldl List.erase ids,
              nodeId ∈ ids := by
          intro failed
          induction failed with
          | nil => exact fun ids hnodup => ⟨hnodup, fun _ => id⟩
          | cons nodeId failed ih =>
              intro ids hnodup
              obtain ⟨hnodup', hsub⟩ := ih (ids.erase nodeId) (hnodup.erase nodeId)
              exact ⟨hnodup', fun other hother => List.mem_of_mem_erase (hsub other hother)⟩
        obtain ⟨hnodup', hsub⟩ := herase (s.makeArrays.failedNodes.getD []) ids hnodup
        exact ⟨hnodup', fun nodeId hmem => hall nodeId (hsub nodeId hmem)⟩
  | some nodeId =>
      obtain ⟨-, hnew⟩ := selectNode_eq_some hselect
      have hnodup' : (ids ++ [nodeId]).Nodup :=
        List.nodup_append.2 ⟨hnodup, List.nodup_singleton nodeId, fun a ha b hb heq =>
          hnew (List.mem_singleton.1 hb ▸ heq ▸ ha)⟩
      dsimp only
      split_ifs
      · refine ⟨fun ids' hids' => ?_, .inl hstate⟩
        obtain rfl := Option.some.inj hids'
        refine ⟨hnodup', fun other hother => ?_⟩
        rcases List.mem_append.1 hother with hbefore | hlast
        · obtain ⟨hasked, houtcome⟩ := hall other hbefore
          exact ⟨List.mem_append_left _ hasked, houtcome.imp_right .inl⟩
        · obtain rfl := List.mem_singleton.1 hlast
          exact ⟨List.mem_append_right _ List.mem_cons_self, .inr (.inr rfl)⟩
      · intro ids' hids'
        obtain rfl := Option.some.inj hids'
        refine ⟨hnodup', fun other hother => ?_⟩
        rcases List.mem_append.1 hother with hbefore | hlast
        · obtain ⟨hasked, houtcome⟩ := hall other hbefore
          exact ⟨List.mem_append_left _ hasked, houtcome.imp_right (List.mem_append_left _)⟩
        · obtain rfl := List.mem_singleton.1 hlast
          exact ⟨List.mem_append_right _ List.mem_cons_self,
            .inr (List.mem_append_right _ List.mem_cons_self)⟩

/-- **The loop of `request_state_update_next`** counts the nodes that have answered or
failed. -/
theorem contactNext_counts {attempts : List Attempt} {s t : SyncNode} (h : s.Listed s.Done)
    (hs : contactNext attempts s = some t) : (Round.ends t).Counts s := by
  induction attempts generalizing s with
  | nil => exact absurd hs nofun
  | cons attempt attempts ih =>
      have hcounts := contactNode_counts attempt h
      have hround := contactNode_spec attempt s
      unfold contactNext at hs
      cases hnode : contactNode attempt s with
      | again s' =>
          rw [hnode] at hs hcounts hround
          obtain ⟨hlisted, hstate⟩ := ih hcounts hs
          exact ⟨hlisted, hstate.imp_left fun h' => h'.trans hround.2⟩
      | ends s' =>
          rw [hnode] at hs hcounts
          obtain rfl := Option.some.inj hs
          exact hcounts

theorem Fresh.accounted {s : SyncNode} (h : s.Fresh) : Accounted s := by
  refine ⟨fun _ => h.contactedNodes, fun ids hids => ?_⟩
  rw [h.contactedNodes] at hids
  exact absurd hids nofun

theorem accounted_of_none {s : SyncNode} (h : s.contactedNodes = none) : Accounted s := by
  refine ⟨fun _ => h, fun ids hids => ?_⟩
  rw [h] at hids
  exact absurd hids nofun

/-- What a step that leaves the request alone does. -/
theorem Accounted.of_same {s t : SyncNode} (h : Accounted s)
    (hstate : t.syncDownState = s.syncDownState) (hnodes : t.contactedNodes = s.contactedNodes)
    (hcontacted : t.contactedNodeId = s.contactedNodeId) (hasked : t.asked = s.asked)
    (hanswered : t.answered = s.answered) (hgaveUp : t.gaveUp = s.gaveUp) : Accounted t := by
  refine ⟨fun hne => ?_, fun ids hids => ?_⟩
  · rw [hnodes]
    exact h.idle (hstate ▸ hne)
  · rw [hnodes] at hids
    rw [hasked, hanswered, hgaveUp, hcontacted]
    exact h.listed ids hids

/-- The node that is waited for has answered or failed. -/
theorem Accounted.settled {s t : SyncNode} (h : Accounted s) (hsettled : Settled s t) :
    t.Listed t.Done := by
  intro ids hids
  rw [hsettled.contactedNodes] at hids
  obtain ⟨hnodup, hall⟩ := h.listed ids hids
  refine ⟨hnodup, fun nodeId hmem => ?_⟩
  obtain ⟨hmem', houtcome⟩ := hall nodeId hmem
  refine ⟨hsettled.asked ▸ hmem', ?_⟩
  rcases houtcome with hanswer | hfail | rfl
  · exact .inl (hsettled.answered nodeId hanswer)
  · exact .inr (hsettled.gaveUp nodeId hfail)
  · exact hsettled.contacted

/-- What holds after a step: the contacted nodes are accounted for, and a request that is
finished has reached the majority. -/
structure Reaches (s t : SyncNode) : Prop where
  accounted : Accounted t
  majority : s.syncDownState ≠ .inSync → t.syncDownState = .inSync → t.Majority t.Done

/-- A step that does not end in the state `DB_STATE_IN_SYNC` where another does. -/
theorem reaches_of_state {s t : SyncNode} (h : Accounted t)
    (hstate : t.syncDownState = s.syncDownState ∨ t.syncDownState ≠ .inSync) : Reaches s t := by
  refine ⟨h, fun hne heq => ?_⟩
  rcases hstate with hstate | hstate
  · exact absurd (hstate.symm.trans heq) hne
  · exact absurd heq hstate

/-- The next peer is asked once the last one has answered or failed. -/
theorem reaches_of_next {attempts : List Attempt} {s u t : SyncNode} (h : u.Listed u.Done)
    (hstate : u.syncDownState = .synchronizing)
    (hs : requestStateUpdateNext attempts u = some t) : Reaches s t := by
  obtain ⟨hlisted, hends⟩ := contactNext_counts
    (s := { u with assertFailed := u.assertFailed || decide (u.syncDownState ≠ .synchronizing) })
    h hs
  rcases hends with hsame | ⟨hnone, hmajority⟩
  · have ht := hsame.trans hstate
    exact ⟨⟨fun hne => absurd ht hne, hlisted⟩,
      fun _ heq => absurd (ht.symm.trans heq) (by decide)⟩
  · exact ⟨⟨fun _ => hnone, hlisted⟩, fun _ _ => hmajority⟩

/-- **A step accounts for the contacted nodes.** -/
theorem Accounted.step {c : Crypto} {s t : SyncNode} {e : SyncEvent} (hopened : Opened s)
    (hwaits : Waits s) (h : Accounted s) (haddressed : Addressed s e)
    (hfirst : e ≠ .firstAuthorization) (hs : s.step c e = some t) : Reaches s t := by
  cases stepped hopened hs with
  | leaves request state =>
      exact reaches_of_state (h.of_same state request.contactedNodes request.contactedNodeId
        request.asked request.answered request.gaveUp) (.inl state)
  | states request state =>
      obtain ⟨hidle, -, hinSync⟩ := state.resolve_left hfirst
      exact reaches_of_state (accounted_of_none (request.contactedNodes.trans (h.idle hidle)))
        (.inr hinSync)
  | asks attempts idle next =>
      refine reaches_of_next (u := { s with syncDownState := .synchronizing }) ?_ rfl next
      intro ids hids
      exact absurd ((h.idle idle).symm.trans hids) nofun
  | settles attempts u waited request update next =>
      have hsettled := haddressed.settled request
      exact reaches_of_next (h.settled hsettled)
        (hsettled.syncDownState.trans (hwaits.synchronizing haddressed waited)) next
  | written page sender state request applied worker isUpdatingState openBlock =>
      exact reaches_of_state (h.of_same request.syncDownState request.contactedNodes
        request.contactedNodeId request.asked request.answered request.gaveUp)
        (.inl request.syncDownState)

/-- The contacted nodes are accounted for in every run whose steps are addressed. -/
theorem invariant_accounted (c : Crypto) : ((synchronization c).restrict Addressed).Invariant
    fun s => (Opened s ∧ Waits s) ∧ Accounted s := by
  refine (invariant_waits c).relative (fun _ h => Fresh.accounted h) fun s e t hwaits h hs => ?_
  by_cases hfirst : e = .firstAuthorization
  · subst hfirst
    have hidle := h.idle (hs.1.first rfl)
    have hstep : s.step c .firstAuthorization = some t := hs.2
    simp only [SyncNode.step] at hstep
    split_ifs at hstep
    exact Option.some.inj hstep ▸ accounted_of_none hidle
  · exact (h.step hwaits.1 hwaits.2 hs.1 hfirst hs.2).accounted

end SyncNode
end NoLeader
end AergoLite
