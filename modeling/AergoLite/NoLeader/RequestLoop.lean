/-
# The loop that asks the next peer

`request_state_update_next` (`state_update.c`) tries one authorized peer after the other until a
request can be sent.  The peers that it could not send to are tried again once no other is left:
they are removed from the list of contacted nodes, and the loop begins anew, at once.  Nothing
else happens meanwhile, so a connection that is closing is still there, and the loop runs forever
where no request can be sent and the majority is not reached.

`NoLeader.StateUpdate` gives the loop a list of attempts, and no result where they are used up.
Here there is an attempt for each number, so that `endsInOne_iff` says when the loop ends, and in
which of the three states.
-/

import AergoLite.Library.Loops
import AergoLite.NoLeader.ContactedNodes
import Mathlib.Data.Finset.Card

namespace AergoLite
namespace NoLeader

open AergoLite.Core
open Loops

namespace SyncNode

/-! ## The loop -/

/-- The ids of the authorized peers. -/
def authorizedIds (s : SyncNode) : List ℤ :=
  (s.peers.filter fun peer => peer.isAuthorized).map Peer.id

/-- The list of contacted nodes, which is empty where there is no array. -/
def contacted (s : SyncNode) : List ℤ := s.contactedNodes.getD []

/-- The list of failed nodes. -/
def failed (s : SyncNode) : List ℤ := s.failedNodes.getD []

/-- The authorized peers that are not on the list of contacted nodes. -/
def untried (s : SyncNode) : Finset ℤ := s.authorizedIds.toFinset \ s.contacted.toFinset

/-- The majority is contacted, and the node has a block. -/
def majorityContacted (s : SyncNode) : Prop :=
  (majority s.totalAuthorizedNodes : ℤ) ≤ arrayCount s.contactedNodes + 1 ∧ s.currentBlock.isSome

instance (s : SyncNode) : Decidable s.majorityContacted := inferInstanceAs (Decidable (_ ∧ _))

/-- The time after which the timer fires that a round starts, in milliseconds. -/
def contactTimeout (attempt : Attempt) (s : SyncNode) : Option ℕ :=
  if s.majorityContacted then none
  else match selectNode attempt.num s.contacted s.peers with
    | none => if s.failed = [] then some 1500 else none
    | some _ => if attempt.sent then some 9000 else none

/-- A round of `request_state_update_next`, with the number of requests that were tried before
it. -/
def requestRound (attempts : ℕ → Attempt) (s : ℕ × SyncNode) :
    Turn (ℕ × SyncNode) (SyncNode × Option ℕ) :=
  match contactNode (attempts s.1) s.2 with
  | .again t => .again (if s.2.untried = ∅ then s.1 else s.1 + 1, t)
  | .ends t => .ends (t, contactTimeout (attempts s.1) s.2)

/-- `request_state_update_next` ends, with the node and the timer that it leaves. -/
def NextEnds (attempts : ℕ → Attempt) (s : SyncNode) (t : SyncNode × Option ℕ) : Prop :=
  Ends (requestRound attempts) (0, { s with
    assertFailed := s.assertFailed || decide (s.syncDownState ≠ .synchronizing) }) t

/-- A run of the loop is one with a list of attempts. -/
theorem requestStateUpdateNext_of_ends {attempts : ℕ → Attempt} {s : SyncNode}
    {t : SyncNode × Option ℕ} (h : NextEnds attempts s t) :
    ∃ list, requestStateUpdateNext list s = some t.1 := by
  have hloop : ∀ (fuel : ℕ) (x : ℕ × SyncNode), run (requestRound attempts) fuel x = some t →
      ∃ list, contactNext list x.2 = some t.1 := by
    intro fuel
    induction fuel with
    | zero => exact fun x hrun => absurd hrun nofun
    | succ fuel ih =>
        intro x hrun
        unfold run requestRound at hrun
        cases hnode : contactNode (attempts x.1) x.2 with
        | again u =>
            rw [hnode] at hrun
            obtain ⟨list, hlist⟩ := ih _ hrun
            refine ⟨attempts x.1 :: list, ?_⟩
            rw [contactNext, hnode]
            exact hlist
        | ends u =>
            rw [hnode] at hrun
            refine ⟨[attempts x.1], ?_⟩
            rw [contactNext, hnode, ← Option.some.inj hrun]
  obtain ⟨fuel, hrun⟩ := h
  exact hloop fuel _ hrun

/-! ## The three states -/

/-- A way to end. -/
inductive RequestState
  | pending | finished | waiting

/-- **What the loop leaves**: a request to an authorized peer and the timer for its answer, no
request any more, or no contacted node and the timer for the next try. -/
def LeftIn (s : SyncNode) (t : SyncNode × Option ℕ) : RequestState → Prop
  | .pending => t.2 = some 9000 ∧ t.1.stateUpdateTimer = true ∧
      t.1.contactedNodeId ∈ s.authorizedIds ∧ t.1.contactedNodeId ∈ t.1.contacted
  | .finished => t.2 = none ∧ t.1.stateUpdateTimer = false ∧ t.1.contactedNodeId = 0 ∧
      t.1.contactedNodes = none ∧ t.1.failedNodes = none ∧ t.1.syncDownState ≠ .synchronizing
  | .waiting => t.2 = some 1500 ∧ t.1.stateUpdateTimer = true ∧ t.1.contactedNodeId = 0

/-- The loop ends in exactly one of the three states. -/
def EndsInOne (attempts : ℕ → Attempt) (s : SyncNode) : Prop :=
  ∃ t, NextEnds attempts s t ∧ ∃! state, LeftIn s t state

/-! ## A round -/

theorem selectNode_none_iff {num : ℕ} {excluded : List ℤ} {peers : List Peer} :
    selectNode num excluded peers = none ↔
      ∀ peer ∈ peers, peer.isAuthorized = true → peer.id ∈ excluded := by
  unfold selectNode
  dsimp only
  rw [List.getElem?_eq_none_iff]
  constructor
  · intro hle peer hpeer hauthorized
    by_contra hexcluded
    have hmem : peer.id ∈ (peers.filter fun peer =>
        peer.isAuthorized && !excluded.contains peer.id).map Peer.id := by
      refine List.mem_map_of_mem (List.mem_filter.2 ⟨hpeer, ?_⟩)
      simp [hauthorized, hexcluded]
    have hmod := Nat.mod_lt num (List.length_pos_of_mem hmem)
    omega
  · intro hall
    have hnil : (peers.filter fun peer =>
        peer.isAuthorized && !excluded.contains peer.id) = [] := by
      rw [List.filter_eq_nil_iff]
      intro peer hpeer
      by_cases hauthorized : peer.isAuthorized = true <;> simp [hauthorized, hall peer hpeer]
    rw [hnil]
    exact Nat.zero_le _

theorem untried_eq_empty {s : SyncNode} :
    s.untried = ∅ ↔ ∀ nodeId ∈ s.authorizedIds, nodeId ∈ s.contacted := by
  rw [untried, Finset.sdiff_eq_empty_iff_subset, Finset.subset_iff]
  simp

/-- What the arrays hold is as before. -/
theorem makeArrays_contents (s : SyncNode) :
    s.makeArrays.contactedNodes = some s.contacted ∧ s.makeArrays.failedNodes = some s.failed ∧
      s.makeArrays.peers = s.peers ∧ s.makeArrays.currentBlock = s.currentBlock ∧
      s.makeArrays.authorizations = s.authorizations := by
  unfold makeArrays contacted failed
  cases s.contactedNodes <;> exact ⟨rfl, rfl, rfl, rfl, rfl⟩

/-- What a round depends on: the peers, the authorizations and the block, which it leaves as they
are. -/
structure SameNetwork (s t : SyncNode) : Prop where
  peers : t.peers = s.peers
  currentBlock : t.currentBlock = s.currentBlock
  authorizations : t.authorizations = s.authorizations

/-- **What a round does.** -/
inductive ContactStep (attempt : Attempt) (s : SyncNode) : Round → Option ℕ → Prop
  | finished (majority : s.majorityContacted) :
      ContactStep attempt s (.ends s.stateUpdateFinished) none
  | waiting {t : SyncNode} (nobody : s.untried = ∅) (nothing : s.failed = [])
      (timer : t.stateUpdateTimer = true) (contacted : t.contactedNodeId = 0) :
      ContactStep attempt s (.ends t) (some 1500)
  | retries {t : SyncNode} (minority : ¬s.majorityContacted) (nobody : s.untried = ∅)
      (something : s.failed ≠ []) (same : SameNetwork s t)
      (contacted : t.contactedNodes = some (s.failed.foldl List.erase s.contacted))
      (failed : t.failedNodes = some []) : ContactStep attempt s (.again t) none
  | sent {t : SyncNode} {nodeId : ℤ} (untried : nodeId ∈ s.untried) (sent : attempt.sent = true)
      (timer : t.stateUpdateTimer = true) (pending : t.contactedNodeId = nodeId)
      (contacted : t.contactedNodes = some (s.contacted ++ [nodeId])) :
      ContactStep attempt s (.ends t) (some 9000)
  | fails {t : SyncNode} {nodeId : ℤ} (minority : ¬s.majorityContacted)
      (untried : nodeId ∈ s.untried) (sent : attempt.sent = false) (same : SameNetwork s t)
      (contacted : t.contactedNodes = some (s.contacted ++ [nodeId]))
      (failed : t.failedNodes = some (s.failed ++ [nodeId])) : ContactStep attempt s (.again t) none

theorem contactNode_step (attempt : Attempt) (s : SyncNode) :
    ContactStep attempt s (contactNode attempt s) (contactTimeout attempt s) := by
  obtain ⟨hcontacted, hfailed, hpeers, hblock, hauths⟩ := makeArrays_contents s
  by_cases hmajority : s.majorityContacted
  · have hnode : contactNode attempt s = .ends s.stateUpdateFinished := if_pos hmajority
    have htimeout : contactTimeout attempt s = none := if_pos hmajority
    rw [hnode, htimeout]
    exact .finished hmajority
  · unfold contactNode contactTimeout
    rw [if_neg hmajority, if_neg (show ¬(_ ∧ _) from hmajority)]
    dsimp only
    rw [hcontacted, hfailed, hpeers, Option.getD_some, Option.getD_some]
    have hselected : selectNode attempt.num s.contacted s.peers = none ↔ s.untried = ∅ := by
      rw [selectNode_none_iff, untried_eq_empty]
      simp [authorizedIds]
      grind
    cases hselect : selectNode attempt.num s.contacted s.peers with
    | none =>
        have hnobody := hselected.1 hselect
        dsimp only
        by_cases hnothing : s.failed = []
        · rw [if_pos hnothing, if_pos hnothing]
          exact .waiting hnobody hnothing rfl rfl
        · rw [if_neg hnothing, if_neg hnothing]
          exact .retries hmajority hnobody hnothing ⟨rfl, hblock, hauths⟩ rfl rfl
    | some nodeId =>
        obtain ⟨⟨peer, hpeer, hid, hauthorized⟩, hnew⟩ := selectNode_eq_some hselect
        have huntried : nodeId ∈ s.untried := by
          rw [untried, Finset.mem_sdiff, List.mem_toFinset, List.mem_toFinset]
          exact ⟨hid ▸ List.mem_map_of_mem (List.mem_filter.2 ⟨hpeer, hauthorized⟩), hnew⟩
        dsimp only
        by_cases hsent : attempt.sent = true
        · rw [if_pos hsent, if_pos hsent]
          exact .sent huntried hsent rfl rfl rfl
        · rw [if_neg hsent, if_neg hsent]
          exact .fails hmajority huntried (Bool.not_eq_true _ ▸ hsent) ⟨rfl, hblock, hauths⟩ rfl rfl

/-- **The state after a round that ends.** -/
theorem existsUnique_leftIn {attempt : Attempt} {s t : SyncNode} {timeout : Option ℕ}
    (h : ContactStep attempt s (.ends t) timeout) : ∃! state, LeftIn s (t, timeout) state := by
  cases h with
  | finished majority =>
      have hstate : s.stateUpdateFinished.syncDownState ≠ .synchronizing := by
        unfold stateUpdateFinished
        split_ifs with hsync <;> simp [hsync]
      refine ⟨.finished, ⟨rfl, rfl, rfl, rfl, rfl, hstate⟩, fun state hleft => ?_⟩
      cases state with
      | finished => rfl
      | pending => exact absurd hleft.1 nofun
      | waiting => exact absurd hleft.1 nofun
  | waiting nobody nothing timer contacted =>
      refine ⟨.waiting, ⟨rfl, timer, contacted⟩, fun state hleft => ?_⟩
      cases state with
      | waiting => rfl
      | pending => exact absurd hleft.1 (by simp)
      | finished => exact absurd hleft.1 nofun
  | @sent _ nodeId huntried _ timer pending contacted =>
      have hmem : nodeId ∈ s.authorizedIds := by
        rw [untried, Finset.mem_sdiff] at huntried
        exact List.mem_toFinset.1 huntried.1
      refine ⟨.pending, ⟨rfl, timer, pending ▸ hmem, ?_⟩, fun state hleft => ?_⟩
      · rw [SyncNode.contacted, contacted, pending]
        exact List.mem_append_right _ List.mem_cons_self
      · cases state with
        | pending => rfl
        | waiting => exact absurd hleft.1 (by simp)
        | finished => exact absurd hleft.1 nofun

/-- The peers, the authorizations and the block decide what is left to try. -/
theorem SameNetwork.authorizedIds {s t : SyncNode} (h : SameNetwork s t) :
    t.authorizedIds = s.authorizedIds := by
  unfold SyncNode.authorizedIds
  rw [h.peers]

theorem SameNetwork.totalAuthorizedNodes {s t : SyncNode} (h : SameNetwork s t) :
    t.totalAuthorizedNodes = s.totalAuthorizedNodes := by
  unfold SyncNode.totalAuthorizedNodes
  rw [h.authorizations]

theorem SameNetwork.trans {s t u : SyncNode} (h : SameNetwork s t) (h' : SameNetwork t u) :
    SameNetwork s u :=
  ⟨h'.peers.trans h.peers, h'.currentBlock.trans h.currentBlock,
    h'.authorizations.trans h.authorizations⟩

/-- A state that the loop goes on with is left in the state the next rounds leave. -/
theorem SameNetwork.leftIn {s s' : SyncNode} (h : SameNetwork s s') (t : SyncNode × Option ℕ)
    (state : RequestState) : LeftIn s' t state ↔ LeftIn s t state := by
  cases state with
  | pending => rw [LeftIn, LeftIn, h.authorizedIds]
  | finished => exact Iff.rfl
  | waiting => exact Iff.rfl

/-- What a round of the loop does. -/
theorem requestRound_cases (attempts : ℕ → Attempt) (k : ℕ) (s : SyncNode) :
    (∃ t timeout, requestRound attempts (k, s) = .ends (t, timeout) ∧
      ContactStep (attempts k) s (.ends t) timeout) ∨
    ∃ t, requestRound attempts (k, s) = .again (if s.untried = ∅ then k else k + 1, t) ∧
      ∃ timeout, ContactStep (attempts k) s (.again t) timeout := by
  have hstep := contactNode_step (attempts k) s
  unfold requestRound
  dsimp only
  cases hnode : contactNode (attempts k) s with
  | ends t => exact .inl ⟨t, _, rfl, hnode ▸ hstep⟩
  | again t => exact .inr ⟨t, rfl, _, hnode ▸ hstep⟩

/-- The result of the loop is one of the three states, however many rounds it takes. -/
theorem existsUnique_of_ends {attempts : ℕ → Attempt} {s : SyncNode} {k : ℕ}
    {t : SyncNode × Option ℕ} (h : Ends (requestRound attempts) (k, s) t) :
    ∃! state, LeftIn s t state := by
  refine @Ends.spec (ℕ × SyncNode) (SyncNode × Option ℕ) _ _ _ (fun x => SameNetwork s x.2)
    (fun t => ∃! state, LeftIn s t state) (fun x x' hx hround => ?_) (fun x t hx hround => ?_)
    ⟨rfl, rfl, rfl⟩ h
  · rcases requestRound_cases attempts x.1 x.2 with
      ⟨u, timeout, hends, -⟩ | ⟨u, hagain, timeout, hstep⟩
    · exact absurd (hends.symm.trans hround) nofun
    · obtain rfl := Turn.again.inj (hagain.symm.trans hround)
      cases hstep with
      | retries _ _ _ same _ _ => exact hx.trans same
      | fails _ _ _ same _ _ => exact hx.trans same
  · rcases requestRound_cases attempts x.1 x.2 with ⟨u, timeout, hends, hstep⟩ | ⟨u, hagain, -⟩
    · obtain rfl := Turn.ends.inj (hends.symm.trans hround)
      obtain ⟨state, hleft, hunique⟩ := existsUnique_leftIn hstep
      exact ⟨state, (hx.leftIn _ _).1 hleft, fun other hother =>
        hunique other ((hx.leftIn _ _).2 hother)⟩
    · exact absurd (hagain.symm.trans hround) nofun

/-! ## What is left to try -/

/-- The list of contacted nodes once the failed nodes are removed from it. -/
def stillContacted (s : SyncNode) : List ℤ := s.failed.foldl List.erase s.contacted

/-- An authorized peer is tried again once no other is left. -/
def Retriable (s : SyncNode) : Prop := ∃ nodeId ∈ s.authorizedIds, nodeId ∉ s.stillContacted

/-- There is a block, and the majority is contacted once every authorized peer is tried. -/
def MajorityInReach (s : SyncNode) : Prop :=
  s.currentBlock.isSome ∧
    majority s.totalAuthorizedNodes ≤ s.contacted.length + s.untried.card + 1

instance (s : SyncNode) : Decidable s.MajorityInReach := inferInstanceAs (Decidable (_ ∧ _))

theorem mem_of_mem_foldl_erase {failed contacted : List ℤ} {nodeId : ℤ}
    (h : nodeId ∈ failed.foldl List.erase contacted) : nodeId ∈ contacted := by
  induction failed generalizing contacted with
  | nil => exact h
  | cons other failed ih => exact List.mem_of_mem_erase (ih h)

/-- A node that is removed can be tried again. -/
theorem card_foldl_erase_le (ids : Finset ℤ) (failed contacted : List ℤ) :
    (failed.foldl List.erase contacted).length +
        (ids \ (failed.foldl List.erase contacted).toFinset).card ≤
      contacted.length + (ids \ contacted.toFinset).card := by
  induction failed generalizing contacted with
  | nil => exact Nat.le_refl _
  | cons nodeId failed ih =>
      refine (ih (contacted.erase nodeId)).trans ?_
      by_cases hmem : nodeId ∈ contacted
      · have hsub : ids \ (contacted.erase nodeId).toFinset ⊆
            insert nodeId (ids \ contacted.toFinset) := by
          intro other hother
          rw [Finset.mem_sdiff, List.mem_toFinset] at hother
          rw [Finset.mem_insert, Finset.mem_sdiff, List.mem_toFinset]
          by_cases heq : other = nodeId
          · exact .inl heq
          · exact .inr ⟨hother.1, fun h => hother.2 ((List.mem_erase_of_ne heq).2 h)⟩
        have hcard := (Finset.card_le_card hsub).trans (Finset.card_insert_le _ _)
        have hpos := List.length_pos_of_mem hmem
        rw [List.length_erase_of_mem hmem]
        omega
      · rw [List.erase_of_not_mem hmem]

/-- A node that is tried is not left to try. -/
theorem card_untried_append {s t : SyncNode} {nodeId : ℤ} (huntried : nodeId ∈ s.untried)
    (hsame : SameNetwork s t) (hcontacted : t.contacted = s.contacted ++ [nodeId]) :
    t.contacted.length + t.untried.card = s.contacted.length + s.untried.card ∧
      t.untried.card < s.untried.card := by
  have herase : t.untried = s.untried.erase nodeId := by
    ext other
    rw [Finset.mem_erase, untried, untried, hsame.authorizedIds, hcontacted]
    simp only [Finset.mem_sdiff, List.mem_toFinset, List.mem_append, List.mem_singleton, not_or]
    tauto
  have hpos := Finset.card_pos.2 ⟨nodeId, huntried⟩
  rw [herase, Finset.card_erase_of_mem huntried, hcontacted, List.length_append,
    List.length_singleton]
  omega

/-- A node that could not be sent the request is removed again. -/
theorem retriable_of_fails {s t : SyncNode} {nodeId : ℤ} (huntried : nodeId ∈ s.untried)
    (hsame : SameNetwork s t) (hcontacted : t.contacted = s.contacted ++ [nodeId])
    (hfailed : t.failed = s.failed ++ [nodeId]) : t.Retriable := by
  rw [untried, Finset.mem_sdiff, List.mem_toFinset, List.mem_toFinset] at huntried
  refine ⟨nodeId, hsame.authorizedIds ▸ huntried.1, ?_⟩
  have hcount : ∀ (failed contacted : List ℤ),
      (failed.foldl List.erase contacted).count nodeId ≤ contacted.count nodeId := by
    intro failed
    induction failed with
    | nil => exact fun contacted => Nat.le_refl _
    | cons other failed ih =>
        exact fun contacted => (ih _).trans (List.erase_sublist.count_le nodeId)
  have honce : (s.contacted ++ [nodeId]).count nodeId = 1 := by
    rw [List.count_append, List.count_eq_zero_of_not_mem huntried.2, List.count_singleton_self]
  rw [stillContacted, hfailed, hcontacted, List.foldl_append, List.foldl_cons, List.foldl_nil]
  refine List.not_mem_of_count_eq_zero ?_
  rw [List.count_erase_self]
  have := hcount s.failed (s.contacted ++ [nodeId])
  omega

theorem contacted_of_eq {s : SyncNode} {ids : List ℤ} (h : s.contactedNodes = some ids) :
    s.contacted = ids := by
  rw [contacted, h, Option.getD_some]

theorem failed_of_eq {s : SyncNode} {ids : List ℤ} (h : s.failedNodes = some ids) :
    s.failed = ids := by
  rw [failed, h, Option.getD_some]

/-- The majority that is contacted is in reach. -/
theorem majorityInReach_of_contacted {s : SyncNode} (h : s.majorityContacted) :
    s.MajorityInReach := by
  obtain ⟨hcount, hblock⟩ := h
  refine ⟨hblock, ?_⟩
  unfold contacted
  cases hids : s.contactedNodes with
  | none =>
      rw [hids] at hcount
      change (majority s.totalAuthorizedNodes : ℤ) ≤ -1 + 1 at hcount
      omega
  | some ids =>
      rw [hids] at hcount
      change (majority s.totalAuthorizedNodes : ℤ) ≤ (ids.length : ℤ) + 1 at hcount
      rw [Option.getD_some]
      omega

/-! ## When the loop ends -/

variable {attempts : ℕ → Attempt} {k : ℕ} {s : SyncNode}

/-- **The loop ends where a request can be sent**: each round comes nearer to it, or clears the
list of failed nodes. -/
theorem terminates_of_sent {n : ℕ} (hsent : (attempts n).sent = true) (hk : k ≤ n) :
    Terminates (requestRound attempts) (k, s) := by
  refine @terminates_of_measure (ℕ × SyncNode) (SyncNode × Option ℕ) _ _ (fun x => x.1 ≤ n)
    (fun x => 2 * (n - x.1) + if x.2.failed = [] then 0 else 1) (fun x x' hx hround => ?_) hk
  rcases requestRound_cases attempts x.1 x.2 with
    ⟨t, timeout, hends, -⟩ | ⟨t, hagain, timeout, hstep⟩
  · exact absurd (hends.symm.trans hround) nofun
  · obtain rfl := Turn.again.inj (hagain.symm.trans hround)
    cases hstep with
    | retries _ nobody something _ _ failed =>
        rw [if_pos nobody, if_neg something, failed_of_eq failed]
        exact ⟨hx, by simp⟩
    | fails _ untried sent _ _ _ =>
        have hne : x.2.untried ≠ ∅ := Finset.ne_empty_of_mem untried
        have hless : x.1 ≠ n := fun heq => by
          rw [← heq, sent] at hsent
          exact absurd hsent nofun
        rw [if_neg hne]
        dsimp only
        split_ifs <;> omega

/-- **The loop ends where the majority is in reach**: with each peer that is tried, there is one
less to try. -/
theorem terminates_of_majority (h : s.MajorityInReach) :
    Terminates (requestRound attempts) (k, s) := by
  refine @terminates_of_measure (ℕ × SyncNode) (SyncNode × Option ℕ) _ _
    (fun x => x.2.MajorityInReach)
    (fun x => 2 * x.2.untried.card + if x.2.contactedNodes.isSome then 0 else 1)
    (fun x x' hx hround => ?_) h
  rcases requestRound_cases attempts x.1 x.2 with
    ⟨t, timeout, hends, -⟩ | ⟨t, hagain, timeout, hstep⟩
  · exact absurd (hends.symm.trans hround) nofun
  · obtain rfl := Turn.again.inj (hagain.symm.trans hround)
    obtain ⟨hblock, hreach⟩ := hx
    unfold MajorityInReach
    cases hstep with
    | retries minority nobody _ same contacted _ =>
        rw [nobody, Finset.card_empty] at hreach
        cases hnodes : x.2.contactedNodes with
        | some ids =>
            rw [contacted_of_eq hnodes] at hreach
            refine absurd ⟨?_, hblock⟩ minority
            rw [hnodes]
            change (majority x.2.totalAuthorizedNodes : ℤ) ≤ (ids.length : ℤ) + 1
            omega
        | none =>
            -- the arrays are made, and hold as little as before
            have hnil : x.2.contacted = [] := by rw [SyncNode.contacted, hnodes, Option.getD_none]
            have hempty : x.2.failed.foldl List.erase x.2.contacted = [] :=
              List.eq_nil_iff_forall_not_mem.2 fun nodeId hmem =>
                List.not_mem_nil (hnil ▸ mem_of_mem_foldl_erase hmem)
            rw [hempty] at contacted
            have hsame : t.contacted = x.2.contacted := (contacted_of_eq contacted).trans hnil.symm
            have huntried : t.untried = x.2.untried := by
              rw [untried, untried, same.authorizedIds, hsame]
            dsimp only
            rw [same.currentBlock, same.totalAuthorizedNodes, huntried, nobody, hsame, contacted]
            exact ⟨⟨hblock, hreach⟩, by simp⟩
    | fails _ untried _ same contacted _ =>
        obtain ⟨hsum, hless⟩ := card_untried_append untried same (contacted_of_eq contacted)
        dsimp only
        rw [same.currentBlock, same.totalAuthorizedNodes, contacted, Option.isSome_some, if_pos rfl]
        exact ⟨⟨hblock, by omega⟩, by omega⟩

/-- **The loop ends where no peer can be tried again.** -/
theorem terminates_of_not_retriable (h : ¬s.Retriable) :
    Terminates (requestRound attempts) (k, s) := by
  refine @terminates_of_measure (ℕ × SyncNode) (SyncNode × Option ℕ) _ _ (fun x => ¬x.2.Retriable)
    (fun x => x.2.failed.length) (fun x x' hx hround => ?_) h
  rcases requestRound_cases attempts x.1 x.2 with
    ⟨t, timeout, hends, -⟩ | ⟨t, hagain, timeout, hstep⟩
  · exact absurd (hends.symm.trans hround) nofun
  · obtain rfl := Turn.again.inj (hagain.symm.trans hround)
    cases hstep with
    | retries _ _ something same contacted failed =>
        dsimp only
        rw [failed_of_eq failed]
        refine ⟨fun ⟨nodeId, hmem, hnot⟩ => hx ⟨nodeId, same.authorizedIds ▸ hmem, ?_⟩,
          List.length_pos_iff.2 something⟩
        rwa [stillContacted, failed_of_eq failed, contacted_of_eq contacted, List.foldl_nil] at hnot
    | @fails _ nodeId _ huntried _ _ _ _ =>
        rw [untried, Finset.mem_sdiff, List.mem_toFinset, List.mem_toFinset] at huntried
        exact absurd ⟨nodeId, huntried.1, fun h => huntried.2 (mem_of_mem_foldl_erase h)⟩ hx

/-- **The loop runs forever otherwise**: every peer that is left is tried, fails, and is tried
again. -/
theorem not_terminates (hfails : ∀ n, (attempts n).sent = false) (hretriable : s.Retriable)
    (hreach : ¬s.MajorityInReach) : ¬Terminates (requestRound attempts) (k, s) := by
  refine @not_terminates_of_invariant (ℕ × SyncNode) (SyncNode × Option ℕ) _ _
    (fun x => x.2.Retriable ∧ ¬x.2.MajorityInReach) (fun x hx => ?_) ⟨hretriable, hreach⟩
  obtain ⟨⟨nodeId, hmem, hnot⟩, hminority⟩ := hx
  rcases requestRound_cases attempts x.1 x.2 with
    ⟨t, timeout, hends, hstep⟩ | ⟨t, hagain, timeout, hstep⟩
  · cases hstep with
    | finished majority => exact absurd (majorityInReach_of_contacted majority) hminority
    | waiting nobody nothing _ _ =>
        rw [stillContacted, nothing, List.foldl_nil] at hnot
        exact absurd (untried_eq_empty.1 nobody nodeId hmem) hnot
    | sent _ sent _ _ _ => exact absurd (sent.symm.trans (hfails x.1)) nofun
  · refine ⟨_, hagain, ?_⟩
    cases hstep with
    | retries _ _ _ same contacted failed =>
        refine ⟨⟨nodeId, same.authorizedIds.symm ▸ hmem, ?_⟩, fun hreach => hminority ?_⟩
        · rwa [stillContacted, failed_of_eq failed, contacted_of_eq contacted, List.foldl_nil]
        · obtain ⟨hblock, hcount⟩ := hreach
          have hcard := card_foldl_erase_le x.2.authorizedIds.toFinset x.2.failed x.2.contacted
          dsimp only at hblock hcount
          rw [same.totalAuthorizedNodes, untried, same.authorizedIds, contacted_of_eq contacted]
            at hcount
          exact ⟨same.currentBlock ▸ hblock, by rw [untried]; omega⟩
    | fails _ untried _ same contacted failed =>
        obtain ⟨hsum, -⟩ := card_untried_append untried same (contacted_of_eq contacted)
        refine ⟨retriable_of_fails untried same (contacted_of_eq contacted) (failed_of_eq failed),
          fun hreach => hminority ?_⟩
        obtain ⟨hblock, hcount⟩ := hreach
        dsimp only at hblock hcount
        rw [same.totalAuthorizedNodes] at hcount
        exact ⟨same.currentBlock ▸ hblock, by omega⟩

/-- **When the loop ends.**  It does, and then in exactly one of the three states, if and only if
some request can be sent, or no authorized peer would be tried again, or there is a block and the
authorized peers make up the majority with those contacted. -/
theorem endsInOne_iff (attempts : ℕ → Attempt) (s : SyncNode) :
    EndsInOne attempts s ↔
      (∃ n, (attempts n).sent = true) ∨ ¬s.Retriable ∨ s.MajorityInReach := by
  constructor
  · rintro ⟨t, hends, -⟩
    by_contra hnot
    rw [not_or, not_or, not_not] at hnot
    obtain ⟨hsent, hretriable, hreach⟩ := hnot
    have hfails : ∀ n, (attempts n).sent = false := fun n =>
      Bool.eq_false_iff.2 fun h => hsent ⟨n, h⟩
    exact not_terminates (k := 0) hfails (s := { s with
      assertFailed := s.assertFailed || decide (s.syncDownState ≠ .synchronizing) })
      hretriable hreach ⟨t, hends⟩
  · intro h
    have hterminates : Terminates (requestRound attempts) (0, { s with
        assertFailed := s.assertFailed || decide (s.syncDownState ≠ .synchronizing) }) := by
      rcases h with ⟨n, hsent⟩ | hretriable | hreach
      · exact terminates_of_sent hsent (Nat.zero_le n)
      · exact terminates_of_not_retriable hretriable
      · exact terminates_of_majority hreach
    obtain ⟨t, hends⟩ := hterminates
    obtain ⟨state, hleft, hunique⟩ := existsUnique_of_ends hends
    refine ⟨t, hends, state, ?_, fun other hother => hunique other ?_⟩
    · cases state <;> exact hleft
    · cases other <;> exact hother

/-- A node of three that has no block yet, connected to one of the other two. -/
def emptyNode : SyncNode :=
  { newNode (threeAuths 1) [⟨2, List.replicate 33 2, true⟩] none with
    syncDownState := .synchronizing }

/-- **The connection to the only peer is closing**: the loop runs forever. -/
theorem emptyNode_runs : ¬EndsInOne (fun _ => ⟨0, false⟩) emptyNode := by
  rintro ⟨t, hends, -⟩
  exact not_terminates (fun _ => rfl) ⟨2, by decide, by decide⟩ (by decide) ⟨t, hends⟩

end SyncNode
end NoLeader
end AergoLite
