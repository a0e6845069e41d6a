/-
# Counted votes and cast votes

A node in a network in which everyone casts votes and every vote message may be
replayed, altered and reordered.  Signatures are not forged: a message that is
accepted in the name of another node carries a block id that this node has signed.
But nothing else in it is signed (`//! check sig on round too`): the votes a node
counts are the votes that were cast exactly as long as each message that is not
dropped says at which height and in which round its vote was cast (`Genuine`).
-/

import AergoLite.NoLeader.Refinement

namespace AergoLite
namespace NoLeader

open AergoLite.Core
open Transition

variable {D : Type}

/-- A node and the votes that were cast, with the ids of the nodes. -/
structure Traffic (D : Type) where
  plugin : Plugin D
  casts : List (ℤ × Vote)

/-- Something happens to the node, or somewhere a vote is cast. -/
inductive Traffic.Action
  | event (e : Event)
  | cast (nodeId : ℤ) (vote : Vote)

/-- The vote message that arrives. -/
def Traffic.Action.message : Traffic.Action → Option VoteMessage
  | .event e => e.message
  | .cast _ _ => none

namespace Traffic

/-- The step of a node among votes. -/
def step (net : Net D) (s : Traffic D) : Action → Option (Traffic D)
  | .event e => (NoLeader.step net s.plugin e).map fun plugin => { s with plugin }
  | .cast nodeId vote => some { s with casts := s.casts ++ [(nodeId, vote)] }

/-- The vote was cast. -/
def Cast (s : Traffic D) (vote : StoredVote) : Prop :=
  (vote.nodeId, (⟨vote.height, vote.round, vote.blockId⟩ : Vote)) ∈ s.casts

/-- A vote message that is accepted in the name of another node carries an id that this
node has signed, in one of its votes. -/
def Unforged (net : Net D) (s : Traffic D) (a : Action) : Prop :=
  ∀ msg ∈ a.message, msg.accepted net s.plugin = true → msg.nodeId ≠ s.plugin.nodeId →
    ∃ cast ∈ s.casts, cast.1 = msg.nodeId ∧ cast.2.id = msg.id

/-- A vote message that is accepted in the name of another node, and not dropped, says at
which height and in which round the vote was cast. -/
def Genuine (net : Net D) (s : Traffic D) (a : Action) : Prop :=
  ∀ msg ∈ a.message, msg.accepted net s.plugin = true → msg.nodeId ≠ s.plugin.nodeId →
    s.plugin.currentHeight < msg.height ∨
      (findBlock (msg.height, msg.id) s.plugin.newBlocks).isSome → s.Cast msg.vote

instance (s : Traffic D) (vote : StoredVote) : Decidable (s.Cast vote) :=
  inferInstanceAs (Decidable (_ ∈ _))

instance (net : Net D) (s : Traffic D) (a : Action) : Decidable (s.Unforged net a) :=
  inferInstanceAs (Decidable (∀ msg ∈ a.message, _ → _ → _))

instance (net : Net D) (s : Traffic D) (a : Action) : Decidable (s.Genuine net a) :=
  inferInstanceAs (Decidable (∀ msg ∈ a.message, _ → _ → _ → _))

/-- A node among votes whose signatures are not forged. -/
def system (net : Net D) : System (Traffic D) Action :=
  (System.ofStep (fun s => s.plugin.Fresh) (step net)).restrict fun s a => s.Unforged net a

/-- What a node has counted or stored of other nodes was cast. -/
def Authentic (s : Traffic D) : Prop :=
  Tally (fun vote => vote.nodeId ≠ s.plugin.nodeId → s.Cast vote) s.plugin.view

theorem authentic_of_fresh {s : Traffic D} (h : s.plugin.Fresh) : s.Authentic := by
  unfold Authentic Plugin.view Plugin.viewOf
  rw [h.newBlocks, h.blockVotes]
  exact ⟨by simp, by simp, by simp, by simp⟩

/-- The votes that are received are genuine. -/
theorem Genuine.received {net : Net D} {s : Traffic D} {e : Event}
    (h : s.Genuine net (.event e)) (vote : StoredVote)
    (hvote : (allow net s.plugin e).received vote) (hother : vote.nodeId ≠ s.plugin.nodeId) :
    s.Cast vote := by
  obtain ⟨msg, rfl, haccepted, rfl, hkept⟩ := hvote
  exact h msg rfl haccepted hother hkept

/-- **One step.** -/
theorem Authentic.step {net : Net D} {s t : Traffic D} {a : Action} (h : s.Authentic)
    (hs : Traffic.step net s a = some t) (hgenuine : s.Genuine net a) : t.Authentic := by
  cases a with
  | cast nodeId vote =>
      obtain rfl := Option.some.inj hs
      exact h.mono fun other hother hne => List.mem_append_left _ (hother hne)
  | event e =>
      obtain ⟨q, hq, rfl⟩ := Option.map_eq_some_iff.1 hs
      have hhandled := step_handled net hq
      have hnode : q.nodeId = s.plugin.nodeId := hhandled.node.1
      unfold Authentic
      rw [hnode]
      -- the node id of the view is needed for the vote of this node
      refine (hhandled.invariant (I := fun v => v.nodeId = s.plugin.nodeId ∧
        Tally (fun vote => vote.nodeId ≠ s.plugin.nodeId → s.Cast vote) v) ⟨rfl, h⟩
        (fun v w hv hw => ⟨hw.node.1.trans hv.1, ?_⟩)
        fun v w hv hw => ⟨hw.node.1.trans hv.1, hv.2.commits hw⟩).2
      exact hv.2.micro hw (fun _ h => h) hgenuine.received
        fun _ _ _ _ _ _ _ _ hne => absurd hv.1 hne

theorem authentic_invariant (net : Net D) :
    ((system net).restrict (Genuine net)).Invariant Authentic where
  init _ h := authentic_of_fresh h
  step _ _ _ h hs := h.step hs.2.2 hs.1

end Traffic

open Traffic

/-- **Counted votes were cast**, at the height and in the round they are counted, as long
as the messages are genuine; and no more votes are counted than there are nodes that
voted. -/
theorem counted_was_cast (net : Net D) {s : Traffic D}
    (h : ((system net).restrict (Genuine net)).Reachable s) :
    ∀ block ∈ s.plugin.newBlocks, ∀ round,
      block.numVotes round = ((block.tempVotes round).map BlockVote.nodeId).toFinset.card ∧
      ∀ vote ∈ block.tempVotes round, vote.nodeId ≠ s.plugin.nodeId →
        (vote.nodeId, (⟨block.height, round, block.id⟩ : Vote)) ∈ s.casts := by
  intro block hblock round
  have htally : s.Authentic := (authentic_invariant net).reachable h
  have hmem : block.ballot ∈ s.plugin.view.ballots :=
    Multiset.mem_coe.2 (List.mem_map.2 ⟨block, hblock, rfl⟩)
  have hnodup : ((block.tempVotes round).map BlockVote.nodeId).Nodup :=
    htally.nodup block.ballot hmem round
  refine ⟨?_, htally.counted block.ballot hmem round⟩
  rw [List.toFinset_card_of_nodup hnodup, List.length_map]
  exact htally.count block.ballot hmem round

/-- Node 1, and the vote of node 3 for its own block in the first round. -/
def oneCast : Traffic Unit := ⟨startNode 1, [(3, ⟨2, 0, idOf 3⟩)]⟩

/-- The block of node 3 arrives, and after it a vote of this node in a round. -/
def blockThenVote (round : ℕ) : List Action :=
  [.event (blockOf 3 [firstTid 3]), .event (voteBy 3 round 3)]

/-- What the node has counted on the first of its blocks. -/
def firstCounts (s : Traffic D) : List (List ℤ) :=
  s.plugin.newBlocks.head?.toList.flatMap fun block =>
    [0, 1].map fun round => (block.tempVotes round).map BlockVote.nodeId

/-- The hypothesis holds of a node that counts the vote as it was cast. -/
theorem counted_was_cast_blockThenVote :
    ∃ s, System.run (System.checked (fun s a => decide (s.Unforged plainNet a ∧
          s.Genuine plainNet a)) (Traffic.step plainNet)) oneCast (blockThenVote 0) = some s ∧
      firstCounts s = [[3], []] ∧ ∀ block ∈ s.plugin.newBlocks, ∀ round,
        block.numVotes round = ((block.tempVotes round).map BlockVote.nodeId).toFinset.card ∧
        ∀ vote ∈ block.tempVotes round, vote.nodeId ≠ s.plugin.nodeId →
          (vote.nodeId, (⟨block.height, round, block.id⟩ : Vote)) ∈ s.casts := by
  have hcounts : (System.run (System.checked (fun s a => decide (s.Unforged plainNet a ∧
      s.Genuine plainNet a)) (Traffic.step plainNet)) oneCast (blockThenVote 0)).map firstCounts =
        some [[3], []] := by decide +kernel
  obtain ⟨s, hs, hcounts⟩ := Option.map_eq_some_iff.1 hcounts
  refine ⟨s, hs, hcounts, counted_was_cast plainNet ?_⟩
  have hinit : ((system plainNet).restrict (Genuine plainNet)).init oneCast :=
    startNodeWith_fresh 1 threeNodes
  refine System.Reachable.run (fun {s a t} hstep => ?_) (.init hinit) hs
  unfold System.checked at hstep
  split_ifs at hstep with hcheck
  obtain ⟨hunforged, hgenuine⟩ := of_decide_eq_true hcheck
  exact ⟨hgenuine, hunforged, hstep⟩

/-- **A vote is counted in a round in which it was not cast.**  The vote of node 3 in the
first round is replayed as one in the second. -/
theorem counted_not_cast :
    ∃ s, (system plainNet).Reachable s ∧ ∃ block ∈ s.plugin.newBlocks, ∃ round,
      ∃ vote ∈ block.tempVotes round, vote.nodeId ≠ s.plugin.nodeId ∧
        (vote.nodeId, (⟨block.height, round, block.id⟩ : Vote)) ∉ s.casts := by
  have hrun : (System.run (System.checked (fun s a => decide (s.Unforged plainNet a))
      (Traffic.step plainNet)) oneCast (blockThenVote 1)).any (fun s =>
        s.plugin.newBlocks.any fun block => (block.tempVotes 1).any fun vote =>
          decide (vote.nodeId ≠ s.plugin.nodeId ∧
            (vote.nodeId, (⟨block.height, 1, block.id⟩ : Vote)) ∉ s.casts)) = true := by
    decide +kernel
  obtain ⟨s, hs, hany⟩ := (Option.any_eq_true _ _).1 hrun
  obtain ⟨block, hblock, hany⟩ := List.any_eq_true.1 hany
  obtain ⟨vote, hvote, hcast⟩ := List.any_eq_true.1 hany
  exact ⟨s, System.reachable_restrict_of_run of_decide_eq_true
    (startNodeWith_fresh 1 threeNodes) hs, block, hblock, 1, vote, hvote, of_decide_eq_true hcast⟩

end NoLeader
end AergoLite
