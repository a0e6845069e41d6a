/-
# The votes stored with a block

A block is committed when `check_for_winner_block` has counted a majority of votes;
the votes are stored with it, and whoever loads the block counts them again
(`verify_block_votes`).  The second count leaves out the votes of nodes that cannot
vote at the height, the first does not: the test in `on_block_vote` is disabled.  As
long as such votes do not arrive (`Eligible`), what is stored with each block is
accepted on every node that has the same nodes at its height (`commits_verify`).
-/

import AergoLite.NoLeader.Refinement

namespace AergoLite
namespace NoLeader

open AergoLite.Core
open Transition

variable {D : Type}

/-- A node id belongs to one key, as it is computed from it. -/
structure KeysOf (key : ℤ → Bytes) (p : Plugin D) : Prop where
  own : p.core.pubkey = key p.nodeId
  list : ∀ auth ∈ p.core.authorizations, auth.pk = key auth.nodeId
  table : ∀ row ∈ p.core.db.worker.nodes, row.pubkey = key row.nodeId

/-- The node, while no two keys have one id. -/
def keyed (net : Net D) (key : ℤ → Bytes) : System (Plugin D) Event :=
  (node net).restrict fun p _ => KeysOf key p

/-- The votes on blocks of the next height, whether counted, stored or arriving, are of
nodes that can vote there. -/
structure Eligible (net : Net D) (p : Plugin D) (e : Event) : Prop where
  counted : ∀ block ∈ p.newBlocks, block.height = p.currentHeight + 1 → ∀ round,
    ∀ vote ∈ block.tempVotes round, p.canVoteOnBlock vote.nodeId block.height = true
  stored : ∀ vote ∈ p.blockVotes, vote.height = p.currentHeight + 1 →
    p.canVoteOnBlock vote.nodeId vote.height = true
  arriving : ∀ msg ∈ e.message, msg.accepted net p = true → msg.height = p.currentHeight + 1 →
    p.canVoteOnBlock msg.nodeId msg.height = true

/-- A list and a table have the same nodes at a height as another list: the same of them
can vote, they are as many, and their keys are found. -/
structure SameNodes (key : ℤ → Bytes) (auths : List NodeAuth) (height : ℤ)
    (auths' : List NodeAuth) (nodes : List AllowedNode) : Prop where
  voters : ∀ nodeId, canVoteOnBlock auths' nodeId height = canVoteOnBlock auths nodeId height
  number : getNumActiveNodes auths' height = getNumActiveNodes auths height
  keys : ∀ nodeId, canVoteOnBlock auths nodeId height = true →
    nodePubkey auths' nodes nodeId = some (key nodeId)

/-- The keys of a list in which each node id belongs to one key. -/
theorem nodePubkey_of_keys {key : ℤ → Bytes} {auths : List NodeAuth} {nodes : List AllowedNode}
    (hlist : ∀ auth ∈ auths, auth.pk = key auth.nodeId)
    (htable : ∀ row ∈ nodes, row.pubkey = key row.nodeId) {nodeId : ℤ} {pubkey : Bytes}
    (h : nodePubkey auths nodes nodeId = some pubkey) : pubkey = key nodeId := by
  unfold nodePubkey at h
  split at h
  · rename_i auth hauth
    obtain ⟨hmem, rfl⟩ := aergoliteGetAuthorization_some hauth
    exact (Option.some.inj h).symm.trans (hlist auth hmem)
  · obtain ⟨row, hrow, rfl⟩ := Option.map_eq_some_iff.1 h
    have hid : row.nodeId = nodeId := by simpa using List.find?_some hrow
    exact hid ▸ htable row (List.mem_of_find?_eq_some hrow)

/-- A list has the nodes it has. -/
theorem SameNodes.refl {key : ℤ → Bytes} {auths : List NodeAuth} (height : ℤ)
    (nodes : List AllowedNode) (hlist : ∀ auth ∈ auths, auth.pk = key auth.nodeId) :
    SameNodes key auths height auths nodes := by
  refine ⟨fun _ => rfl, rfl, fun nodeId hcan => ?_⟩
  unfold canVoteOnBlock at hcan
  split_ifs at hcan
  all_goals
    split at hcan
    · simp at hcan
    · rename_i auth hauth
      obtain ⟨hmem, rfl⟩ := aergoliteGetAuthorization_some hauth
      simp [nodePubkey, hauth, hlist auth hmem]

/-- The nodes `get_num_active_nodes` counts do not depend on what voting does not see. -/
theorem getNumActiveNodes_roster (auths : List NodeAuth) (height : ℤ) :
    getNumActiveNodes (roster auths) height = getNumActiveNodes auths height := by
  unfold getNumActiveNodes roster
  rw [List.countP_map]
  rfl

/-- **The majority of the first count is one of the second.** -/
theorem majority_getNumActiveNodes_le {v : View} (h : v.Numbered) :
    majority (getNumActiveNodes v.roster (v.current + 1)) ≤ majority v.electorate := by
  unfold majority
  by_cases hone : v.current + 1 = 1
  · simp [getNumActiveNodes, hone]
  have hle : getNumActiveNodes v.roster (v.current + 1) ≤ v.electorate := by
    rw [getNumActiveNodes, if_neg hone, View.electorate]
    by_cases hpos : 0 < v.current
    · rw [if_pos hpos, h.2]
      refine List.countP_mono_left fun auth _ hactive => ?_
      simp only [NodeAuth.activeAt, Bool.and_eq_true] at hactive
      exact hactive.1
    · have hnone : v.roster.countP (fun auth => auth.activeAt (v.current + 1)) = 0 := by
        refine List.countP_eq_zero.2 fun auth _ hactive => ?_
        simp only [NodeAuth.activeAt, Bool.and_eq_true, decide_eq_true_eq] at hactive
        omega
      exact hnone.trans_le (Nat.zero_le _)
  omega

section
variable {net : Net D} {key : ℤ → Bytes}

/-- The signature of the vote is of its node. -/
def Signed (net : Net D) (key : ℤ → Bytes) (vote : StoredVote) : Prop :=
  aergoliteVerifyRaw net.crypto vote.blockId (key vote.nodeId) vote.sig = .ok

/-- The vote is signed and, if it is on a block of the next height, its node can vote. -/
def Fit (net : Net D) (key : ℤ → Bytes) (v : View) (vote : StoredVote) : Prop :=
  Signed net key vote ∧ (vote.height = v.current + 1 →
    canVoteOnBlock v.roster vote.nodeId vote.height = true)

/-- A vote is counted again if its node can vote and has signed it. -/
theorem counted_of_signed {auths auths' : List NodeAuth} {nodes : List AllowedNode} {height : ℤ}
    {id : Bytes} {vote : BlockVote} {round : Fin 2} (hsame : SameNodes key auths height auths' nodes)
    (hcan : canVoteOnBlock auths vote.nodeId height = true)
    (hsigned : Signed net key ⟨vote.nodeId, round, height, id, vote.sig⟩) :
    VoteItem.counted net.crypto auths' nodes height id false ⟨vote.nodeId, vote.sig, round⟩ =
      true := by
  have hkey := hsame.keys vote.nodeId hcan
  have hverify : aergoliteVerifyRaw net.crypto id (key vote.nodeId) vote.sig = .ok := hsigned
  simp [VoteItem.counted, VoteItem.signed, aergoliteVerifyRawById, hsame.voters, hcan, hkey, hverify]

/-- What is stored with a committed block is accepted. -/
def Verifies (net : Net D) (key : ℤ → Bytes) (c : Commit) : Prop :=
  ∀ auths nodes, SameNodes key c.authorizations c.block.height auths nodes →
    verifyBlockVotes net.crypto auths nodes c.block.height c.block.id c.block.votes false = .ok

/-- **A commit stores votes that are accepted**, if all votes of the next height are of
nodes that can vote there, and signed. -/
theorem Commits.verifies {v w : View} (h : Commits v w) (hnumbers : v.Numbered)
    (htally : Tally (Fit net key v) v)
    (hv : ∀ c ∈ v.committed, Verifies net key c) : ∀ c ∈ w.committed, Verifies net key c := by
  cases h with
  | @mk b rest round c auths hballots hheight hwins hblock hvotes hbefore _ =>
      intro c' hc'
      rcases List.mem_append.1 hc' with hc' | hc'
      · exact hv c' hc'
      obtain rfl := List.mem_singleton.1 hc'
      intro auths' nodes hsame
      have hb : b ∈ v.ballots := hballots ▸ Multiset.mem_cons_self b rest
      rw [hblock.1] at hsame ⊢
      rw [hblock.2]
      have hcounted : ∀ item ∈ (b.votes round).map (fun vote =>
          (⟨vote.nodeId, vote.sig, round.val⟩ : VoteItem)),
          item.counted net.crypto auths' nodes b.height b.id false = true := by
        intro item hitem
        obtain ⟨vote, hvote, rfl⟩ := List.mem_map.1 hitem
        obtain ⟨hsigned, hcan⟩ := htally.counted b hb round vote hvote
        have hcan' := hcan hheight
        rw [← hbefore, canVoteOnBlock_roster] at hcan'
        exact counted_of_signed hsame hcan' hsigned
      have hcount : b.count round ≤ c'.block.votes.countP
          fun item => item.counted net.crypto auths' nodes b.height b.id false := by
        refine le_trans ?_ (hvotes.sublist.countP_le (p := _))
        rw [List.countP_eq_length.2 hcounted, List.length_map, htally.count b hb round]
      have hnumber : majority (getNumActiveNodes auths' b.height) ≤ majority v.electorate := by
        rw [hsame.number, ← getNumActiveNodes_roster, hbefore, hheight]
        exact majority_getNumActiveNodes_le hnumbers
      unfold verifyBlockVotes
      exact if_neg (not_lt.2 (hnumber.trans (hwins.trans hcount)))

/-! ## Runs -/

/-- What a handler works on until it commits: the node, its height and its list are those
of the view it began with. -/
structure Within (v u : View) : Prop where
  node : u.nodeId = v.nodeId ∧ u.pubkey = v.pubkey
  current : u.current = v.current
  roster : u.roster = v.roster
  committed : u.committed = v.committed

theorem Within.micro {sign : Bytes → Bytes → Option Bytes} {allow : Allow} {v u w : View}
    (h : Within v u) (hs : Micro sign allow u w) (hauth : ∀ auth, ¬ allow.authorized auth) :
    Within v w := by
  obtain ⟨hcurrent, hroster, hcommitted⟩ := hs.frame hauth
  exact ⟨⟨hs.node.1.trans h.node.1, hs.node.2.trans h.node.2⟩, hcurrent.trans h.current,
    hroster.trans h.roster, hcommitted.trans h.committed⟩

/-- The counters are right, the votes are signed, and what was stored with each committed
block is accepted. -/
structure Sealed (net : Net D) (key : ℤ → Bytes) (v : View) : Prop where
  numbers : v.Numbered
  tally : Tally (Signed net key) v
  verifies : ∀ c ∈ v.committed, Verifies net key c

/-- The votes a node has are fit, where those of the next height are of nodes that can
vote there. -/
theorem Eligible.fit {p : Plugin D} {e : Event} (h : Eligible net p e)
    (htally : Tally (Signed net key) p.view) : Tally (Fit net key p.view) p.view := by
  refine ⟨htally.count, htally.nodup, fun b hb round vote hvote => ?_, fun vote hvote => ?_⟩
  · refine ⟨htally.counted b hb round vote hvote, fun hheight => ?_⟩
    obtain ⟨block, hblock, rfl⟩ := List.mem_map.1 (Multiset.mem_coe.1 hb)
    exact (canVoteOnBlock_roster _ _ _).trans (h.counted block hblock hheight round vote hvote)
  · exact ⟨htally.stored vote hvote, fun hheight =>
      (canVoteOnBlock_roster _ _ _).trans (h.stored vote hvote hheight)⟩

/-- The vote that arrives is fit. -/
theorem Eligible.received {p : Plugin D} {e : Event} (h : Eligible net p e)
    (hkeys : KeysOf key p) (vote : StoredVote) (hvote : (allow net p e).received vote) :
    Fit net key p.view vote := by
  obtain ⟨msg, rfl, haccepted, rfl, -⟩ := hvote
  refine ⟨?_, fun hheight =>
    (canVoteOnBlock_roster _ _ _).trans (h.arriving msg rfl haccepted hheight)⟩
  have hverify : p.core.verifyRaw net.toEnv msg.id msg.nodeId msg.sig = .ok := by
    have hchecks := haccepted
    simp only [VoteMessage.accepted, Bool.and_eq_true, decide_eq_true_eq] at hchecks
    exact hchecks.2
  unfold Aergolite.verifyRaw aergoliteVerifyRawById at hverify
  split at hverify
  · simp at hverify
  · rename_i pubkey hpubkey
    rw [nodePubkey_of_keys hkeys.list hkeys.table hpubkey] at hverify
    exact hverify

/-- **One step.** -/
theorem Sealed.step (hsign : ∀ nodeId hash sig, net.ecdsaSign (key nodeId) hash = some sig →
    aergoliteVerifyRaw net.crypto hash (key nodeId) sig = .ok) {p q : Plugin D} {e : Event}
    (h : Sealed net key p.view) (hs : NoLeader.step net p e = some q) (hkeys : KeysOf key p)
    (heligible : Eligible net p e) : Sealed net key q.view := by
  by_cases hauth : ∃ auth, (allow net p e).authorized auth
  · -- a node that is added is counted, and nothing else
    obtain ⟨-, log, fromThisNode, -, -, rfl, -⟩ := hauth
    rcases view_onNewAuthorization net hs with hview | ⟨auth, -, hview⟩
    · exact hview ▸ h
    · exact hview ▸ ⟨⟨rfl, rfl⟩,
        ⟨h.tally.count, h.tally.nodup, h.tally.counted, h.tally.stored⟩, h.verifies⟩
  have hauth : ∀ auth, ¬ (allow net p e).authorized auth := fun auth hnew => hauth ⟨auth, hnew⟩
  obtain ⟨u, ⟨hu, hnumbers, htally⟩, hend⟩ := (step_handled net hs).before
    (I := fun u => Within p.view u ∧ u.Numbered ∧ Tally (Fit net key p.view) u)
    ⟨⟨⟨rfl, rfl⟩, rfl, rfl, rfl⟩, h.numbers, heligible.fit h.tally⟩
    fun v w hv hw => by
      refine ⟨hv.1.micro hw hauth, hw.numbered hv.2.1, hv.2.2.micro hw (fun _ h => h)
        (heligible.received hkeys) fun b _ round sig hheight hcan hsigned _ => ⟨?_, fun _ => ?_⟩⟩
      · have hown : v.pubkey = key v.nodeId := by
          rw [hv.1.node.1, hv.1.node.2]
          exact hkeys.own
        exact hsign v.nodeId b.id sig (hown ▸ hsigned)
      · rw [hv.1.roster] at hcan
        exact hheight ▸ hcan
  have hsigned : Tally (Signed net key) u := htally.mono fun _ hvote => hvote.1
  have hverifies : ∀ c ∈ u.committed, Verifies net key c := by
    rw [hu.committed]
    exact h.verifies
  rcases hend with rfl | hend
  · exact ⟨hnumbers, hsigned, hverifies⟩
  · refine ⟨hend.numbered, hsigned.commits hend, hend.verifies hnumbers ?_ hverifies⟩
    exact htally.mono fun vote hvote => ⟨hvote.1, by
      rw [hu.current, hu.roster]
      exact hvote.2⟩

theorem sealed_of_fresh {p : Plugin D} (h : p.Fresh) : Sealed net key p.view := by
  have hcounted := congrArg Plugin.view h.counted
  rw [view_countAuthorizedNodes] at hcounted
  have hnumbers : p.view.Numbered :=
    ⟨congrArg View.total hcounted, congrArg View.active hcounted⟩
  refine ⟨hnumbers, ⟨?_, ?_, ?_, ?_⟩, ?_⟩
  all_goals simp [Plugin.view, Plugin.viewOf, h.newBlocks, h.blockVotes, h.committed]

end

/-- **Stored votes are accepted.**  As long as no vote arrives for a block of the next
height of a node that cannot vote there, the votes stored with each block that is
committed are accepted on every node that has the same nodes at its height.  It is
assumed that the signatures of the nodes verify. -/
theorem commits_verify (net : Net D) (key : ℤ → Bytes)
    (hsign : ∀ nodeId hash sig, net.ecdsaSign (key nodeId) hash = some sig →
      aergoliteVerifyRaw net.crypto hash (key nodeId) sig = .ok) {p : Plugin D}
    (h : ((keyed net key).restrict (Eligible net)).Reachable p) :
    ∀ c ∈ p.committed, ∀ auths nodes,
      SameNodes key c.authorizations c.block.height auths nodes →
      verifyBlockVotes net.crypto auths nodes c.block.height c.block.id c.block.votes false =
        .ok := by
  have hinv : ((keyed net key).restrict (Eligible net)).Invariant
      fun p => Sealed net key p.view :=
    ⟨fun _ hinit => sealed_of_fresh hinit,
      fun _ _ _ hp hs => hp.step hsign hs.2.2 hs.2.1 hs.1⟩
  exact (hinv.reachable h).verifies

/-- `commit_block` stores the votes of the block it commits. -/
theorem commitBlock_stores {net : Net D} {p : Plugin D} {block : Block}
    (h : (commitBlock net p block).1 = .ok) :
    let q := (commitBlock net p block).2
    q.committed = p.committed ++ [⟨block, p.core.authorizations⟩] ∧
      ∃ row ∈ q.core.db.state.blocks, row.header = block.header ∧ row.votes = block.votes := by
  have hkeep : ∀ q : Plugin D, (startNewBlockTimer net q).committed = q.committed ∧
      (startNewBlockTimer net q).core = q.core := by
    intro q
    unfold startNewBlockTimer canCreateBlock
    split_ifs
    · exact ⟨rfl, rfl⟩
    · exact ⟨rfl, rfl⟩
    · exact ⟨rfl, rfl⟩
    · dsimp only
      split_ifs <;> exact ⟨rfl, rfl⟩
  unfold commitBlock at h ⊢
  dsimp only at h ⊢
  split_ifs at h ⊢ with hrc
  · exact absurd h hrc
  · rw [(hkeep _).1, (hkeep _).2]
    exact ⟨rfl, _, aergoliteCommitBlock_stores (not_not.1 hrc), rfl, rfl⟩

/-! ## Three nodes, the third of which the chain has not authorized -/

instance (key : ℤ → Bytes) (p : Plugin D) : Decidable (KeysOf key p) :=
  decidable_of_iff (p.core.pubkey = key p.nodeId ∧
      (∀ auth ∈ p.core.authorizations, auth.pk = key auth.nodeId) ∧
      ∀ row ∈ p.core.db.worker.nodes, row.pubkey = key row.nodeId)
    ⟨fun h => ⟨h.1, h.2.1, h.2.2⟩, fun h => ⟨h.own, h.list, h.table⟩⟩

instance (net : Net D) (p : Plugin D) (e : Event) : Decidable (Eligible net p e) :=
  decidable_of_iff ((∀ block ∈ p.newBlocks, block.height = p.currentHeight + 1 → ∀ round,
        ∀ vote ∈ block.tempVotes round, p.canVoteOnBlock vote.nodeId block.height = true) ∧
      (∀ vote ∈ p.blockVotes, vote.height = p.currentHeight + 1 →
        p.canVoteOnBlock vote.nodeId vote.height = true) ∧
      ∀ msg ∈ e.message, msg.accepted net p = true → msg.height = p.currentHeight + 1 →
        p.canVoteOnBlock msg.nodeId msg.height = true)
    ⟨fun h => ⟨h.1, h.2.1, h.2.2⟩, fun h => ⟨h.counted, h.stored, h.arriving⟩⟩

/-- The key of each of the nodes. -/
def keyOfId (nodeId : ℤ) : Bytes := keyOf nodeId.toNat

/-- The list in which the third node is authorized by no block. -/
def twoOnChain : List NodeAuth :=
  threeNodes.map fun auth => if auth.nodeId = 3 then { auth with sinceBlock := 0 } else auth

/-- Node 1 creates a block and votes for it, and a vote of another node arrives. -/
def ownBlock (other : ℕ) : List Event :=
  [transactionOf 1, .newBlockTimeout 0, .blockWaitTimeout, voteBy other 0 1]

theorem plainSign_verifies (nodeId : ℤ) (hash sig : Bytes)
    (h : plainNet.ecdsaSign (keyOfId nodeId) hash = some sig) :
    aergoliteVerifyRaw plainNet.crypto hash (keyOfId nodeId) sig = .ok := by
  obtain rfl : plainSign (keyOfId nodeId) hash = sig := Option.some.inj h
  have hlength : (plainSign (keyOfId nodeId) hash).length = 64 := by
    simp only [plainSign, List.length_take, List.length_append, List.length_replicate]
    omega
  have hkey : (keyOfId nodeId).isEmpty = false := rfl
  simp [aergoliteVerifyRaw, plainNet, plainEnv, plainCrypto, hlength, hkey]

/-- The hypotheses hold of a node that commits its block with the vote of a node that can
vote. -/
theorem commits_verify_ownBlock :
    ∃ p, System.run (System.checked (fun p e => decide (KeysOf keyOfId p ∧
          Eligible plainNet p e)) (step plainNet)) (startNodeWith 1 twoOnChain) (ownBlock 2) =
        some p ∧ p.committed.map (fun c => c.block.votes.map VoteItem.nodeId) = [[1, 2]] ∧
      ∀ c ∈ p.committed, ∀ auths nodes,
        SameNodes keyOfId c.authorizations c.block.height auths nodes →
        verifyBlockVotes plainNet.crypto auths nodes c.block.height c.block.id c.block.votes
          false = .ok := by
  have hvotes : (System.run (System.checked (fun p e => decide (KeysOf keyOfId p ∧
      Eligible plainNet p e)) (step plainNet)) (startNodeWith 1 twoOnChain) (ownBlock 2)).map
        (fun p => p.committed.map fun c => c.block.votes.map VoteItem.nodeId) =
      some [[1, 2]] := by decide +kernel
  obtain ⟨p, hp, hvotes⟩ := Option.map_eq_some_iff.1 hvotes
  refine ⟨p, hp, hvotes, commits_verify plainNet keyOfId plainSign_verifies ?_⟩
  have hinit : ((keyed plainNet keyOfId).restrict (Eligible plainNet)).init
    (startNodeWith 1 twoOnChain) := startNodeWith_fresh 1 twoOnChain
  refine System.Reachable.run (fun {s a t} hstep => ?_) (.init hinit) hp
  unfold System.checked at hstep
  split_ifs at hstep with hcheck
  obtain ⟨hkeys, heligible⟩ := of_decide_eq_true hcheck
  exact ⟨heligible, hkeys, hstep⟩

/-- **Votes are stored that are not accepted.**  The vote of a node that the chain has not
authorized makes the majority; the node that has committed the block does not accept the
votes it has stored. -/
theorem commits_not_verify :
    ∃ p, (keyed plainNet keyOfId).Reachable p ∧ ∃ c ∈ p.committed, ∃ auths nodes,
      SameNodes keyOfId c.authorizations c.block.height auths nodes ∧
      verifyBlockVotes plainNet.crypto auths nodes c.block.height c.block.id c.block.votes
        false ≠ .ok := by
  have hrun : (System.run (System.checked (fun p _ => decide (KeysOf keyOfId p))
      (step plainNet)) (startNodeWith 1 twoOnChain) (ownBlock 3)).any (fun p =>
        p.committed.any fun c => decide ((∀ auth ∈ c.authorizations,
            auth.pk = keyOfId auth.nodeId) ∧
          verifyBlockVotes plainNet.crypto c.authorizations [] c.block.height c.block.id
            c.block.votes false ≠ .ok)) = true := by decide +kernel
  obtain ⟨p, hp, hany⟩ := (Option.any_eq_true _ _).1 hrun
  obtain ⟨c, hc, hcheck⟩ := List.any_eq_true.1 hany
  obtain ⟨hkeys, hnot⟩ := of_decide_eq_true hcheck
  exact ⟨p, System.reachable_restrict_of_run of_decide_eq_true
    (startNodeWith_fresh 1 twoOnChain) hp, c, hc, c.authorizations, [],
    .refl c.block.height [] hkeys, hnot⟩

end NoLeader
end AergoLite
