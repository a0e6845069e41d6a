/-
# The votes of one round

Before a block is committed, the votes of the round in which it has its majority are
added to its serialized list (`convert_block_votes`).  The list is not cleared when the
attempt fails, and the test for votes that are there already is disabled: the next
attempt adds the votes again, or those of the other round.  What is stored with a block
is the votes of one round if and only if its list was empty before
(`storesRound_convert_iff`).
-/

import AergoLite.NoLeader.Refinement

namespace AergoLite
namespace NoLeader

open AergoLite.Core
open Transition

variable {D : Type}

/-- The serialized votes of a round. -/
def Block.roundVotes (block : Block) (round : Fin 2) : List VoteItem :=
  (block.tempVotes round).map fun vote => ⟨vote.nodeId, vote.sig, round.val⟩

/-- The number of nodes a block had to have the majority of, by the list it was committed
under. -/
def Commit.electorate (c : Commit) : ℕ :=
  aergoliteNumAuthorizedNodes c.authorizations (decide (1 < c.block.height))

/-- The block had the majority in a round, and the votes stored with it are those that were
counted in this round, one of each node. -/
structure Commit.StoresRound (c : Commit) (round : Fin 2) : Prop where
  wins : majority c.electorate ≤ c.block.numVotes round
  count : c.block.numVotes round = (c.block.tempVotes round).length
  votes : c.block.votes = c.block.roundVotes round
  nodup : (c.block.votes.map VoteItem.nodeId).Nodup

theorem majority_pos (n : ℕ) : 0 < majority n := Nat.succ_pos _

/-- **The votes of one round are stored** if and only if none were in the list before. -/
theorem storesRound_convert_iff {block : Block} {auths : List NodeAuth} {round : Fin 2}
    (hcount : ∀ round, block.numVotes round = (block.tempVotes round).length)
    (hnodup : ∀ round, ((block.tempVotes round).map BlockVote.nodeId).Nodup)
    (hwins : majority (Commit.electorate ⟨block, auths⟩) ≤ block.numVotes round) :
    (∃ round', Commit.StoresRound ⟨convertBlockVotes round block, auths⟩ round') ↔
      block.votes = [] := by
  constructor
  · rintro ⟨round', h⟩
    have hvotes : block.votes ++ block.roundVotes round = block.roundVotes round' := h.votes
    obtain ⟨vote, hvote⟩ : ∃ vote, vote ∈ block.tempVotes round :=
      List.exists_mem_of_length_pos ((majority_pos _).trans_le (hwins.trans_eq (hcount round)))
    have hround : round = round' := by
      have hmem : (⟨vote.nodeId, vote.sig, round.val⟩ : VoteItem) ∈ block.roundVotes round' :=
        hvotes ▸ List.mem_append_right _ (List.mem_map_of_mem hvote)
      obtain ⟨other, -, heq⟩ := List.mem_map.1 hmem
      exact (Fin.ext (congrArg VoteItem.round heq)).symm
    subst hround
    simpa using hvotes
  · intro hnone
    have hvotes : (convertBlockVotes round block).votes = block.roundVotes round := by
      rw [convertBlockVotes, hnone, List.nil_append, Block.roundVotes]
    refine ⟨round, hwins, hcount round, hvotes, ?_⟩
    rw [hvotes, Block.roundVotes, List.map_map]
    exact hnodup round

/-! ## What is committed -/

section
variable {net : Net D}

theorem committed_startNewBlockTimer (p : Plugin D) :
    (startNewBlockTimer net p).committed = p.committed := by
  rcases view_startNewBlockTimer net p with h | h <;> exact congrArg View.committed h

theorem committed_commitBlock (p : Plugin D) (block : Block) :
    (commitBlock net p block).2.committed = p.committed ∨
      ∃ auths, (commitBlock net p block).2.committed = p.committed ++ [⟨block, auths⟩] := by
  unfold commitBlock
  dsimp only
  split_ifs
  · exact .inl (congrArg View.committed (still_markOutdated _ _).view)
  · exact .inr ⟨_, committed_startNewBlockTimer _⟩

theorem committed_applyBlock (p : Plugin D) (block : Block) :
    (applyBlock net p block).committed = p.committed ∨
      ∃ auths, (applyBlock net p block).committed = p.committed ++ [⟨block, auths⟩] := by
  have hverify : (verifyBlock net p block).2.committed = p.committed :=
    congrArg View.committed (still_verifyBlock net p block).view
  unfold applyBlock
  dsimp only
  split_ifs
  · exact hverify ▸ committed_commitBlock _ block
  · exact .inl hverify

/-- **The winner is committed with its votes converted**, if it is committed. -/
theorem committed_commitWinner (p : Plugin D) (round : Fin 2) (block : Block) :
    (commitWinner net round block p).committed = p.committed ∨
      ∃ auths, (commitWinner net round block p).committed =
        p.committed ++ [⟨convertBlockVotes round block, auths⟩] := by
  have hcheck : (checkBlockTransactions (rollbackOpenBlock p) block).2.committed = p.committed :=
    congrArg View.committed ((still_rollbackOpenBlock p).trans
      (still_checkBlockTransactions _ block)).view
  unfold commitWinner
  dsimp only
  split_ifs
  · exact committed_commitBlock _ _
  · exact .inl hcheck
  · rcases @committed_applyBlock _ net _ (convertBlockVotes round block) with h | ⟨auths, h⟩
    · exact .inl (h.trans hcheck)
    · exact .inr ⟨auths, h.trans (congrArg (· ++ _) hcheck)⟩

/-- The last block that has been committed, and the list it was committed under. -/
theorem Commits.last {v w : View} (h : Commits v w) :
    ∃ c, w.committed = v.committed ++ [c] ∧ roster c.authorizations = v.roster ∧
      c.block.height = v.current + 1 := by
  cases h with
  | @mk b rest round c auths _ hheight _ hblock _ hbefore =>
      exact ⟨c, rfl, hbefore, hblock.1.trans hheight⟩

/-- The number of nodes is counted in the list the block is committed under. -/
theorem electorate_of_commits {v w : View} (hv : v.Numbered) (h : Commits v w) {c : Commit}
    (hc : w.committed = v.committed ++ [c]) : c.electorate = v.electorate := by
  obtain ⟨c', hc', hroster, hheight⟩ := h.last
  obtain rfl : c' = c := by simpa using hc'.symm.trans hc
  unfold Commit.electorate View.electorate
  rw [← aergoliteNumAuthorizedNodes_roster, hroster, hheight, hv.1, hv.2]
  by_cases hpos : 0 < v.current
  · rw [if_pos hpos, decide_eq_true (by omega)]
  · rw [if_neg hpos, decide_eq_false (by omega)]

/-- The counters of a node are right. -/
structure Counted (p : Plugin D) : Prop where
  numbers : p.view.Numbered
  tally : Tally (fun _ => True) p.view

theorem Tally.trivial_micro {sign : Bytes → Bytes → Option Bytes} {allow : Allow} {v w : View}
    (h : Tally (fun _ => True) v) (hs : Micro sign allow v w) : Tally (fun _ => True) w :=
  h.micro hs (fun _ => id) (fun _ _ => trivial) fun _ _ _ _ _ _ _ _ => trivial

theorem Counted.arrives {allow : Allow} {p q : Plugin D} (h : Counted p)
    (hq : Arrives net allow p q) : Counted q := by
  have hview := path_invariant (I := fun v => v.Numbered ∧ Tally (fun _ => True) v) hq.path
    ⟨h.numbers, h.tally⟩ fun v w hv hw => ⟨hw.numbered hv.1, hv.2.trivial_micro hw⟩
  exact ⟨hview.1, hview.2⟩

theorem committed_of_arrives {allow : Allow} {p q : Plugin D} (h : Arrives net allow p q) :
    q.committed = p.committed :=
  path_invariant (I := fun v => v.committed = p.committed) h.path rfl
    fun _ _ hv hw => hw.committed.trans hv

theorem Counted.step {p q : Plugin D} {e : Event} (h : Counted p)
    (hs : NoLeader.step net p e = some q) : Counted q := by
  have hview := (step_handled net hs).invariant
    (I := fun v => v.Numbered ∧ Tally (fun _ => True) v) ⟨h.numbers, h.tally⟩
    (fun v w hv hw => ⟨hw.numbered hv.1, hv.2.trivial_micro hw⟩)
    fun v w hv hw => ⟨hw.numbered, hv.2.commits hw⟩
  exact ⟨hview.1, hview.2⟩

theorem counted_of_fresh {p : Plugin D} (h : p.Fresh) : Counted p := by
  have hcounted := congrArg Plugin.view h.counted
  rw [view_countAuthorizedNodes] at hcounted
  refine ⟨⟨congrArg View.total hcounted, congrArg View.active hcounted⟩, ?_, ?_, ?_, ?_⟩
  all_goals simp [Plugin.view, Plugin.viewOf, h.newBlocks, h.blockVotes]

/-- **What an event commits**: a winner, whose list of votes was empty if it was before the
event. -/
theorem step_commits {p q : Plugin D} {e : Event} (h : Counted p)
    (hs : NoLeader.step net p e = some q) : q.committed = p.committed ∨
    ∃ block round auths, q.committed = p.committed ++ [⟨convertBlockVotes round block, auths⟩] ∧
      (block.votes = [] ∨ ∃ other ∈ p.newBlocks, other.fixed = block.fixed) ∧
      ((∃ round', Commit.StoresRound ⟨convertBlockVotes round block, auths⟩ round') ↔
        block.votes = []) := by
  obtain ⟨r, harrives, hdecides⟩ := step_arrives net hs
  cases hdecides with
  | none hlead => exact .inl (committed_of_arrives (harrives.trans hlead.arrives))
  | @winner u round block hlead hnext hwins =>
      have hu := harrives.trans hlead.arrives
      have hcounted := h.arrives hu
      rcases @committed_commitWinner _ net u round block with hsame | ⟨auths, hcommitted⟩
      · exact .inl (hsame.trans (committed_of_arrives hu))
      have hblock := (mem_nextBlocks.1 hnext).1
      refine .inr ⟨block, round, auths, hcommitted.trans (congrArg (· ++ _) (committed_of_arrives hu)),
        hu.blocks block hblock, ?_⟩
      have hmem : block.ballot ∈ u.view.ballots :=
        Multiset.mem_coe.2 (List.mem_map_of_mem hblock)
      refine storesRound_convert_iff (hcounted.tally.count _ hmem) (hcounted.tally.nodup _ hmem) ?_
      rcases commitWinner_commits net hnext hwins with hview | hcommits
      · have hsame : u.committed = u.committed ++ [_] :=
          (congrArg View.committed hview).symm.trans hcommitted
        simp at hsame
      · have hnumber := electorate_of_commits hcounted.numbers hcommits hcommitted
        exact (congrArg majority hnumber).trans_le hwins

end

/-! ## Runs -/

/-- The block the event commits, if any, was not converted before: no earlier attempt to
commit it has failed. -/
def CommitsUnconverted (net : Net D) (p : Plugin D) (e : Event) : Prop :=
  ∀ q c, step net p e = some q → q.committed = p.committed ++ [c] →
    ∀ block ∈ p.newBlocks, block.key = c.block.key → block.votes = []

/-- **The votes of one round are stored with each block**, in every run in which no block is
committed whose votes an earlier attempt has converted. -/
theorem committed_storesRound (net : Net D) {p : Plugin D}
    (h : ((node net).restrict (CommitsUnconverted net)).Reachable p) :
    ∀ c ∈ p.committed, ∃ round, c.StoresRound round := by
  have hinv : ((node net).restrict (CommitsUnconverted net)).Invariant
      fun p => Counted p ∧ ∀ c ∈ p.committed, ∃ round, c.StoresRound round := by
    refine ⟨fun p hp => ⟨counted_of_fresh hp, by simp [hp.committed]⟩, fun p e q hp hs => ?_⟩
    obtain ⟨hcounted, hstores⟩ := hp
    obtain ⟨hunconverted, hs⟩ := hs
    refine ⟨hcounted.step hs, fun c hc => ?_⟩
    rcases step_commits hcounted hs with hsame | ⟨block, round, auths, hnew, hfrom, hiff⟩
    · exact hstores c (hsame ▸ hc)
    rw [hnew] at hc
    rcases List.mem_append.1 hc with hc | hc
    · exact hstores c hc
    obtain rfl := List.mem_singleton.1 hc
    rcases hfrom with hnone | ⟨other, hother, heq⟩
    · exact hiff.2 hnone
    · have hkey : other.fixed.key = block.fixed.key := congrArg Block.key heq
      have hvotes : other.fixed.votes = block.fixed.votes := congrArg Block.votes heq
      exact hiff.2 (hvotes.symm.trans (hunconverted q _ hs hnew other hother hkey))
  exact (hinv.reachable h).2

/-- No block has been converted. -/
def unconverted (p : Plugin D) (_ : Event) : Bool :=
  p.newBlocks.all fun block => decide (block.votes = [])

theorem commitsUnconverted_of_test {net : Net D} {p : Plugin D} {e : Event}
    (h : unconverted p e = true) : CommitsUnconverted net p e := by
  intro q c _ _ block hblock _
  simpa using List.all_eq_true.1 h block hblock

/-- Two votes for a block, after it. -/
def twoVotes : List Event := [blockOf 1 [], voteBy 1 0 1, voteBy 3 0 1]

/-- The hypothesis holds of a run in which a block is committed. -/
theorem committed_storesRound_twoVotes : ∃ p, System.run (step plainNet) (startNode 2) twoVotes =
      some p ∧ p.committed.length = 1 ∧ ∀ c ∈ p.committed, ∃ round, c.StoresRound round := by
  have hrun : (System.run (System.checked unconverted (step plainNet)) (startNode 2) twoVotes).map
      (fun p => p.committed.length) = some 1 := by decide +kernel
  obtain ⟨p, hp, hlength⟩ := Option.map_eq_some_iff.1 hrun
  have hreachable := System.reachable_restrict_of_run (@commitsUnconverted_of_test _ plainNet)
    (startNodeWith_fresh 2 threeNodes) hp
  exact ⟨p, System.run_of_checked hp, hlength, committed_storesRound plainNet hreachable⟩

/-- A node that is busy once. -/
def busyNode (n : ℕ) : Plugin Unit :=
  { startNode n with core := { (startNode n).core with
      db := { (startNode n).core.db with faults := [.busy] } } }

/-- **Votes are stored twice.**  The node is busy when the block has its majority, and the
votes are converted again when it is committed. -/
theorem votes_stored_twice : ∃ p, (node plainNet).Reachable p ∧
    ∃ c ∈ p.committed, c.block.votes.map VoteItem.nodeId = [1, 3, 1, 3, 2] ∧
      ¬ ∃ round, c.StoresRound round := by
  have hfresh : (busyNode 2).Fresh :=
    ⟨Int.one_nonneg, rfl, ⟨rfl, rfl, rfl⟩, rfl, rfl, rfl, rfl, rfl, rfl, rfl, rfl, rfl, rfl⟩
  have hrun : (System.run (step plainNet) (busyNode 2) (twoVotes ++ [.blockWaitTimeout])).map
      (fun p => p.committed.map fun c => c.block.votes.map VoteItem.nodeId) =
        some [[1, 3, 1, 3, 2]] := by decide +kernel
  obtain ⟨p, hp, hvotes⟩ := Option.map_eq_some_iff.1 hrun
  obtain ⟨c, hc, hids⟩ := List.mem_map.1 (hvotes.symm ▸ List.mem_singleton_self [1, 3, 1, 3, 2])
  refine ⟨p, System.reachable_of_run hfresh hp, c, hc, hids, fun ⟨round, h⟩ => ?_⟩
  have hnodup := h.nodup
  rw [hids] at hnodup
  exact absurd hnodup (by decide)

end NoLeader
end AergoLite
