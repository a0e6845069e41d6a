/-
# The second round

`check_for_winner_block` starts the second round when, of the blocks it knows of the next
height, none can reach the majority of the votes of the first round any more.  A block that
has not arrived has at most the votes that are left, so it cannot reach the majority either,
if there is a block to compare it with.  But the test is passed as well where no block of the
next height is known, while one of a later height is: then every vote is left
(`startsSecondRound_sound_iff`).
-/

import AergoLite.Library.TwoRoundVoting
import AergoLite.NoLeader.Agreement

namespace AergoLite
namespace NoLeader

open AergoLite.Core
open Transition
open TwoRoundVoting (Election)

variable {D : Type}

/-- `check_for_winner_block(plugin, 0)` decides to start the second round: whatever
`choose_block_to_vote(plugin, 1)` does, it is what is done. -/
def StartsSecondRound (net : Net D) (p : Plugin D) : Prop :=
  ∀ chooseBlockToVote : Plugin D → Plugin D,
    checkForWinnerBlockWith net chooseBlockToVote 0 p = chooseBlockToVote p

/-- How the votes of the first round may fall in the end: the nodes that vote are at most as
many as are counted, each votes at most once, and the votes this node has counted are among
theirs. -/
structure Outcome (p : Plugin D) (E : Election ℤ Bytes) : Prop where
  size : E.size = p.numAuthorizedNodes
  few : E.voters.card ≤ E.size
  once : ∀ nodeId id id', E.cast 0 nodeId id → E.cast 0 nodeId id' → id = id'
  counted : ∀ block ∈ p.nextBlocks, ∀ vote ∈ block.tempVotes 0,
    vote.nodeId ∈ E.voters ∧ E.cast 0 vote.nodeId block.id

/-- No block, whether it has arrived or not, can reach the majority in the first round. -/
def NoneCanWin (p : Plugin D) : Prop :=
  ∀ E : Election ℤ Bytes, Outcome p E → ∀ id, ¬ E.Carries 0 id

/-- A node, while it does not create a block that is on its list. -/
def creating (net : Net D) : System (Plugin D) Event :=
  (node net).restrict fun p e => ¬ repeatedBlock net p e

/-! ## The votes on the blocks of the list -/

/-- The blocks are told apart by their keys, and their votes by their nodes. -/
structure Sorted (v : View) : Prop where
  tally : Tally (fun _ => True) v
  distinct : (v.ballots.map fun b => (b.height, b.id)).Nodup

theorem sorted_of_fresh {p : Plugin D} (h : p.Fresh) : Sorted p.view := by
  have hballots : p.view.ballots = 0 := by
    rw [Plugin.view, Plugin.viewOf, h.newBlocks]
    rfl
  have hnone : ∀ b, b ∉ p.view.ballots := fun b hb => by simp [hballots] at hb
  refine ⟨⟨fun b hb => absurd hb (hnone b), fun b hb => absurd hb (hnone b),
    fun b hb => absurd hb (hnone b), fun _ _ => trivial⟩, ?_⟩
  rw [hballots, Multiset.map_zero]
  exact Multiset.nodup_zero

/-- **The votes are sorted.** -/
theorem invariant_sorted (net : Net D) : (creating net).Invariant fun p => Sorted p.view where
  init _ h := sorted_of_fresh h
  step p e q h hs := by
    obtain ⟨hrepeated, hs⟩ := hs
    refine (step_handled net hs).invariant h (fun v w hv hm => ?_) fun v w hv hc =>
      ⟨hv.tally.commits hc, hc.distinct hv.distinct⟩
    exact ⟨hv.tally.micro hm (fun _ => id) (fun _ _ => trivial) fun _ _ _ _ _ _ _ _ => trivial,
      hm.distinct hrepeated hv.distinct⟩

/-! ## The decision -/

/-- The tests of `check_for_winner_block` before it starts the second round. -/
theorem startsSecondRound_iff {net : Net D} {p : Plugin D} : StartsSecondRound net p ↔
    ¬(p.newBlocks = [] ∨ p.isUpdatingState = true) ∧
      (p.nextBlocks.find? fun block =>
        decide (majority p.numAuthorizedNodes ≤ block.numVotes 0)) = none ∧
      ¬(p.lastVoteHeight = p.currentHeight + 1 ∧ p.lastVoteRound = 1) ∧
      p.undecidable = true ∧ p.blockWaitTimer = false := by
  constructor
  · intro h
    have hid := h id
    have hother := h fun p => { p with blockInterval := p.blockInterval + 1 }
    -- what is done does not depend on `choose_block_to_vote` where it is not called
    have hdiffer : ∀ q : Plugin D, q = p → q ≠ { p with blockInterval := p.blockInterval + 1 } := by
      rintro q rfl heq
      have := congrArg Plugin.blockInterval heq
      dsimp only at this
      omega
    unfold checkForWinnerBlockWith at hid hother
    by_cases hnone : p.newBlocks = [] ∨ p.isUpdatingState = true
    · rw [if_pos hnone] at hid hother
      exact absurd hother (hdiffer _ hid)
    rw [if_neg hnone] at hid hother
    split at hid
    · rename_i block hfind
      rw [hfind] at hother
      exact absurd hother (hdiffer _ hid)
    · rename_i hfind
      rw [hfind] at hother
      dsimp only at hother
      rw [if_neg (by decide)] at hid hother
      split_ifs at hid hother with hvoted hopen htimer
      · exact absurd hother (hdiffer _ rfl)
      · exact absurd hother (hdiffer _ rfl)
      · exact absurd hother (hdiffer _ rfl)
      · exact ⟨hnone, hfind, hvoted, by simpa using hopen, by simpa using htimer⟩
  · rintro ⟨hnone, hfind, hvoted, hopen, htimer⟩ choose
    unfold checkForWinnerBlockWith
    rw [if_neg hnone, hfind]
    dsimp only
    rw [if_neg (by decide), if_neg hvoted, hopen, htimer]
    rfl

/-- The first round of an election. -/
def firstRound (E : Election ℤ Bytes) : Election ℤ Bytes :=
  { E with cast := fun round nodeId id => round = 0 ∧ E.cast 0 nodeId id }

theorem Outcome.sound {p : Plugin D} {E : Election ℤ Bytes} (h : Outcome p E) :
    (firstRound E).Sound where
  card_le := h.few
  single := fun ⟨_, hv⟩ ⟨_, hv'⟩ => h.once _ _ _ hv hv'
  second := fun ⟨hround, _⟩ => absurd hround (by decide)

/-- **A block to compare with.**  If a block of the next height is known, no block can win
where none of the known ones can. -/
theorem noneCanWin_of_undecidable {p : Plugin D} (hsorted : Sorted p.view)
    (hundecidable : p.undecidable = true) (hnext : p.nextBlocks ≠ []) : NoneCanWin p := by
  intro E hE id hcarries
  have hundecidable := view_undecidable p |>.2 hundecidable
  have hmem : ∀ b ∈ p.view.next, b ∈ p.view.ballots ∧ b.height = p.view.current + 1 :=
    fun b hb => Multiset.mem_filter.1 hb
  have hkeys : (p.view.next.map fun b => (b.height, b.id)).Nodup :=
    Multiset.nodup_of_le (Multiset.map_le_map (Multiset.filter_le _ _)) hsorted.distinct
  have hnodup : p.view.next.Nodup := hkeys.of_map
  have hcounted : ∀ b ∈ p.view.next, ∀ nodeId ∈ b.voters 0,
      nodeId ∈ E.voters ∧ E.cast 0 nodeId b.id := by
    intro b hb nodeId hnode
    rw [view_next] at hb
    obtain ⟨block, hblock, rfl⟩ := List.mem_map.1 (Multiset.mem_coe.1 hb)
    obtain ⟨vote, hvote, rfl⟩ := List.mem_map.1 (List.mem_toFinset.1 hnode)
    exact hE.counted block hblock vote hvote
  have hcard : ∀ b ∈ p.view.next, (b.voters 0).card = b.count 0 := by
    intro b hb
    obtain ⟨hb, -⟩ := hmem b hb
    rw [Ballot.voters, List.toFinset_card_of_nodup (hsorted.tally.nodup b hb 0), List.length_map,
      hsorted.tally.count b hb 0]
  obtain ⟨block, blocks, hblocks⟩ := List.exists_cons_of_ne_nil hnext
  have hfirst : block.ballot ∈ p.view.next := by
    rw [view_next, hblocks]
    exact List.mem_cons_self
  have hblocked : (firstRound E).Blocked id := by
    refine @Election.Sound.blocked_of_counted _ _ _ _ hE.sound _ _ ⟨p.view.next, hnodup⟩ Ballot.id
      (fun b => b.voters 0) block.ballot hfirst ?_ ?_ ?_ ?_ id
    · intro b hb b' hb' heq
      refine Multiset.inj_on_of_nodup_map hkeys b hb b' hb' (Prod.ext ?_ heq)
      exact (hmem b hb).2.trans (hmem b' hb').2.symm
    · exact fun b hb nodeId hnode => (hcounted b hb nodeId hnode).1
    · exact fun b hb nodeId hnode => ⟨rfl, (hcounted b hb nodeId hnode).2⟩
    · intro b hb
      have hsum : ∑ l ∈ (⟨p.view.next, hnodup⟩ : Finset Ballot), (l.voters 0).card =
          (p.view.next.map fun b => b.count 0).sum :=
        congrArg Multiset.sum (Multiset.map_congr rfl hcard)
      have hopen := hundecidable b hb
      rw [hsum, hcard b hb, show (firstRound E).size = p.view.electorate from hE.size]
      have hmajority : majority p.view.electorate =
        TwoRoundVoting.majority p.view.electorate := rfl
      omega
  refine hE.sound.not_carries_of_blocked hblocked ?_
  obtain ⟨Q, hQ, hmajority, hcast⟩ := hcarries
  exact ⟨Q, hQ, hmajority, fun nodeId hnode => ⟨rfl, hcast nodeId hnode⟩⟩

/-- **No block to compare with.**  All votes are left, and may fall on one block that has not
arrived. -/
theorem not_noneCanWin_of_unknown {p : Plugin D} (hempty : p.nextBlocks = [])
    (hcount : p.numAuthorizedNodes ≠ 0) : ¬ NoneCanWin p := by
  intro hnone
  let voters : Finset ℤ := (Finset.range p.numAuthorizedNodes).image Nat.cast
  have hcard : voters.card = p.numAuthorizedNodes := by
    rw [Finset.card_image_of_injective _ Nat.cast_injective, Finset.card_range]
  refine hnone ⟨voters, p.numAuthorizedNodes, fun _ _ id => id = []⟩
    ⟨rfl, hcard.le, fun _ _ _ h h' => h.trans h'.symm, fun block hblock => ?_⟩ []
    ⟨voters, subset_rfl, ?_, fun _ _ => rfl⟩
  · rw [hempty] at hblock
    exact absurd hblock List.not_mem_nil
  · rw [hcard]
    unfold TwoRoundVoting.majority
    dsimp only
    omega

/-- **When the second round is started soundly.**  Where `check_for_winner_block` decides to
start it, no block of the next height can win the first round any more if and only if a block
of that height is known, or no node is counted. -/
theorem startsSecondRound_sound_iff {net : Net D} {p : Plugin D}
    (h : (creating net).Reachable p) (hstart : StartsSecondRound net p) :
    NoneCanWin p ↔ p.nextBlocks ≠ [] ∨ p.numAuthorizedNodes = 0 := by
  constructor
  · intro hnone
    by_contra hnot
    rw [not_or, not_not] at hnot
    exact not_noneCanWin_of_unknown hnot.1 hnot.2 hnone
  · rintro (hnext | hzero)
    · obtain ⟨-, -, -, hundecidable, -⟩ := startsSecondRound_iff.1 hstart
      exact noneCanWin_of_undecidable ((invariant_sorted net).reachable h) hundecidable hnext
    · rintro E hE id ⟨Q, hQ, hmajority, -⟩
      have hle := (Finset.card_le_card hQ).trans hE.few
      rw [hE.size, hzero] at hle
      unfold TwoRoundVoting.majority at hmajority
      omega

/-- A node that cannot vote sees each of the three others vote for its own block. -/
def splitVotes : List Event :=
  [blockOf 1 [], blockOf 2 [], blockOf 3 [], voteBy 1 0 1, voteBy 2 0 2, voteBy 3 0 3]

/-- The tests of the second round, and whether a block of the next height is known. -/
def secondRoundTests (p : Plugin D) : List Bool × ℕ :=
  ([decide (p.newBlocks = [] ∨ p.isUpdatingState = true),
    (p.nextBlocks.find? fun block =>
      decide (majority p.numAuthorizedNodes ≤ block.numVotes 0)).isNone,
    decide (p.lastVoteHeight = p.currentHeight + 1 ∧ p.lastVoteRound = 1), p.undecidable,
    p.blockWaitTimer, p.nextBlocks.isEmpty], p.numAuthorizedNodes)

theorem startsSecondRound_of_tests {net : Net D} {p : Plugin D} {empty : Bool} {n : ℕ}
    (h : secondRoundTests p = ([false, true, false, true, false, empty], n)) :
    StartsSecondRound net p ∧ p.nextBlocks.isEmpty = empty ∧ p.numAuthorizedNodes = n := by
  simp only [secondRoundTests, Prod.mk.injEq, List.cons.injEq, decide_eq_false_iff_not,
    and_true] at h
  obtain ⟨⟨hnone, hfind, hvoted, hopen, htimer, hempty⟩, hcount⟩ := h
  exact ⟨startsSecondRound_iff.2
    ⟨hnone, Option.isNone_iff_eq_none.1 hfind, hvoted, hopen, htimer⟩, hempty, hcount⟩

/-- The hypotheses hold there, and no block can win the first round. -/
theorem startsSecondRound_sound_split : ∃ p, System.run (System.checked
      (fun p e => decide (¬ repeatedBlock plainNet p e)) (step plainNet))
      (startNodeWith 4 threeNodes) splitVotes = some p ∧ NoneCanWin p := by
  have hrun : (System.run (System.checked (fun p e => decide (¬ repeatedBlock plainNet p e))
      (step plainNet)) (startNodeWith 4 threeNodes) splitVotes).map secondRoundTests =
        some ([false, true, false, true, false, false], 3) := by decide +kernel
  obtain ⟨p, hp, htests⟩ := Option.map_eq_some_iff.1 hrun
  obtain ⟨hstart, hnext, -⟩ := @startsSecondRound_of_tests _ plainNet _ _ _ htests
  refine ⟨p, hp, (startsSecondRound_sound_iff (System.reachable_restrict_of_run
    of_decide_eq_true (startNodeWith_fresh 4 threeNodes) hp) hstart).2 (.inl ?_)⟩
  intro hempty
  rw [hempty] at hnext
  exact absurd hnext (by decide)

/-- A block of node 1 at height 3, and its vote for it. -/
def laterBlock : List Event :=
  [.newBlock ⟨3, [], [], [], 1, [], plainSign (keyOf 1) []⟩ ⟨[], []⟩ (List.replicate 81 0),
    .blockVote ⟨3, 1, 0, idOf 1, plainSign (keyOf 1) (idOf 1)⟩]

/-- **The second round is started while a block can win the first.**  Node 2 is at height 1
and knows only a block of height 3. -/
theorem startsSecondRound_unsound : ∃ p, (creating plainNet).Reachable p ∧
    StartsSecondRound plainNet p ∧ ¬ NoneCanWin p := by
  have hrun : (System.run (System.checked (fun p e => decide (¬ repeatedBlock plainNet p e))
      (step plainNet)) (startNode 2) laterBlock).map secondRoundTests =
        some ([false, true, false, true, false, true], 3) := by decide +kernel
  obtain ⟨p, hp, htests⟩ := Option.map_eq_some_iff.1 hrun
  obtain ⟨hstart, hempty, hcount⟩ := @startsSecondRound_of_tests _ plainNet _ _ _ htests
  refine ⟨p, System.reachable_restrict_of_run of_decide_eq_true
    (startNodeWith_fresh 2 threeNodes) hp, hstart,
    not_noneCanWin_of_unknown (List.isEmpty_iff.1 hempty) ?_⟩
  rw [hcount]
  decide

end NoLeader
end AergoLite
