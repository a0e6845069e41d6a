/-
# One vote for each height and round

A node votes twice at one height and round in one way only: a transaction it has
requested arrives when it has voted in the second round already, and
`process_arrived_transaction` lets it choose a block for the first
(`lateTransaction`).  Without that a node keeps `VotedOnce`: what it has sent lies
below its last vote, and the timer that lets it vote in the first round is not
started any more.
-/

import AergoLite.NoLeader.Refinement

namespace AergoLite
namespace NoLeader

open AergoLite.Core
open Transition

variable {D : Type}

/-- The votes of a node are in the order of heights and rounds, and the timer is active
only before the first vote at a height. -/
structure VotedOnce (v : View) : Prop where
  last : v.lastHeight ≤ v.current + 1
  timer : v.timer = true → v.lastHeight ≠ v.current + 1
  bound : ∀ x ∈ v.sent, x.height < v.lastHeight ∨ x.height = v.lastHeight ∧ x.round ≤ v.lastRound
  once : ∀ x ∈ v.sent, ∀ y ∈ v.sent, x.height = y.height → x.round = y.round → x.id = y.id

/-- A vote of a node that may vote is after those it has sent. -/
theorem VotedOnce.before_vote {allow : Allow} {v : View} (h : VotedOnce v) {round : Fin 2}
    (hmay : MayVote allow v round) (hlate : ¬ allow.late) :
    ∀ x ∈ v.sent, x.height < v.current + 1 ∨ x.height = v.current + 1 ∧ x.round < round := by
  intro x hx
  have hlast := h.last
  match round with
  | 0 =>
      have hheight : v.lastHeight ≠ v.current + 1 := fun heq => hlate (hmay heq).2
      rcases h.bound x hx with hx | ⟨hx, -⟩
      · exact .inl (by omega)
      · exact .inl (by omega)
  | 1 =>
      have hround : v.lastHeight = v.current + 1 → v.lastRound ≠ 1 := hmay.1
      rcases h.bound x hx with hx | ⟨hx, hle⟩
      · exact .inl (by omega)
      · by_cases heq : v.lastHeight = v.current + 1
        · have hne := hround heq
          exact .inr ⟨hx.trans heq, by omega⟩
        · exact .inl (by omega)

theorem VotedOnce.micro {sign : Bytes → Bytes → Option Bytes} {allow : Allow}
    (hlate : ¬ allow.late) {v w : View} (h : VotedOnce v) (hs : Micro sign allow v w) :
    VotedOnce w := by
  cases hs with
  | @vote b _ round _ _ hheight _ _ _ htimer hmay =>
      have hbefore := h.before_vote hmay hlate
      refine ⟨hheight.le, fun ht => ?_, fun x hx => ?_, fun x hx y hy hxy hround => ?_⟩
      · rw [htimer] at ht
        exact absurd ht Bool.false_ne_true
      · rcases List.mem_append.1 hx with hx | hx
        · rcases hbefore x hx with hx | ⟨hx, hlt⟩
          · exact .inl (hx.trans_eq hheight.symm)
          · exact .inr ⟨hx.trans hheight.symm, hlt.le⟩
        · obtain rfl := List.mem_singleton.1 hx
          exact .inr ⟨rfl, le_rfl⟩
      · rcases List.mem_append.1 hx with hx | hx <;> rcases List.mem_append.1 hy with hy | hy
        · exact h.once x hx y hy hxy hround
        · obtain rfl := List.mem_singleton.1 hy
          have hlt := hbefore x hx
          simp only at hxy hround
          omega
        · obtain rfl := List.mem_singleton.1 hx
          have hlt := hbefore y hy
          simp only at hxy hround
          omega
        · rw [List.mem_singleton.1 hx, List.mem_singleton.1 hy]
  | receive | store | add | count | authorize => exact ⟨h.last, h.timer, h.bound, h.once⟩
  | stopTimer => exact ⟨h.last, fun ht => absurd ht Bool.false_ne_true, h.bound, h.once⟩
  | startTimer hopen => exact ⟨h.last, fun _ => hopen, h.bound, h.once⟩

/-- A commit raises the height. -/
theorem VotedOnce.commits {v w : View} (h : VotedOnce v) (hs : Commits v w) : VotedOnce w := by
  cases hs with
  | @mk b _ _ _ _ _ hheight =>
      have hlast := h.last
      have hlt : v.lastHeight < b.height + 1 := by omega
      exact ⟨hlt.le, fun _ => hlt.ne, h.bound, h.once⟩

/-- A node that has voted once does not vote late, unless a transaction is late. -/
theorem VotedOnce.not_late {net : Net D} {p q : Plugin D} {e : Event} (h : VotedOnce p.view)
    (hs : step net p e = some q) (hlate : ¬ lateTransaction net p e) : ¬ (allow net p e).late := by
  rintro (htxn | ⟨rfl, hheight⟩)
  · exact hlate htxn
  · have htimer : p.blockWaitTimer = true := by
      by_contra hoff
      simp [step, hoff] at hs
    exact h.timer htimer hheight

/-- **One step.** -/
theorem VotedOnce.step {net : Net D} {p q : Plugin D} {e : Event} (h : VotedOnce p.view)
    (hs : step net p e = some q) (hlate : ¬ lateTransaction net p e) : VotedOnce q.view :=
  (step_handled net hs).invariant h (fun _ _ hv => hv.micro (h.not_late hs hlate))
    fun _ _ hv => hv.commits

theorem votedOnce_of_fresh {p : Plugin D} (h : p.Fresh) : VotedOnce p.view := by
  obtain ⟨hheight, hlast, htimer, hsent⟩ :
      0 ≤ p.currentHeight ∧ p.lastVoteHeight = 0 ∧ p.blockWaitTimer = false ∧ p.sent = [] :=
    ⟨h.height, h.lastVote, h.blockWaitTimer, h.sent⟩
  refine ⟨?_, fun ht => ?_, ?_, ?_⟩
  · exact hlast.trans_le (by simpa [Plugin.view, Plugin.viewOf] using by omega)
  · exact absurd (htimer.symm.trans ht) Bool.false_ne_true
  · simp [Plugin.view, Plugin.viewOf, hsent]
  · simp [Plugin.view, Plugin.viewOf, hsent]

/-- `VotedOnce` is kept while no transaction is late. -/
theorem votedOnce_invariant (net : Net D) :
    ((node net).restrict fun p e => ¬ lateTransaction net p e).Invariant
      fun p => VotedOnce p.view where
  init _ h := votedOnce_of_fresh h
  step _ _ _ h hs := h.step hs.2 hs.1

/-- **A node does not vote for two blocks at one height and round**, as long as no
transaction is late. -/
theorem sent_unique (net : Net D) {p : Plugin D}
    (h : ((node net).restrict fun p e => ¬ lateTransaction net p e).Reachable p) :
    ∀ x ∈ p.sent, ∀ y ∈ p.sent, x.height = y.height → x.round = y.round → x.id = y.id :=
  ((votedOnce_invariant net).reachable h).once

/-- No transaction is late that was not requested. -/
def unrequested (p : Plugin D) : Event → Bool
  | .transaction nodeId nonce _ => decide (buildTransactionId nodeId nonce ∉ p.requests)
  | _ => true

theorem not_lateTransaction_of_unrequested {net : Net D} {p : Plugin D} {e : Event}
    (h : unrequested p e = true) : ¬ lateTransaction net p e := by
  cases e with
  | transaction nodeId nonce log => exact fun hlate => of_decide_eq_true h hlate.2.1
  | _ => exact id

/-- A node that creates a block, and votes in both rounds. -/
def votesTwice : List Event :=
  [transactionOf 2, .newBlockTimeout 0, blockOf 1 [firstTid 1], .blockWaitTimeout,
    blockOf 3 [firstTid 2], voteBy 1 0 1, voteBy 3 0 3]

/-- The hypothesis holds of a node that votes in both rounds. -/
theorem sent_unique_votesTwice :
    ∃ p, System.run (System.checked unrequested (step plainNet)) (startNode 2) votesTwice =
        some p ∧ p.sent = [⟨2, 0, idOf 2⟩, ⟨2, 1, idOf 2⟩] ∧
      ∀ x ∈ p.sent, ∀ y ∈ p.sent, x.height = y.height → x.round = y.round → x.id = y.id := by
  obtain ⟨p, hp⟩ := Option.isSome_iff_exists.1 (show (System.run (System.checked unrequested
    (step plainNet)) (startNode 2) votesTwice).isSome = true by decide +kernel)
  have hsent : (System.run (System.checked unrequested (step plainNet)) (startNode 2)
    votesTwice).map Plugin.sent = some [⟨2, 0, idOf 2⟩, ⟨2, 1, idOf 2⟩] := by decide +kernel
  rw [hp] at hsent
  exact ⟨p, hp, Option.some.inj hsent, sent_unique plainNet
    (System.reachable_restrict_of_run not_lateTransaction_of_unrequested
      (startNodeWith_fresh 2 threeNodes) hp)⟩

/-- **A node votes for two blocks at one height and round.**  Once it has voted in both
rounds a transaction arrives, and it votes in the first round again, for the block it
can verify now. -/
theorem sent_not_unique :
    ∃ p, (node plainNet).Reachable p ∧ ∃ x ∈ p.sent, ∃ y ∈ p.sent,
      x.height = y.height ∧ x.round = y.round ∧ x.id ≠ y.id := by
  obtain ⟨p, hp⟩ := Option.isSome_iff_exists.1 (show (System.run (step plainNet) (startNode 2)
    (votesTwice ++ [transactionOf 1])).isSome = true by decide +kernel)
  have hsent : (System.run (step plainNet) (startNode 2) (votesTwice ++ [transactionOf 1])).map
    Plugin.sent = some [⟨2, 0, idOf 2⟩, ⟨2, 1, idOf 2⟩, ⟨2, 0, idOf 1⟩] := by decide +kernel
  rw [hp] at hsent
  refine ⟨p, System.reachable_of_run (startNodeWith_fresh 2 threeNodes) hp, ?_⟩
  rw [show p.sent = _ from Option.some.inj hsent]
  exact ⟨⟨2, 0, idOf 2⟩, by simp, ⟨2, 0, idOf 1⟩, by simp, rfl, rfl, by decide⟩

end NoLeader
end AergoLite
