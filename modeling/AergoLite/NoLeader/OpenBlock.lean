/-
# The open block

The plugin keeps a pointer to the block that is open in the core (`open_block`), and
the core rolls its block back on its own where one of its calls fails.  The two stay in
step (`InStep`) as long as the core does not fail to commit the open block: there
`commit_block` returns with the pointer left as it is, while the core has rolled the
block back (`openBlock_not_inStep`).  In every run without such a failure the open block
is on the list, and is the one the core has verified (`openBlock_inStep`).
-/

import AergoLite.Core.Calls
import AergoLite.NoLeader.Chain

namespace AergoLite
namespace NoLeader

open AergoLite.Core
open Transition

variable {D : Type} {net : Net D}

/-! ## What the calls do to the block of the core -/

theorem aergoliteExecuteTransaction_activeBlock (env : Env D) (a : Aergolite D)
    (nodeId nonce : ℤ) (log : Log) :
    (aergoliteExecuteTransaction env a nodeId nonce log).2.activeBlock = a.activeBlock := by
  have houtcome := executeTransaction_outcome env a nodeId nonce log
  generalize aergoliteExecuteTransaction env a nodeId nonce log = r at houtcome ⊢
  cases houtcome <;> rfl

theorem verifyTransactions_activeBlock (mempool : List Transaction) (tids : List (BitVec 64))
    (core : Aergolite D) :
    (verifyTransactions net mempool tids core).2.activeBlock = core.activeBlock := by
  induction tids generalizing core with
  | nil => rfl
  | cons tid tids ih =>
      unfold verifyTransactions
      split
      · rfl
      · rename_i txn _
        have hone := aergoliteExecuteTransaction_activeBlock net.toEnv core txn.nodeId txn.nonce
          txn.log
        dsimp only
        split_ifs
        · exact hone
        · exact hone
        · exact hone
        · exact (ih _).trans hone

theorem includeNext_activeBlock (nonces : List (ℤ × ℤ)) (txns : List Transaction)
    (core : Aergolite D) :
    (includeNext net nonces txns core).2.activeBlock = core.activeBlock := by
  induction txns generalizing core with
  | nil => rfl
  | cons txn txns ih =>
      have hone := aergoliteExecuteTransaction_activeBlock net.toEnv core txn.nodeId txn.nonce
        txn.log
      unfold includeNext
      dsimp only
      split_ifs
      · exact (ih _).trans hone
      · exact hone
      · exact ih _

theorem includeTransactions_activeBlock (fuel : ℕ) (nonces : List (ℤ × ℤ))
    (mempool : List Transaction) (count : ℕ) (core : Aergolite D) :
    (includeTransactions net fuel nonces mempool count core).2.activeBlock = core.activeBlock := by
  induction fuel generalizing nonces mempool count core with
  | zero => rfl
  | succ fuel ih =>
      have hone := @includeNext_activeBlock D net nonces mempool core
      unfold includeTransactions
      split
      · rename_i heq
        rw [heq] at hone
        exact hone
      · rename_i heq
        rw [heq] at hone
        exact (ih _ _ _ _).trans hone

/-- A block that is opened is not verified. -/
theorem aergoliteBeginBlock_verified (a : Aergolite D) (h : a.activeBlock.verified = none) :
    (aergoliteBeginBlock a).2.activeBlock.verified = none := by
  have houtcome := beginBlock_outcome a
  generalize aergoliteBeginBlock a = r at houtcome ⊢
  cases houtcome with
  | busy _ => exact h
  | failed _ _ _ rolledBack => exact congrArg ActiveBlock.verified rolledBack.closed.2.2
  | opened _ _ => rfl

theorem markOutdated_newBlocks (rc : Rc) (p : Plugin D) :
    (markOutdated rc p).newBlocks = p.newBlocks := by
  unfold markOutdated
  split_ifs <;> rfl

/-- What `verify_block` may open. -/
structure Opens (p : Plugin D) (block : Block) (q : Plugin D) : Prop where
  refused : q.refused = p.refused
  newBlocks : q.newBlocks = p.newBlocks
  opened : (q.openBlock = p.openBlock ∧ q.core.activeBlock.verified = none) ∨
    (q.openBlock = some block.key ∧ q.core.activeBlock.id = block.header.id ∧
      q.core.activeBlock.verified = some (block.header, block.body))

theorem opens_markOutdated (p : Plugin D) (block : Block) (rc : Rc) {core : Aergolite D}
    (h : core.activeBlock.verified = none) : Opens p block (markOutdated rc { p with core }) := by
  have hidle := idle_markOutdated rc { p with core }
  refine ⟨hidle.refused, markOutdated_newBlocks rc _, .inl ⟨hidle.openBlock, ?_⟩⟩
  rw [hidle.core]
  exact h

/-- **What `verify_block` opens.** -/
theorem verifyBlock_opens {p : Plugin D} (block : Block)
    (h : p.core.activeBlock.verified = none) : Opens p block (verifyBlock net p block).2 := by
  have hbegin := aergoliteBeginBlock_verified p.core h
  unfold verifyBlock
  dsimp only
  generalize aergoliteBeginBlock p.core = begun at hbegin ⊢
  have hexecute := @verifyTransactions_activeBlock D net p.mempool block.body.txnIds begun.2
  generalize verifyTransactions net p.mempool block.body.txnIds begun.2 = executed at hexecute ⊢
  have hroll : (aergoliteRollbackBlock executed.2).activeBlock.verified = none := rfl
  split_ifs with hbusy hdiffers hinvalid
  · exact opens_markOutdated p block _ hbegin
  · exact opens_markOutdated p block _ hroll
  · exact opens_markOutdated p block _ rfl
  · have houtcome := verifyBlock_outcome net.toEnv executed.2 block.header block.body
    generalize aergoliteVerifyBlock net.toEnv executed.2 block.header block.body = verified
      at houtcome hinvalid ⊢
    cases houtcome with
    | kept fails => exact absurd fails hinvalid
    | failed fails _ _ => exact absurd fails hinvalid
    | verified _ _ _ _ => exact ⟨rfl, rfl, .inr ⟨rfl, rfl, rfl⟩⟩

/-- **What `create_new_block` opens.** -/
theorem createNewBlock_opens {timestamp : ℤ} {p q : Plugin D} {block : Option Block}
    (created : createNewBlock net timestamp p = (block, q))
    (h : p.core.activeBlock.verified = none) :
    q.refused = p.refused ∧ (block = none → q.core.activeBlock.verified = none) ∧
      ∀ b ∈ block, q.core.activeBlock.id = b.header.id ∧
        q.core.activeBlock.verified = some (b.header, b.body) := by
  have hbegin := aergoliteBeginBlock_verified p.core h
  unfold createNewBlock at created
  dsimp only at created
  generalize aergoliteBeginBlock p.core = begun at hbegin created
  have hinclude := @includeTransactions_activeBlock D net p.mempool.length
    (buildLastNonceArray p) p.mempool 0 begun.2
  generalize includeTransactions net p.mempool.length (buildLastNonceArray p) p.mempool 0 begun.2 =
    included at hinclude created
  have hverified : included.2.activeBlock.verified = none := hinclude ▸ hbegin
  split_ifs at created
  · obtain ⟨rfl, rfl⟩ := Prod.mk.inj created
    exact ⟨rfl, fun _ => hbegin, by simp⟩
  · obtain ⟨rfl, rfl⟩ := Prod.mk.inj created
    exact ⟨rfl, fun _ => rfl, by simp⟩
  · have houtcome := createBlock_outcome net.toEnv timestamp included.2
    generalize aergoliteCreateBlock net.toEnv timestamp included.2 = made at houtcome created
    cases houtcome with
    | misuse _ =>
        obtain ⟨rfl, rfl⟩ := Prod.mk.inj created
        exact ⟨rfl, fun _ => hverified, by simp⟩
    | failed _ rolledBack =>
        obtain ⟨rfl, rfl⟩ := Prod.mk.inj created
        exact ⟨rfl, fun _ => congrArg ActiveBlock.verified rolledBack.closed.2.2, by simp⟩
    | created _ _ _ =>
        obtain ⟨rfl, rfl⟩ := Prod.mk.inj created
        refine ⟨rfl, by simp, fun b hb => ?_⟩
        obtain rfl := Option.some.inj hb
        exact ⟨rfl, rfl⟩

/-- **What `commit_block` leaves open.** -/
theorem commitBlock_opens (p : Plugin D) (block : Block) :
    let r := commitBlock net p block
    (r.1 = .ok → p.core.activeBlock.verified = some (block.header, block.body) ∧
      r.2.refused = p.refused ∧ r.2.openBlock = none ∧ r.2.core.activeBlock.verified = none) ∧
    (r.1 ≠ .ok → r.2.refused = p.refused ++ p.openBlock.toList ∧
      r.2.openBlock = p.openBlock ∧ (r.2.core.activeBlock.verified = none ∨
        r.2.core.activeBlock = p.core.activeBlock)) := by
  have houtcome := commitBlock_outcome net.toEnv p.core block.header block.body block.votes
  unfold commitBlock
  dsimp only
  generalize aergoliteCommitBlock net.toEnv p.core block.header block.body block.votes = r
    at houtcome ⊢
  have hfail : ∀ {b : Aergolite D}, (b.activeBlock.verified = none ∨
      b.activeBlock = p.core.activeBlock) →
      let q := markOutdated r.1 { p with core := b, refused := p.refused ++ p.openBlock.toList }
      q.refused = p.refused ++ p.openBlock.toList ∧ q.openBlock = p.openBlock ∧
        (q.core.activeBlock.verified = none ∨ q.core.activeBlock = p.core.activeBlock) := by
    intro b hb
    have hidle := idle_markOutdated r.1 { p with
      core := b
      refused := p.refused ++ p.openBlock.toList }
    dsimp only
    rw [hidle.refused, hidle.openBlock, hidle.core]
    exact ⟨rfl, rfl, hb⟩
  split_ifs with hrc
  · refine ⟨fun h => absurd h hrc, fun _ => hfail ?_⟩
    cases houtcome with
    | misuse => exact .inr rfl
    | failed _ _ rolledBack => exact .inl (congrArg ActiveBlock.verified rolledBack.closed.2.2)
    | half _ _ _ rolledBack => exact .inl (congrArg ActiveBlock.verified rolledBack.closed.2.2)
    | committed _ _ _ _ => exact absurd rfl hrc
  · cases houtcome with
    | misuse => exact absurd (fun h => Rc.noConfusion h) hrc
    | failed fails _ _ => exact absurd fails hrc
    | half fails _ _ _ => exact absurd fails hrc
    | @committed b _ _ verified stored =>
        have hidle := idle_startNewBlockTimer net (replaceCurrentBlock b block p)
        refine ⟨fun _ => ⟨verified, hidle.refused, hidle.openBlock, ?_⟩, fun h => absurd rfl h⟩
        rw [hidle.core]
        exact congrArg ActiveBlock.verified stored.closed.2.2

/-! ## The invariant -/

/-- What holds between the calls.  While no commit of the open block has failed, the open
block is on the list and is the one that was verified. -/
structure Held (p : Plugin D) : Prop where
  id : ∀ header body, p.core.activeBlock.verified = some (header, body) →
    p.core.activeBlock.id = header.id
  closed : p.openBlock = none → p.core.activeBlock.verified = none
  opened : p.refused = [] → ∀ key, p.openBlock = some key →
    ∃ block ∈ p.newBlocks, block.key = key ∧
      p.core.activeBlock.verified = some (block.header, block.body)

theorem held_of_fresh {p : Plugin D} (h : p.Fresh) : Held p where
  id header body hverified := by simp [h.closed.2.2] at hverified
  closed _ := h.closed.2.2
  opened _ key hopen := by simp [h.openBlock] at hopen

/-- A block that is open, of the list, and the one the core has verified. -/
theorem held_of_opened {q : Plugin D} {block : Block} (hopen : q.openBlock = some block.key)
    (hid : q.core.activeBlock.id = block.header.id)
    (hverified : q.core.activeBlock.verified = some (block.header, block.body))
    (hlisted : ∃ b ∈ q.newBlocks, b.key = block.key ∧ b.header = block.header ∧
      b.body = block.body) : Held q where
  id header body h := by
    obtain ⟨rfl, rfl⟩ := Prod.mk.inj (Option.some.inj (hverified.symm.trans h))
    exact hid
  closed h := by simp [hopen] at h
  opened _ key hkey := by
    obtain ⟨b, hb, hbkey, hheader, hbody⟩ := hlisted
    refine ⟨b, hb, hbkey.trans (Option.some.inj (hopen.symm.trans hkey)), ?_⟩
    rw [hheader, hbody]
    exact hverified

/-- Nothing is verified, and if a block is open its commit has failed. -/
theorem held_of_closed {q : Plugin D} (hverified : q.core.activeBlock.verified = none)
    (hopen : q.refused = [] → q.openBlock = none) : Held q where
  id header body h := by simp [hverified] at h
  closed _ := hverified
  opened hrefused key hkey := by simp [hopen hrefused] at hkey

theorem held_step {p q : Plugin D} {call : Call} (h : Held p) (hs : ChainStep net p call q) :
    Held q := by
  cases hs with
  | idle hidle =>
      refine ⟨hidle.core ▸ h.id, fun hopen => ?_, fun hrefused key hopen => ?_⟩
      · rw [hidle.core]
        exact h.closed (hidle.openBlock.symm.trans hopen)
      · rw [hidle.core]
        obtain ⟨block, hblock, rfl, hverified⟩ :=
          h.opened (hidle.refused.symm.trans hrefused) key (hidle.openBlock.symm.trans hopen)
        obtain ⟨b, hb, hkey, hheader, hbody⟩ :=
          hidle.listed block (hidle.openBlock.symm.trans hopen) ⟨block, hblock, rfl, rfl, rfl⟩
        exact ⟨b, hb, hkey, by rw [hheader, hbody]; exact hverified⟩
  | arrive _ => exact ⟨h.id, h.closed, h.opened⟩
  | @verify block closed listed _ =>
      obtain ⟨-, hblocks, hopened⟩ := @verifyBlock_opens D net p block (h.closed closed)
      rcases hopened with ⟨hopen, hverified⟩ | ⟨hopen, hid, hverified⟩
      · exact held_of_closed hverified fun _ => hopen.trans closed
      · exact held_of_opened hopen hid hverified (hblocks.symm ▸ listed)
  | @commit block =>
      obtain ⟨hok, hfails⟩ := @commitBlock_opens D net p block
      by_cases hrc : (commitBlock net p block).1 = .ok
      · obtain ⟨-, -, hopen, hverified⟩ := hok hrc
        exact held_of_closed hverified fun _ => hopen
      · obtain ⟨hrefused, hopen, hcore⟩ := hfails hrc
        have hnone : (commitBlock net p block).2.refused = [] → p.openBlock = none := by
          intro h'
          have hlist := (List.append_eq_nil_iff.1 (hrefused.symm.trans h')).2
          simpa using hlist
        rcases hcore with hverified | hsame
        · exact held_of_closed hverified fun h' => hopen.trans (hnone h')
        · refine ⟨hsame ▸ h.id, fun hclosed => ?_, fun h' key hkey => ?_⟩
          · rw [hsame]
            exact h.closed (hopen.symm.trans hclosed)
          · simp [hopen, hnone h'] at hkey
  | rollback _ => exact held_of_closed rfl fun _ => rfl
  | @create q _ block closed created =>
      obtain ⟨-, -, hopened⟩ := createNewBlock_opens created (h.closed closed)
      obtain ⟨hid, hverified⟩ := hopened block rfl
      exact held_of_opened rfl hid hverified
        ⟨block, List.mem_append_right _ List.mem_cons_self, rfl, rfl, rfl⟩
  | createFailed closed created =>
      obtain ⟨-, hverified, -⟩ := createNewBlock_opens created (h.closed closed)
      exact held_of_closed (hverified rfl) fun _ =>
        ((createNewBlock_none created).2).trans closed
  | authorize _ => exact ⟨h.id, h.closed, h.opened⟩

/-- **What holds between the calls.** -/
theorem invariant_held (net : Net D) : (chain net).Invariant Held where
  init _ h := held_of_fresh h
  step _ _ _ h hs := held_step h hs

/-! ## The plugin and the core -/

/-- **The open block of the plugin and the active block of the core are in step.** -/
structure InStep (p : Plugin D) : Prop where
  opened_iff : p.openBlock.isSome = true ↔ p.core.activeBlock.verified.isSome = true
  listed : ∀ key, p.openBlock = some key → ∃ block ∈ p.newBlocks, block.key = key ∧
    block.id = p.core.activeBlock.id ∧
    p.core.activeBlock.verified = some (block.header, block.body)

/-- No commit of the open block fails when the node handles the event. -/
def CommitsOpenBlock (net : Net D) (p : Plugin D) (e : Event) : Prop :=
  ∀ q, step net p e = some q → q.refused = p.refused

theorem inStep_of_held {p : Plugin D} (h : Held p) (hkeyed : HeaderKeyed p.newBlocks)
    (hrefused : p.refused = []) : InStep p := by
  refine ⟨⟨fun hopen => ?_, fun hverified => ?_⟩, fun key hopen => ?_⟩
  · obtain ⟨key, hkey⟩ := Option.isSome_iff_exists.1 hopen
    obtain ⟨block, -, -, hverified⟩ := h.opened hrefused key hkey
    rw [hverified]
    rfl
  · by_contra hopen
    rw [h.closed (by simpa using hopen)] at hverified
    exact absurd hverified (by decide)
  · obtain ⟨block, hblock, hkey, hverified⟩ := h.opened hrefused key hopen
    refine ⟨block, hblock, hkey, ?_, hverified⟩
    rw [h.id _ _ hverified]
    exact congrArg Prod.snd (hkeyed block hblock)

/-- A run without a failed commit of the open block. -/
theorem refused_of_commits {p : Plugin D}
    (h : ((node net).restrict (CommitsOpenBlock net)).Reachable p) : p.refused = [] := by
  induction h with
  | init h => exact h.refused
  | step e _ hs ih => exact (hs.1 _ hs.2).trans ih

/-- **The open block is the active block of the core**, in every run in which the core does
not fail to commit the open block.  It is so in the states `q` a handler goes through as
well, and the only block that can be committed there is the open one. -/
theorem openBlock_inStep {p q : Plugin D}
    (h : ((node net).restrict (CommitsOpenBlock net)).Reachable p) (hcalls : Chained net p q)
    (hq : q.refused = p.refused) :
    InStep q ∧ ∀ block ∈ q.newBlocks, (commitBlock net q block).1 = .ok →
      q.openBlock = some block.key ∧ q.core.activeBlock.id = block.id := by
  obtain ⟨hchain, hkeyed⟩ := reachable_chain (System.Reachable.of_restrict h)
  have hheld := (invariant_held net).reachable (Chained.reachable hcalls hchain)
  have hkeyed' : HeaderKeyed q.newBlocks := Chained.headerKeyed hcalls hkeyed
  have hstep := inStep_of_held hheld hkeyed' (hq.trans (refused_of_commits h))
  refine ⟨hstep, fun block hblock hcommit => ?_⟩
  obtain ⟨hverified, -⟩ := (@commitBlock_opens D net q block).1 hcommit
  obtain ⟨key, hkey⟩ := Option.isSome_iff_exists.1
    (hstep.opened_iff.2 (by rw [hverified]; rfl))
  obtain ⟨b, hb, rfl, hid, hverified'⟩ := hstep.listed key hkey
  obtain ⟨hheader, -⟩ := Prod.mk.inj (Option.some.inj (hverified'.symm.trans hverified))
  have hsame : b.key = block.key := by
    rw [hkeyed' b hb, hkeyed' block hblock, hheader]
  exact ⟨hkey.trans (congrArg some hsame), hid.symm.trans (congrArg Prod.snd hsame)⟩

/-- The test of `CommitsOpenBlock`. -/
def commitsOpenBlock (net : Net D) (p : Plugin D) (e : Event) : Bool :=
  (step net p e).all fun q => decide (q.refused = p.refused)

theorem commitsOpenBlock_of_test {p : Plugin D} {e : Event}
    (h : commitsOpenBlock net p e = true) : CommitsOpenBlock net p e := by
  intro q hq
  unfold commitsOpenBlock at h
  rw [hq, Option.all_some, decide_eq_true_iff] at h
  exact h

/-- A node whose commands succeed but for the one after a number of them. -/
def faultyNode (n k : ℕ) : Plugin Unit :=
  { startNode n with core := { (startNode n).core with
      db := { (startNode n).core.db with faults := List.replicate k .ok ++ [.error] } } }

/-- A node verifies a block of node 1 and votes for it; with the vote of node 1 it is
committed. -/
def verifyAndCommit : List Event :=
  [transactionOf 1, blockOf 1 [firstTid 1], .blockWaitTimeout, voteBy 1 0 1]

/-- The hypotheses hold of a run in which the node has voted and its block is open. -/
theorem openBlock_inStep_voted : ∃ p, System.run (System.checked (commitsOpenBlock plainNet)
      (step plainNet)) (startNode 2) (verifyAndCommit.take 3) = some p ∧
    p.openBlock = some (2, idOf 1) ∧ InStep p := by
  obtain ⟨p, hp⟩ := Option.isSome_iff_exists.1 (show (System.run (System.checked
    (commitsOpenBlock plainNet) (step plainNet)) (startNode 2)
    (verifyAndCommit.take 3)).isSome = true by decide +kernel)
  have hopen : (System.run (System.checked (commitsOpenBlock plainNet) (step plainNet))
    (startNode 2) (verifyAndCommit.take 3)).map Plugin.openBlock =
      some (some (2, idOf 1)) := by decide +kernel
  rw [hp] at hopen
  exact ⟨p, hp, Option.some.inj hopen, (openBlock_inStep (System.reachable_restrict_of_run
    commitsOpenBlock_of_test (startNodeWith_fresh 2 threeNodes) hp) .refl rfl).1⟩

/-- **The pointer stays when the commit fails.**  The first command of the commit fails, so
the core rolls the block back, and the plugin has it still open. -/
theorem openBlock_not_inStep : ∃ p, (node plainNet).Reachable p ∧ ¬ InStep p := by
  have hfresh : (faultyNode 2 8).Fresh :=
    ⟨Int.one_nonneg, rfl, ⟨rfl, rfl, rfl⟩, rfl, rfl, rfl, rfl, rfl, rfl, rfl, rfl, rfl, rfl⟩
  have hrun : (System.run (step plainNet) (faultyNode 2 8) verifyAndCommit).map (fun p =>
      (p.openBlock.isSome, p.core.activeBlock.verified.isSome)) = some (true, false) := by
    decide +kernel
  obtain ⟨p, hp, hopen⟩ := Option.map_eq_some_iff.1 hrun
  refine ⟨p, System.reachable_of_run hfresh hp, fun h => ?_⟩
  obtain ⟨hplugin, hcore⟩ := Prod.mk.inj hopen
  have hverified := h.opened_iff.1 hplugin
  rw [hcore] at hverified
  exact absurd hverified (by decide)

end NoLeader
end AergoLite
