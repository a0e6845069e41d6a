/-
# The handlers refine voting

Every event of a node is handled by small voting steps and at most one commit
(`step_handled`).  Most of what the handlers do is out of sight: opening, verifying
and rolling back blocks, the mempool, the requests, and the moving of blocks to the
list `excluded` and back.  `Still` says that a function leaves the view as it is.
-/

import AergoLite.NoLeader.Handlers
import AergoLite.NoLeader.Voting

namespace AergoLite
namespace NoLeader

open AergoLite.Core

variable {D : Type}

/-- The view of a node, with the blocks of a list in the place of its own. -/
def Plugin.viewOf (p : Plugin D) (blocks : List Block) : View where
  nodeId := p.nodeId
  pubkey := p.core.pubkey
  current := p.currentHeight
  roster := roster p.core.authorizations
  total := p.totalAuthorizedNodes
  active := p.activeAuthorizedNodes
  ballots := (blocks.map Block.ballot : List Ballot)
  stored := p.blockVotes
  lastHeight := p.lastVoteHeight
  lastRound := p.lastVoteRound
  timer := p.blockWaitTimer
  sent := p.sent
  committed := p.committed

/-- The view of a node. -/
def Plugin.view (p : Plugin D) : View := p.viewOf p.newBlocks

@[simp] theorem canVoteOnBlock_roster (auths : List NodeAuth) (nodeId height : ℤ) :
    Core.canVoteOnBlock (roster auths) nodeId height = Core.canVoteOnBlock auths nodeId height := by
  unfold Core.canVoteOnBlock aergoliteGetAuthorization roster
  rw [List.find?_map]
  split_ifs
  · rfl
  · simp only [Function.comp_def]
    cases auths.find? fun auth => auth.nodeId == nodeId <;> rfl
  · simp only [Function.comp_def]
    cases auths.find? fun auth => auth.nodeId == nodeId <;> rfl

@[simp] theorem aergoliteNumAuthorizedNodes_roster (auths : List NodeAuth) (onBlockchain : Bool) :
    aergoliteNumAuthorizedNodes (roster auths) onBlockchain =
      aergoliteNumAuthorizedNodes auths onBlockchain := by
  simp [aergoliteNumAuthorizedNodes, roster, List.countP_map, Function.comp_def]

/-! ## What is out of sight -/

/-- The views of two states differ in nothing. -/
structure Still (p q : Plugin D) : Prop where
  rest : ∀ blocks, q.viewOf blocks = p.viewOf blocks
  ballots : q.newBlocks.map Block.ballot = p.newBlocks.map Block.ballot

theorem Still.refl (p : Plugin D) : Still p p := ⟨fun _ => rfl, rfl⟩

theorem Still.trans {p q r : Plugin D} (h : Still p q) (h' : Still q r) : Still p r :=
  ⟨fun blocks => (h'.rest blocks).trans (h.rest blocks), h'.ballots.trans h.ballots⟩

/-- Blocks that are put aside stay in view. -/
theorem Still.viewOf_append {p q : Plugin D} (h : Still p q) (excluded : List Block) :
    q.viewOf (q.newBlocks ++ excluded) = p.viewOf (p.newBlocks ++ excluded) := by
  rw [h.rest]
  simp [Plugin.viewOf, h.ballots]

theorem Still.view {p q : Plugin D} (h : Still p q) : q.view = p.view := by
  have happend := h.viewOf_append []
  rwa [List.append_nil, List.append_nil] at happend

/-- The core may change all but the roster. -/
theorem still_core {p : Plugin D} {core : Aergolite D} (h : SameRoster p.core core) :
    Still p { p with core } := by
  refine ⟨fun blocks => ?_, rfl⟩
  simp only [Plugin.viewOf, Plugin.currentHeight]
  rw [h.pubkey, h.roster]

theorem map_updateBlock {β : Type*} {f : Block → β} {key : ℤ × Bytes} {set : Block → Block}
    (h : ∀ block, f (set block) = f block) (blocks : List Block) :
    (updateBlock key set blocks).map f = blocks.map f := by
  induction blocks with
  | nil => rfl
  | cons block blocks ih =>
      rw [updateBlock]
      split_ifs
      · rw [List.map_cons, List.map_cons, h]
      · rw [List.map_cons, List.map_cons, ih]

/-- A change of a block that its ballot does not show. -/
theorem still_updateBlock {key : ℤ × Bytes} {set : Block → Block}
    (h : ∀ block, (set block).ballot = block.ballot) (p : Plugin D) :
    Still p { p with newBlocks := updateBlock key set p.newBlocks } :=
  ⟨fun _ => rfl, map_updateBlock h p.newBlocks⟩

theorem still_rollbackOpenBlock (p : Plugin D) : Still p (rollbackOpenBlock p) := by
  unfold rollbackOpenBlock
  split_ifs
  · exact (still_core (sameRoster_rollbackBlock p.core)).trans ⟨fun _ => rfl, rfl⟩
  · exact .refl p

theorem still_requestTransaction (tid : BitVec 64) (p : Plugin D) :
    Still p (requestTransaction tid p) := by
  unfold requestTransaction
  split_ifs
  · exact .refl p
  · exact ⟨fun _ => rfl, rfl⟩

theorem still_checkBlockTransactions (p : Plugin D) (block : Block) :
    Still p (checkBlockTransactions p block).2 := by
  have hrequests : ∀ (tids : List (BitVec 64)) (q : Plugin D),
      Still q (tids.foldl (fun q tid => requestTransaction tid q) q) := by
    intro tids
    induction tids with
    | nil => exact fun q => .refl q
    | cons tid tids ih => exact fun q => (still_requestTransaction tid q).trans (ih _)
  have hmark : ∀ q : Plugin D, Still q { q with
      newBlocks := updateBlock block.key (fun block' => { block' with
        downloadingTxns := !(missingTransactions p.mempool block.body).isEmpty }) q.newBlocks } := by
    refine still_updateBlock ?_
    exact fun _ => rfl
  unfold checkBlockTransactions
  cases block.downloadingTxns with
  | true => exact hmark p
  | false => exact (hrequests _ p).trans (hmark _)

theorem still_markOutdated (rc : Rc) (p : Plugin D) : Still p (markOutdated rc p) := by
  unfold markOutdated
  split_ifs
  · exact ⟨fun _ => rfl, rfl⟩
  · exact .refl p

theorem sameRoster_verifyTransactions (net : Net D) (mempool : List Transaction)
    (tids : List (BitVec 64)) (core : Aergolite D) :
    SameRoster core (verifyTransactions net mempool tids core).2 := by
  induction tids generalizing core with
  | nil => exact .refl core
  | cons tid tids ih =>
      unfold verifyTransactions
      split
      · exact .refl core
      · rename_i txn _
        have h := sameRoster_executeTransaction net.toEnv core txn.nodeId txn.nonce txn.log
        dsimp only
        split_ifs
        · exact h
        · exact h
        · exact h
        · exact h.trans (ih _)

theorem still_verifyBlock (net : Net D) (p : Plugin D) (block : Block) :
    Still p (verifyBlock net p block).2 := by
  have hbegin := sameRoster_beginBlock p.core
  have htxns := hbegin.trans (sameRoster_verifyTransactions net p.mempool block.body.txnIds _)
  have hverify := htxns.trans (sameRoster_verifyBlock net.toEnv _ block.header block.body)
  unfold verifyBlock
  dsimp only
  split_ifs
  · exact (still_core hbegin).trans (still_markOutdated _ _)
  · exact (still_core (htxns.trans (sameRoster_rollbackBlock _))).trans (still_markOutdated _ _)
  · exact (still_core (hverify.trans (sameRoster_rollbackBlock _))).trans (still_markOutdated _ _)
  · exact (still_core hverify).trans ⟨fun _ => rfl, rfl⟩

theorem still_calculateWaitTimes (net : Net D) (p : Plugin D) :
    Still p (calculateWaitTimes net p) := by
  refine ⟨fun _ => rfl, ?_⟩
  unfold calculateWaitTimes
  rw [List.map_map]
  refine List.map_congr_left fun block _ => ?_
  simp only [Function.comp_apply]
  split_ifs <;> rfl

/-! ## What stays of the blocks -/

/-- What of a block stays until its votes are converted: it is without what waiting, counting
and downloading change. -/
def Block.fixed (block : Block) : Block :=
  { block with
    waitTime := 0
    tempVotes := fun _ => []
    numVotes := fun _ => 0
    downloadingTxns := false }

@[simp] theorem fixed_addBlockVote (round : Fin 2) (nodeId : ℤ) (sig : Bytes) (block : Block) :
    (addBlockVote round nodeId sig block).fixed = block.fixed := by
  unfold addBlockVote
  split_ifs <;> rfl

@[simp] theorem fixed_transferBlockVotes (votes : List StoredVote) (block : Block) :
    (transferBlockVotes votes block).fixed = block.fixed := by
  induction votes generalizing block with
  | nil => rfl
  | cons vote votes ih =>
      refine (ih _).trans ?_
      dsimp only
      split_ifs <;> simp

/-- The blocks are the same, but for what waiting, counting and downloading change. -/
def SameBlocks (p q : Plugin D) : Prop :=
  q.newBlocks.map Block.fixed = p.newBlocks.map Block.fixed

theorem SameBlocks.trans {p q r : Plugin D} (h : SameBlocks p q) (h' : SameBlocks q r) :
    SameBlocks p r :=
  Eq.trans h' h

/-- What the flag of a download does not change of the blocks. -/
theorem map_checkBlockTransactions {β : Type*} {f : Block → β}
    (h : ∀ (block : Block) (flag : Bool), f { block with downloadingTxns := flag } = f block)
    (p : Plugin D) (block : Block) :
    (checkBlockTransactions p block).2.newBlocks.map f = p.newBlocks.map f := by
  have hrequests : ∀ (tids : List (BitVec 64)) (q : Plugin D),
      (tids.foldl (fun q tid => requestTransaction tid q) q).newBlocks = q.newBlocks := by
    intro tids
    induction tids with
    | nil => exact fun q => rfl
    | cons tid tids ih =>
        intro q
        refine (ih (requestTransaction tid q)).trans ?_
        unfold requestTransaction
        split_ifs <;> rfl
  have hset := @map_updateBlock _ f block.key (fun block' => { block' with
      downloadingTxns := !(missingTransactions p.mempool block.body).isEmpty })
    fun block' => h block' _
  unfold checkBlockTransactions
  cases block.downloadingTxns with
  | true => exact hset _
  | false => exact (hset _).trans (congrArg _ (hrequests _ p))

theorem newBlocks_rollbackOpenBlock (p : Plugin D) :
    (rollbackOpenBlock p).newBlocks = p.newBlocks := by
  unfold rollbackOpenBlock
  split_ifs <;> rfl

theorem newBlocks_verifyBlock (net : Net D) (p : Plugin D) (block : Block) :
    (verifyBlock net p block).2.newBlocks = p.newBlocks := by
  unfold verifyBlock markOutdated
  dsimp only
  split_ifs <;> rfl

theorem map_verifyWinner {β : Type*} {f : Block → β}
    (h : ∀ (block : Block) (flag : Bool), f { block with downloadingTxns := flag } = f block)
    (net : Net D) (p : Plugin D) (winner : Block) :
    (verifyWinner net p winner).2.newBlocks.map f = p.newBlocks.map f := by
  have hcheck := map_checkBlockTransactions h (rollbackOpenBlock p) winner
  rw [newBlocks_rollbackOpenBlock] at hcheck
  unfold verifyWinner
  dsimp only
  split_ifs
  · rw [newBlocks_verifyBlock, hcheck]
  · exact hcheck

theorem sameBlocks_rollbackOpenBlock (p : Plugin D) : SameBlocks p (rollbackOpenBlock p) :=
  congrArg _ (newBlocks_rollbackOpenBlock p)

theorem sameBlocks_checkBlockTransactions (p : Plugin D) (block : Block) :
    SameBlocks p (checkBlockTransactions p block).2 :=
  map_checkBlockTransactions (fun _ _ => rfl) p block

theorem sameBlocks_calculateWaitTimes (net : Net D) (p : Plugin D) :
    SameBlocks p (calculateWaitTimes net p) := by
  unfold SameBlocks calculateWaitTimes
  rw [List.map_map]
  refine List.map_congr_left fun block _ => ?_
  rw [Function.comp_apply]
  split_ifs <;> rfl

theorem sameBlocks_voteOnBlock (net : Net D) (round : Fin 2) (key : ℤ × Bytes) (p : Plugin D) :
    SameBlocks p (voteOnBlock net round key p) := by
  unfold voteOnBlock
  split
  · split_ifs
    · rfl
    · exact map_updateBlock (fixed_addBlockVote round _ _) p.newBlocks
  · rfl

theorem sameBlocks_startNewBlockTimer (net : Net D) (p : Plugin D) :
    SameBlocks p (startNewBlockTimer net p) := by
  unfold startNewBlockTimer canCreateBlock
  dsimp only
  split_ifs <;> rfl

theorem sameBlocks_startBlockWaitTimer (p : Plugin D) : SameBlocks p (startBlockWaitTimer p) := by
  unfold startBlockWaitTimer
  split_ifs <;> rfl

theorem sameBlocks_requestStateUpdate (p : Plugin D) : SameBlocks p (requestStateUpdate p) := by
  unfold requestStateUpdate
  split_ifs <;> rfl

/-! ## Blocks under a key -/

theorem findBlock_split {key : ℤ × Bytes} {blocks : List Block} {block : Block}
    (h : findBlock key blocks = some block) :
    block.key = key ∧ ∃ before after, blocks = before ++ block :: after ∧
      removeBlock key blocks = before ++ after ∧
      ∀ set, updateBlock key set blocks = before ++ set block :: after := by
  induction blocks with
  | nil => simp [findBlock] at h
  | cons head tail ih =>
      by_cases hkey : head.key = key
      · obtain rfl : head = block := by simpa [findBlock, hkey] using h
        exact ⟨hkey, [], tail, rfl, by simp [removeBlock, hkey], by simp [updateBlock, hkey]⟩
      · have htail : findBlock key tail = some block := by simpa [findBlock, hkey] using h
        obtain ⟨hblock, before, after, heq, hremove, hupdate⟩ := ih htail
        refine ⟨hblock, head :: before, after, by rw [heq]; rfl, ?_, fun set => ?_⟩
        · simpa [removeBlock, hkey] using hremove
        · rw [updateBlock, if_neg hkey, hupdate]
          rfl

/-- The ballots of a list in which a block is found, and of the list with that block
changed. -/
theorem ballots_updateBlock {key : ℤ × Bytes} {blocks : List Block} {block : Block}
    (h : findBlock key blocks = some block) (excluded : List Block) :
    ∃ rest : Multiset Ballot,
      ((blocks ++ excluded).map Block.ballot : List Ballot) = block.ballot ::ₘ rest ∧
      ∀ set, ((updateBlock key set blocks ++ excluded).map Block.ballot : List Ballot) =
        (set block).ballot ::ₘ rest := by
  obtain ⟨-, before, after, heq, -, hupdate⟩ := findBlock_split h
  have hperm : ∀ b : Block, (((before ++ b :: after) ++ excluded).map Block.ballot : List Ballot) =
      b.ballot ::ₘ ((before ++ after ++ excluded).map Block.ballot : List Ballot) := by
    intro b
    refine Multiset.coe_eq_coe.2 ?_
    simp only [List.map_append, List.map_cons, List.append_assoc, List.cons_append]
    exact List.perm_middle
  exact ⟨_, heq ▸ hperm block, fun set => hupdate set ▸ hperm (set block)⟩

/-- A filter that drops the blocks under a key does not see the removal. -/
theorem filter_removeBlock {key : ℤ × Bytes} {keep : Block → Bool}
    (h : ∀ block, block.key = key → keep block = false) (blocks : List Block) :
    (removeBlock key blocks).filter keep = blocks.filter keep := by
  induction blocks with
  | nil => rfl
  | cons head tail ih =>
      by_cases hkey : head.key = key
      · simp [removeBlock, hkey, h head hkey]
      · have hremove : removeBlock key (head :: tail) = head :: removeBlock key tail := by
          simp [removeBlock, hkey]
        rw [hremove, List.filter_cons, List.filter_cons, ih]

/-! ## Votes -/

theorem hasVote_iff {block : Block} {round : Fin 2} {nodeId : ℤ} :
    block.hasVote round nodeId = true ↔ block.ballot.HasVote round nodeId := by
  simp [Block.hasVote, Ballot.HasVote, Block.ballot]

theorem ballot_addBlockVote {block : Block} {round : Fin 2} {nodeId : ℤ} {sig : Bytes}
    (h : block.hasVote round nodeId = false) :
    (addBlockVote round nodeId sig block).ballot = block.ballot.add round nodeId sig := by
  simp [addBlockVote, h, Block.ballot, Ballot.add]

/-- The test of `choose_block_to_vote`, on the view. -/
theorem view_canVoteOnBlock (p : Plugin D) (blocks : List Block) :
    p.canVoteOnBlock p.nodeId (p.currentHeight + 1) =
      Core.canVoteOnBlock (p.viewOf blocks).roster (p.viewOf blocks).nodeId
        ((p.viewOf blocks).current + 1) := by
  simp [Plugin.viewOf, Plugin.canVoteOnBlock]

/-- A vote of this node, while some blocks are put aside. -/
theorem voteOnBlock_own (net : Net D) {allow : Allow} {p : Plugin D} {round : Fin 2}
    {key : ℤ × Bytes} {excluded : List Block} (hheight : key.1 = p.currentHeight + 1)
    (hcan : p.canVoteOnBlock p.nodeId (p.currentHeight + 1) = true)
    (htimer : p.blockWaitTimer = false)
    (hmay : MayVote allow (p.viewOf (p.newBlocks ++ excluded)) round) :
    let q := voteOnBlock net round key p
    let v := p.viewOf (p.newBlocks ++ excluded)
    let w := q.viewOf (q.newBlocks ++ excluded)
    w = v ∨ Own net.ecdsaSign allow v w := by
  unfold voteOnBlock
  split
  · rename_i block sig hfind hsign
    split_ifs with hvoted
    · exact .inl rfl
    obtain ⟨rfl, -⟩ := findBlock_split hfind
    obtain ⟨rest, hrest, hupdate⟩ := ballots_updateBlock hfind excluded
    refine .inr ?_
    have hsigned : net.ecdsaSign p.core.pubkey block.id = some sig := by
      unfold aergoliteSignRaw at hsign
      split_ifs at hsign
      split at hsign
      · simp at hsign
      · rename_i h
        rw [← Except.ok.inj hsign]
        exact h
    have hnot : ¬ block.ballot.HasVote round p.nodeId := by
      simpa [← hasVote_iff] using hvoted
    have hstep := Own.vote hrest (.vote hrest hheight (view_canVoteOnBlock p _ ▸ hcan) hsigned
      hnot htimer hmay)
    have hadd : block.ballot.add round (p.viewOf (p.newBlocks ++ excluded)).nodeId sig ::ₘ rest =
        ((updateBlock block.key (addBlockVote round p.nodeId sig) p.newBlocks ++ excluded).map
          Block.ballot : List Ballot) := by
      rw [hupdate, ballot_addBlockVote (by simpa using hvoted)]
      rfl
    rw [hadd] at hstep
    exact hstep
  · exact .inl rfl

/-! ## The choice of a block -/

theorem Plugin.viewOf_perm (p : Plugin D) {blocks blocks' : List Block}
    (h : blocks.Perm blocks') : p.viewOf blocks = p.viewOf blocks' := by
  unfold Plugin.viewOf
  rw [Multiset.coe_eq_coe.2 (h.map Block.ballot)]

/-- A block is put aside. -/
theorem exclude_perm (key : ℤ × Bytes) (blocks excluded : List Block) :
    (removeBlock key blocks ++ (excluded ++ (findBlock key blocks).toList)).Perm
      (blocks ++ excluded) := by
  cases hfind : findBlock key blocks with
  | none =>
      have hremove : removeBlock key blocks = blocks := by
        refine List.eraseP_of_forall_not fun block hblock hkey => ?_
        exact List.find?_eq_none.1 hfind block hblock hkey
      simp [hremove]
  | some block =>
      obtain ⟨-, before, after, heq, hremove, -⟩ := findBlock_split hfind
      rw [hremove, heq, Option.toList_some, ← List.append_assoc, List.append_assoc before]
      refine (List.perm_append_singleton block _).trans ?_
      rw [List.append_assoc, List.cons_append]
      exact List.perm_middle.symm

theorem lowestWaitTime_mem {blocks : List Block} {winner : Block}
    (h : lowestWaitTime blocks = some winner) : winner ∈ blocks := by
  induction blocks generalizing winner with
  | nil => simp [lowestWaitTime] at h
  | cons block blocks ih =>
      unfold lowestWaitTime at h
      split at h
      · obtain rfl := Option.some.inj h
        exact List.mem_cons_self
      · rename_i other hother
        split_ifs at h
        · obtain rfl := Option.some.inj h
          exact List.mem_cons_of_mem _ (ih hother)
        · obtain rfl := Option.some.inj h
          exact List.mem_cons_self

theorem mem_nextBlocks {p : Plugin D} {block : Block} :
    block ∈ p.nextBlocks ↔ block ∈ p.newBlocks ∧ block.height = p.currentHeight + 1 := by
  simp [Plugin.nextBlocks]

theorem still_verifyWinner (net : Net D) (p : Plugin D) (winner : Block) :
    Still p (verifyWinner net p winner).2 := by
  have hcheck := (still_rollbackOpenBlock p).trans
    (still_checkBlockTransactions (rollbackOpenBlock p) winner)
  unfold verifyWinner
  dsimp only
  split_ifs
  · exact hcheck.trans (still_verifyBlock net _ winner)
  · exact hcheck

/-- The loop moves blocks aside, and finds one of the next height, if any. -/
theorem chooseLoop_still (net : Net D) (fuel : ℕ) (excluded : List Block) (p : Plugin D) :
    let r := chooseLoop net fuel excluded p
    r.2.2.viewOf (r.2.2.newBlocks ++ r.2.1) = p.viewOf (p.newBlocks ++ excluded) ∧
      ∀ winner, r.1 = some winner → winner.height = p.currentHeight + 1 := by
  induction fuel generalizing excluded p with
  | zero => exact ⟨rfl, by simp [chooseLoop]⟩
  | succ fuel ih =>
      unfold chooseLoop
      split
      · exact ⟨rfl, by simp⟩
      rename_i winner hwinner
      have hheight := (mem_nextBlocks.1 (lowestWaitTime_mem hwinner)).2
      split_ifs with hopen
      · refine ⟨rfl, fun other hother => ?_⟩
        obtain rfl := Option.some.inj hother
        exact hheight
      have hverify := still_verifyWinner net p winner
      generalize verifyWinner net p winner = verified at hverify ⊢
      dsimp only
      split_ifs with hok
      · refine ⟨hverify.viewOf_append excluded, fun other hother => ?_⟩
        obtain rfl := Option.some.inj hother
        exact hheight
      · obtain ⟨hview, hnext⟩ := ih
          (excluded ++ (findBlock winner.key verified.2.newBlocks).toList)
          { verified.2 with newBlocks := removeBlock winner.key verified.2.newBlocks }
        have hcurrent : verified.2.currentHeight = p.currentHeight :=
          congrArg View.current (hverify.rest [])
        refine ⟨hview.trans (Eq.trans ?_ (hverify.viewOf_append excluded)), fun other h =>
          (hnext other h).trans (congrArg (· + 1) hcurrent)⟩
        exact verified.2.viewOf_perm (exclude_perm _ _ _)

/-- No block is lost in the loop. -/
theorem chooseLoop_perm (net : Net D) (fuel : ℕ) (excluded : List Block) (p : Plugin D) :
    let r := chooseLoop net fuel excluded p
    ((r.2.2.newBlocks ++ r.2.1).map Block.fixed).Perm
      ((p.newBlocks ++ excluded).map Block.fixed) := by
  induction fuel generalizing excluded p with
  | zero => exact .refl _
  | succ fuel ih =>
      unfold chooseLoop
      split
      · exact .refl _
      rename_i winner hwinner
      split_ifs with hopen
      · exact .refl _
      have hverify : SameBlocks p (verifyWinner net p winner).2 :=
        map_verifyWinner (fun _ _ => rfl) net p winner
      generalize verifyWinner net p winner = verified at hverify ⊢
      have happend : (verified.2.newBlocks ++ excluded).map Block.fixed =
          (p.newBlocks ++ excluded).map Block.fixed := by
        rw [List.map_append, List.map_append, hverify]
      dsimp only
      split_ifs with hok
      · exact .of_eq happend
      · refine (ih _ _).trans ((List.Perm.map _ ?_).trans (.of_eq happend))
        exact exclude_perm _ _ _

/-! ## The majority -/

theorem view_electorate (p : Plugin D) : p.view.electorate = p.numAuthorizedNodes := rfl

theorem view_next (p : Plugin D) :
    p.view.next = (p.nextBlocks.map Block.ballot : List Ballot) := by
  unfold View.next Plugin.view Plugin.viewOf Plugin.nextBlocks
  rw [Multiset.filter_coe, List.filter_map]
  rfl

theorem view_undecidable (p : Plugin D) : p.view.Undecidable ↔ p.undecidable = true := by
  unfold View.Undecidable Plugin.undecidable
  rw [view_electorate, view_next]
  simp [Multiset.map_coe, Multiset.sum_coe, List.map_map, Function.comp_def, Block.ballot]

theorem view_countAuthorizedNodes (p : Plugin D) :
    (countAuthorizedNodes p).view = p.view.counted p.view.roster := by
  simp [Plugin.view, Plugin.viewOf, View.counted, countAuthorizedNodes, Plugin.currentHeight]

theorem view_startNewBlockTimer (net : Net D) (p : Plugin D) :
    (startNewBlockTimer net p).view = p.view ∨
      (startNewBlockTimer net p).view = p.view.counted p.view.roster := by
  unfold startNewBlockTimer canCreateBlock
  split_ifs
  · exact .inl rfl
  · exact .inl rfl
  · exact .inl rfl
  · refine .inr ?_
    dsimp only
    split_ifs <;> simp [Plugin.view, Plugin.viewOf, View.counted, countAuthorizedNodes,
      Plugin.currentHeight]

/-- The blocks a commit leaves. -/
theorem ballots_later {key : ℤ × Bytes} {blocks : List Block} {b : Ballot}
    {rest : Multiset Ballot} (h : (blocks.map Block.ballot : List Ballot) = b ::ₘ rest)
    (hkey : key.1 = b.height) :
    ((((removeBlock key blocks).filter fun other => decide (b.height < other.height)).map
        Block.ballot : List Ballot) : Multiset Ballot) =
      rest.filter fun other => b.height < other.height := by
  have hrest : rest.filter (fun other => b.height < other.height) =
      Multiset.filter (fun other => b.height < other.height) (blocks.map Block.ballot) := by
    rw [h]
    exact (Multiset.filter_cons_of_neg rest (lt_irrefl b.height)).symm
  rw [filter_removeBlock, hrest, Multiset.filter_coe, List.filter_map]
  · rfl
  · rintro other rfl
    have hother : other.height = b.height := hkey
    simp [hother]

theorem view_replaceCurrentBlock {p : Plugin D} {core : Aergolite D} {block : Block}
    {rest : Multiset Ballot} (hrest : p.view.ballots = block.ballot ::ₘ rest)
    (hpubkey : core.pubkey = p.core.pubkey) :
    (replaceCurrentBlock core block p).view =
      { p.view.counted (roster core.authorizations) with
        current := block.ballot.height
        ballots := rest.filter fun other => block.ballot.height < other.height
        stored := p.view.stored.filter fun vote => decide (block.ballot.height ≤ vote.height)
        committed := p.view.committed ++ [⟨block, p.core.authorizations⟩] } := by
  rw [← @ballots_later block.key _ _ _ hrest rfl]
  unfold replaceCurrentBlock countAuthorizedNodes View.counted Plugin.view Plugin.viewOf
  simp only [aergoliteNumAuthorizedNodes_roster, hpubkey]
  rfl

/-- **A commit.**  A block that has a majority is committed, or nothing is in
sight. -/
theorem commitBlock_commits (net : Net D) {p : Plugin D} {block : Block} {round : Fin 2}
    (hmem : block.ballot ∈ p.view.ballots) (hheight : block.height = p.currentHeight + 1)
    (hwins : majority p.numAuthorizedNodes ≤ block.numVotes round)
    (hvotes : (block.tempVotes round).map (fun vote => ⟨vote.nodeId, vote.sig, round.val⟩) <:+
      block.votes) :
    (commitBlock net p block).2.view = p.view ∨ Commits p.view (commitBlock net p block).2.view := by
  obtain ⟨hpubkey, hkeys, hroster⟩ :=
    roster_commitBlock net.toEnv p.core block.header block.body block.votes
  unfold commitBlock
  dsimp only
  split_ifs with hrc
  · have hrefused : Still { p with core := (aergoliteCommitBlock net.toEnv p.core block.header
        block.body block.votes).2 } { p with
          core := (aergoliteCommitBlock net.toEnv p.core block.header block.body block.votes).2
          refused := p.refused ++ p.openBlock.toList } := ⟨fun _ => rfl, rfl⟩
    exact .inl (((still_core ⟨hpubkey, hroster hrc⟩).trans hrefused).trans
      (still_markOutdated _ _)).view
  · refine .inr ?_
    obtain ⟨rest, hrest⟩ := Multiset.exists_cons_of_mem hmem
    generalize aergoliteCommitBlock net.toEnv p.core block.header block.body block.votes = r at *
    have hview : (startNewBlockTimer net (replaceCurrentBlock r.2 block p)).view =
        (replaceCurrentBlock r.2 block p).view := by
      rcases view_startNewBlockTimer net (replaceCurrentBlock r.2 block p) with h | h
      · exact h
      · exact h.trans (view_countAuthorizedNodes _).symm
    rw [hview, view_replaceCurrentBlock hrest hpubkey]
    exact .mk hrest hheight hwins ⟨rfl, rfl⟩ hvotes rfl
      (by simpa [Plugin.view, Plugin.viewOf] using hkeys)

theorem applyBlock_commits (net : Net D) {p : Plugin D} {block : Block} {round : Fin 2}
    (hmem : block.ballot ∈ p.view.ballots) (hheight : block.height = p.currentHeight + 1)
    (hwins : majority p.numAuthorizedNodes ≤ block.numVotes round)
    (hvotes : (block.tempVotes round).map (fun vote => ⟨vote.nodeId, vote.sig, round.val⟩) <:+
      block.votes) :
    (applyBlock net p block).view = p.view ∨ Commits p.view (applyBlock net p block).view := by
  have hverify := (still_verifyBlock net p block).view
  unfold applyBlock
  generalize verifyBlock net p block = r at hverify ⊢
  dsimp only
  split_ifs
  · rw [← hverify] at hmem ⊢
    refine commitBlock_commits net hmem ?_ ?_ hvotes
    · exact hheight.trans (congrArg (fun v => v.current + 1) hverify).symm
    · exact (congrArg (fun v => majority v.electorate) hverify).trans_le hwins
  · exact .inl hverify

/-- **The winner.** -/
theorem commitWinner_commits (net : Net D) {p : Plugin D} {block : Block} {round : Fin 2}
    (hmem : block ∈ p.nextBlocks)
    (hwins : majority p.numAuthorizedNodes ≤ block.numVotes round) :
    (commitWinner net round block p).view = p.view ∨
      Commits p.view (commitWinner net round block p).view := by
  obtain ⟨hblock, hheight⟩ := mem_nextBlocks.1 hmem
  have hvotes : ((convertBlockVotes round block).tempVotes round).map
      (fun vote => ⟨vote.nodeId, vote.sig, round.val⟩) <:+ (convertBlockVotes round block).votes :=
    List.suffix_append _ _
  have hconvert : ∀ q : Plugin D, Still q { q with
      newBlocks := updateBlock block.key (convertBlockVotes round) q.newBlocks } := by
    refine still_updateBlock ?_
    exact fun _ => rfl
  -- the block is in view, whatever is done before its commit
  have hstill : ∀ {q : Plugin D}, Still p q → q.view = p.view ∧
      (convertBlockVotes round block).ballot ∈ q.view.ballots ∧
      block.height = q.currentHeight + 1 ∧
      majority q.numAuthorizedNodes ≤ block.numVotes round := by
    intro q hq
    refine ⟨hq.view, ?_, ?_, ?_⟩
    · rw [hq.view]
      exact Multiset.mem_coe.2 (List.mem_map.2 ⟨block, hblock, rfl⟩)
    · exact hheight.trans (congrArg (fun v => v.current + 1) hq.view).symm
    · exact (congrArg (fun v => majority v.electorate) hq.view).trans_le hwins
  unfold commitWinner
  dsimp only
  split_ifs with hopen hcheck
  · obtain ⟨hview, hmem, hheight, hwins⟩ := hstill (hconvert p)
    rw [← hview]
    exact commitBlock_commits net hmem hheight hwins hvotes
  · exact .inl ((still_rollbackOpenBlock p).trans (still_checkBlockTransactions _ block)).view
  · obtain ⟨hview, hmem, hheight, hwins⟩ := hstill (((still_rollbackOpenBlock p).trans
      (still_checkBlockTransactions _ block)).trans (hconvert _))
    rw [← hview]
    exact applyBlock_commits net hmem hheight hwins hvotes

/-- What leads from one state to the other takes steps of its own only, and no block is
lost. -/
structure Leads (net : Net D) (allow : Allow) (p q : Plugin D) : Prop where
  path : Relation.ReflTransGen (Own net.ecdsaSign allow) p.view q.view
  blocks : (q.newBlocks.map Block.fixed).Perm (p.newBlocks.map Block.fixed)

/-- What the search for a winner comes to: there is none, or one to commit. -/
inductive Decides (net : Net D) (allow : Allow) (p : Plugin D) : Plugin D → Prop
  | none {q : Plugin D} (h : Leads net allow p q) : Decides net allow p q
  | winner {q : Plugin D} {round : Fin 2} {block : Block} (h : Leads net allow p q)
      (next : block ∈ q.nextBlocks) (wins : majority q.numAuthorizedNodes ≤ block.numVotes round) :
      Decides net allow p (commitWinner net round block q)

section
variable {net : Net D} {allow : Allow}

theorem Leads.refl (p : Plugin D) : Leads net allow p p := ⟨.refl, .refl _⟩

theorem Leads.trans {p q r : Plugin D} (h : Leads net allow p q) (h' : Leads net allow q r) :
    Leads net allow p r :=
  ⟨h.path.trans h'.path, h'.blocks.trans h.blocks⟩

/-- A step of its own, or none. -/
theorem Leads.step {p q : Plugin D}
    (h : q.view = p.view ∨ Own net.ecdsaSign allow p.view q.view) (h' : SameBlocks p q) :
    Leads net allow p q := by
  refine ⟨?_, .of_eq h'⟩
  rcases h with h | h
  · exact h ▸ .refl
  · exact .single h

theorem Leads.still {p q : Plugin D} (h : Still p q) (h' : SameBlocks p q) :
    Leads net allow p q :=
  .step (.inl h.view) h'

theorem Decides.refl (p : Plugin D) : Decides net allow p p := .none (.refl p)

theorem Decides.head {p q r : Plugin D} (h : Leads net allow p q) (h' : Decides net allow q r) :
    Decides net allow p r := by
  cases h' with
  | none h' => exact .none (h.trans h')
  | winner h' hnext hwins => exact .winner (h.trans h') hnext hwins

/-- **The search for a winner is a handler.** -/
theorem Decides.own {p q : Plugin D} (h : Decides net allow p q) :
    HandledBy (Own net.ecdsaSign allow) p.view q.view := by
  cases h with
  | none h => exact ⟨_, h.path, .inl rfl⟩
  | winner h hnext hwins => exact ⟨_, h.path, commitWinner_commits net hnext hwins⟩

/-- The search for a winner, given what is done if there is none. -/
theorem checkForWinnerBlockWith_decides {choose : Plugin D → Plugin D} {round : Fin 2}
    (p : Plugin D) (hchoose : round = 0 → p.blockWaitTimer = false →
      ¬(p.lastVoteHeight = p.currentHeight + 1 ∧ p.lastVoteRound = 1) → p.undecidable = true →
      Decides net allow p (choose p)) :
    Decides net allow p (checkForWinnerBlockWith net choose round p) := by
  unfold checkForWinnerBlockWith
  by_cases hnone : p.newBlocks = [] ∨ p.isUpdatingState = true
  · rw [if_pos hnone]
    exact .refl p
  rw [if_neg hnone]
  split
  · rename_i block hfind
    have hmem := List.mem_of_find?_eq_some hfind
    have hwins : majority p.numAuthorizedNodes ≤ block.numVotes round := by
      simpa using List.find?_some hfind
    exact .winner (.refl p) hmem hwins
  · split_ifs with hround hvoted hundecidable htimer
    · exact .refl p
    · exact .refl p
    · exact .refl p
    · exact .refl p
    · exact hchoose (by omega) (by simpa using htimer) hvoted (by simpa using hundecidable)

/-- The choice of a block, given what is done after the vote. -/
theorem chooseBlockToVoteWith_decides {check : Plugin D → Plugin D} {round : Fin 2}
    (p : Plugin D) (htimer : p.blockWaitTimer = false)
    (hmay : ¬(p.lastVoteHeight = p.currentHeight + 1 ∧ p.lastVoteRound = round) →
      MayVote allow p.view round)
    (hcheck : ∀ q : Plugin D, Decides net allow q (check q)) :
    Decides net allow p (chooseBlockToVoteWith net check round p) := by
  unfold chooseBlockToVoteWith
  split_ifs with hvoted hupdating hcan
  · exact .refl p
  · exact .refl p
  · exact hcheck p
  · obtain ⟨hview, hheight⟩ := chooseLoop_still net (calculateWaitTimes net p).newBlocks.length []
      (calculateWaitTimes net p)
    have hperm := chooseLoop_perm net (calculateWaitTimes net p).newBlocks.length []
      (calculateWaitTimes net p)
    have hwait := (still_calculateWaitTimes net p).view
    have hsame := sameBlocks_calculateWaitTimes net p
    dsimp only at hperm ⊢
    generalize chooseLoop net (calculateWaitTimes net p).newBlocks.length []
      (calculateWaitTimes net p) = chosen at hview hheight hperm ⊢
    obtain ⟨winner, excluded, q⟩ := chosen
    have hq : q.viewOf (q.newBlocks ++ excluded) = p.view := by
      rw [List.append_nil] at hview
      exact hview.trans hwait
    have hblocks : ((q.newBlocks ++ excluded).map Block.fixed).Perm
        (p.newBlocks.map Block.fixed) := by
      rw [List.append_nil] at hperm
      exact hperm.trans (.of_eq hsame)
    cases winner with
    | none =>
        refine .head ⟨?_, hblocks⟩ (hcheck { q with newBlocks := q.newBlocks ++ excluded })
        exact hq ▸ .refl
    | some winner =>
        have hcurrent : q.currentHeight = p.currentHeight := congrArg View.current hq
        have hcanq : q.canVoteOnBlock q.nodeId (q.currentHeight + 1) = true := by
          rw [view_canVoteOnBlock q (q.newBlocks ++ excluded), hq]
          rw [view_canVoteOnBlock p p.newBlocks, Bool.not_eq_true', Bool.not_eq_false] at hcan
          exact hcan
        have hkey : winner.key.1 = q.currentHeight + 1 := hcurrent ▸ hheight winner rfl
        have hvote := voteOnBlock_own net hkey hcanq
          ((congrArg View.timer hq).trans htimer) (hq ▸ hmay hvoted)
        rw [hq] at hvote
        refine .head ⟨?_, ?_⟩ (hcheck { voteOnBlock net round winner.key q with
          newBlocks := (voteOnBlock net round winner.key q).newBlocks ++ excluded })
        · rcases hvote with h | h
          · exact h ▸ .refl
          · exact .single h
        · refine .trans (.of_eq ?_) hblocks
          rw [List.map_append, List.map_append, sameBlocks_voteOnBlock net round winner.key q]

/-- The second round. -/
theorem chooseAgain_decides (p : Plugin D) (htimer : p.blockWaitTimer = false)
    (hvoted : ¬(p.lastVoteHeight = p.currentHeight + 1 ∧ p.lastVoteRound = 1))
    (hundecidable : p.undecidable = true) :
    Decides net allow p (chooseAgain net p) := by
  refine chooseBlockToVoteWith_decides p htimer (fun _ => ?_) fun q =>
    checkForWinnerBlockWith_decides q fun h => absurd h (by decide)
  exact ⟨fun hheight hround => hvoted ⟨hheight, hround⟩, (view_undecidable p).2 hundecidable⟩

/-- **`check_for_winner_block`.** -/
theorem checkForWinnerBlock_decides (round : Fin 2) (p : Plugin D) :
    Decides net allow p (checkForWinnerBlock net round p) :=
  checkForWinnerBlockWith_decides p fun _ => chooseAgain_decides p

/-- **`choose_block_to_vote(plugin, 0)`.** -/
theorem chooseBlockToVote_decides (p : Plugin D) (htimer : p.blockWaitTimer = false)
    (hlate : p.lastVoteHeight = p.currentHeight + 1 → p.lastVoteRound = 1 → allow.late) :
    Decides net allow p (chooseBlockToVote net p) := by
  refine chooseBlockToVoteWith_decides p htimer (fun hvoted hheight => ?_)
    (checkForWinnerBlock_decides 0)
  have hnot : p.lastVoteRound ≠ 0 := fun h => hvoted ⟨hheight, h⟩
  have hround : p.lastVoteRound = 1 := by omega
  exact ⟨hround, hlate hheight hround⟩

/-! ## Events -/

/-- `start_new_block_timer` counts the nodes, if anything. -/
theorem startNewBlockTimer_leads (p : Plugin D) :
    Leads net allow p (startNewBlockTimer net p) := by
  refine .step ?_ (sameBlocks_startNewBlockTimer net p)
  rcases view_startNewBlockTimer net p with h | h
  · exact .inl h
  · exact .inr (h ▸ .still .count rfl rfl rfl)

theorem startBlockWaitTimer_leads (p : Plugin D) : Leads net allow p (startBlockWaitTimer p) := by
  refine .step ?_ (sameBlocks_startBlockWaitTimer p)
  unfold startBlockWaitTimer
  split_ifs with hvoted
  · exact .inl rfl
  · exact .inl rfl
  · exact .inr (.still (.startTimer hvoted) rfl rfl rfl)

theorem still_requestStateUpdate (p : Plugin D) : Still p (requestStateUpdate p) := by
  unfold requestStateUpdate
  split_ifs <;> exact ⟨fun _ => rfl, rfl⟩

theorem requestStateUpdate_leads (p : Plugin D) : Leads net allow p (requestStateUpdate p) :=
  .still (still_requestStateUpdate p) (sameBlocks_requestStateUpdate p)

end

/-- A late transaction: one that was requested arrives when this node has voted on
the next height in the second round already, and `choose_block_to_vote` is called
for the first. -/
def lateTransaction (net : Net D) (p : Plugin D) : Event → Prop
  | .transaction nodeId nonce log =>
      (∃ mempool, storeTransactionOnMempool net.crypto p.core.adminPubkey p.core.authorizations
        p.mempool nodeId nonce log = some (.ok mempool)) ∧
      buildTransactionId nodeId nonce ∈ p.requests ∧ p.newBlocks ≠ [] ∧ p.blockWaitTimer = false ∧
      p.lastVoteHeight = p.currentHeight + 1 ∧ p.lastVoteRound = 1
  | _ => False

/-- The block a node creates is on its list already. -/
def repeatedBlock (net : Net D) (p : Plugin D) (e : Event) : Prop :=
  ∃ timestamp ∈ e.creationTime, ∃ created ∈ (createNewBlock net timestamp
      (canCreateBlock (rollbackOpenBlock { p with newBlockTimer := false })).2).1,
    ∃ block ∈ p.newBlocks, created.key = block.key

instance (net : Net D) (p : Plugin D) (e : Event) : Decidable (repeatedBlock net p e) :=
  inferInstanceAs (Decidable (∃ timestamp ∈ e.creationTime, ∃ created ∈ _, _))

/-- What a node may do at an event. -/
def allow (net : Net D) (p : Plugin D) (e : Event) : Allow where
  late := lateTransaction net p e ∨
    e = .blockWaitTimeout ∧ p.lastVoteHeight = p.currentHeight + 1
  received vote := ∃ msg, e = .blockVote msg ∧ msg.accepted net p = true ∧ vote = msg.vote ∧
    (p.currentHeight < vote.height ∨ (findBlock (vote.height, vote.blockId) p.newBlocks).isSome)
  authorized auth := ∃ log fromThisNode auths new, e = .newAuthorization log fromThisNode ∧
    aergoliteNewAuthorization net.crypto net.codec p.core.adminPubkey p.core.authorizations log =
      some (.ok (auths, new)) ∧ [auth] = roster [new]
  repeated := repeatedBlock net p e

theorem processArrivedTransaction_decides (net : Net D) (tid : BitVec 64) (p : Plugin D)
    (allow : Allow)
    (hlate : tid ∈ p.requests → p.newBlocks ≠ [] → p.blockWaitTimer = false →
      p.lastVoteHeight = p.currentHeight + 1 → p.lastVoteRound = 1 → allow.late) :
    let r := processArrivedTransaction net tid p
    (r.1 = true → Decides net allow p r.2) ∧ (r.1 = false → Leads net allow p r.2) := by
  have hstill : Leads net allow p { p with requests := p.requests.erase tid } :=
    .still ⟨fun _ => rfl, rfl⟩ rfl
  unfold processArrivedTransaction requestedTransactionArrived
  dsimp only
  refine ⟨fun hrequested => ?_, fun hrequested => ?_⟩
  · rw [hrequested]
    split_ifs with hchoose
    · exact .head hstill (chooseBlockToVote_decides { p with requests := p.requests.erase tid }
        hchoose.2.2 (hlate (by simpa using hrequested) hchoose.2.1 hchoose.2.2))
    · exact .none hstill
  · rw [hrequested]
    exact hstill

theorem processNewTransaction_decides (net : Net D) {p q : Plugin D} {nodeId nonce : ℤ}
    {log : Log} (h : processNewTransaction net nodeId nonce log p = some q) :
    Decides net (allow net p (.transaction nodeId nonce log)) p q := by
  unfold processNewTransaction at h
  obtain ⟨result, hstore, rfl⟩ := Option.map_eq_some_iff.1 h
  cases result with
  | error rc => exact .refl p
  | ok mempool =>
      have harrived := processArrivedTransaction_decides net (buildTransactionId nodeId nonce)
        { p with mempool } (allow net p (.transaction nodeId nonce log))
        fun hrequest hblocks htimer hheight hround =>
          .inl ⟨⟨mempool, hstore⟩, hrequest, hblocks, htimer, hheight, hround⟩
      have hstill : Leads net (allow net p (.transaction nodeId nonce log)) p
          { p with mempool } := .still ⟨fun _ => rfl, rfl⟩ rfl
      dsimp only
      generalize processArrivedTransaction net (buildTransactionId nodeId nonce)
        { p with mempool } = r at harrived ⊢
      split_ifs with hrequested
      · exact .head hstill (harrived.1 hrequested)
      · exact .none ((hstill.trans (harrived.2 (by simpa using hrequested))).trans
          (startNewBlockTimer_leads r.2))

/-- The votes of a ballot, given by stored votes. -/
structure Transferred (votes : List StoredVote) (block : Block) : Prop where
  count : ∀ round, block.numVotes round = (block.tempVotes round).length
  nodup : ∀ round, ((block.tempVotes round).map BlockVote.nodeId).Nodup
  stored : ∀ round, ∀ vote ∈ block.tempVotes round,
    (⟨vote.nodeId, round, block.height, block.id, vote.sig⟩ : StoredVote) ∈ votes

theorem Transferred.add {votes : List StoredVote} {block : Block} (h : Transferred votes block)
    {vote : StoredVote} (hmem : vote ∈ votes) (hheight : vote.height = block.height)
    (hid : vote.blockId = block.id) :
    Transferred votes (addBlockVote vote.round vote.nodeId vote.sig block) := by
  unfold addBlockVote
  split_ifs with hvoted
  · exact h
  have hnew : ∀ other ∈ block.tempVotes vote.round, other.nodeId ≠ vote.nodeId := by
    simpa [Block.hasVote] using hvoted
  refine ⟨fun round => ?_, fun round => ?_, fun round other hother => ?_⟩
  all_goals by_cases hround : round = vote.round
  · subst hround
    simp [h.count]
  · simp [hround, h.count]
  · subst hround
    simpa [List.nodup_append, h.nodup] using hnew
  · simp [hround, h.nodup]
  · subst hround
    simp only [Function.update_self, List.mem_append, List.mem_singleton] at hother
    rcases hother with hother | rfl
    · exact h.stored _ other hother
    · rw [← hheight, ← hid]
      exact hmem
  · simp only [ne_eq, hround, not_false_eq_true, Function.update_of_ne] at hother
    exact h.stored _ other hother

/-- What `transfer_block_votes` makes of a block without votes. -/
theorem transferBlockVotes_transferred (votes : List StoredVote) {block : Block}
    (hnone : ∀ round, block.tempVotes round = [] ∧ block.numVotes round = 0) :
    Transferred votes (transferBlockVotes votes block) ∧
      (transferBlockVotes votes block).key = block.key := by
  suffices h : ∀ (rest : List StoredVote) (b : Block), rest ⊆ votes → Transferred votes b →
      Transferred votes (transferBlockVotes rest b) ∧ (transferBlockVotes rest b).key = b.key from
    h votes block (fun _ h => h) ⟨by simp [hnone], by simp [hnone], by simp [hnone]⟩
  intro rest
  induction rest with
  | nil => exact fun b _ hb => ⟨hb, rfl⟩
  | cons vote rest ih =>
      intro b hsub hb
      unfold transferBlockVotes
      rw [List.foldl_cons]
      split_ifs with hvote
      · obtain ⟨h, hkey⟩ := ih (addBlockVote vote.round vote.nodeId vote.sig b)
          (fun _ h => hsub (List.mem_cons_of_mem _ h))
          (hb.add (hsub List.mem_cons_self) hvote.1 hvote.2)
        refine ⟨h, hkey.trans ?_⟩
        unfold addBlockVote
        split_ifs <;> rfl
      · exact ih b (fun _ h => hsub (List.mem_cons_of_mem _ h)) hb

/-- A block is added to the list. -/
theorem view_addBlock (p : Plugin D) (block : Block) :
    ({ p with newBlocks := p.newBlocks ++ [block] } : Plugin D).view =
      { p.view with ballots := block.ballot ::ₘ p.view.ballots } := by
  have hperm := p.viewOf_perm (List.perm_append_singleton block p.newBlocks)
  exact hperm

theorem addBlock_micro {sign : Bytes → Bytes → Option Bytes} {allow : Allow} {p : Plugin D}
    {block : Block} (h : Transferred p.blockVotes block)
    (hfresh : allow.repeated ∨ ∀ other ∈ p.newBlocks, other.key ≠ block.key) :
    Micro sign allow p.view ({ p with newBlocks := p.newBlocks ++ [block] } : Plugin D).view := by
  rw [view_addBlock]
  refine .add (hfresh.imp_right fun hfresh => ?_) h.count h.nodup h.stored
  intro other hother hheight hid
  obtain ⟨b, hb, rfl⟩ := List.mem_map.1 (Multiset.mem_coe.1 hother)
  exact hfresh b hb (Prod.ext hheight hid)

/-- What arrives with a block: nothing, or the block with the votes that were stored. -/
theorem addNewBlock_cases (net : Net D) {allow : Allow} (header : Header) (body : Body)
    (vrfOutput : Bytes) (p : Plugin D) :
    addNewBlock net header body vrfOutput p = p ∨ ∃ block : Block,
      (∀ round, block.tempVotes round = [] ∧ block.numVotes round = 0) ∧ block.votes = [] ∧
      p.currentHeight < block.height ∧ (∀ other ∈ p.newBlocks, other.key ≠ block.key) ∧
      Decides net allow
        { p with newBlocks := p.newBlocks ++ [transferBlockVotes p.blockVotes block] }
        (addNewBlock net header body vrfOutput p) := by
  unfold addNewBlock
  split_ifs with hknown hold
  · exact .inl rfl
  · exact .inl rfl
  refine .inr ⟨⟨header.height, header.id, header, body, [], vrfOutput, 0, fun _ => [], fun _ => 0,
    false⟩, fun _ => ⟨rfl, rfl⟩, rfl, not_le.1 hold, ?_, ?_⟩
  · have hnone : findBlock (header.height, header.id) p.newBlocks = none := by
      simpa using hknown
    show ∀ other ∈ p.newBlocks, other.key ≠ (header.height, header.id)
    simpa using List.find?_eq_none.1 hnone
  · dsimp only
    generalize transferBlockVotes p.blockVotes _ = block
    have hcheck : Leads net allow { p with newBlocks := p.newBlocks ++ [block] }
        (checkBlockTransactions { p with newBlocks := p.newBlocks ++ [block] } block).2 :=
      .still (still_checkBlockTransactions _ block) (sameBlocks_checkBlockTransactions _ block)
    generalize checkBlockTransactions { p with newBlocks := p.newBlocks ++ [block] } block = r
      at hcheck ⊢
    split_ifs
    · exact .none (hcheck.trans (requestStateUpdate_leads r.2))
    · exact .none (hcheck.trans (startBlockWaitTimer_leads r.2))
    · exact .head (hcheck.trans (startBlockWaitTimer_leads r.2)) (checkForWinnerBlock_decides 0 _)

/-- A vote is stored, while its block has not arrived. -/
theorem countVote_none {net : Net D} {vote : StoredVote} {p : Plugin D}
    (h : findBlock (vote.height, vote.blockId) p.newBlocks = none) :
    (countVote net vote p).newBlocks = p.newBlocks ∧
    (countVote net vote p).view = if p.currentHeight < vote.height then
        { p.view with stored := storeBlockVote vote p.blockVotes } else p.view := by
  have hblocks : ∀ q : Plugin D, (requestStateUpdate q).newBlocks = q.newBlocks := by
    intro q
    unfold requestStateUpdate
    split_ifs <;> rfl
  unfold countVote
  dsimp only
  rw [h]
  dsimp only
  by_cases hnew : p.currentHeight < vote.height
  · rw [if_pos hnew, if_pos hnew]
    split_ifs
    · exact ⟨hblocks _, (still_requestStateUpdate _).view⟩
    · exact ⟨rfl, rfl⟩
  · rw [if_neg hnew, if_neg hnew]
    split_ifs
    · exact ⟨hblocks _, (still_requestStateUpdate _).view⟩
    · exact ⟨rfl, rfl⟩

/-- A vote is counted, unless there is one of its node. -/
theorem countVote_some {net : Net D} {allow : Allow} {vote : StoredVote} {p : Plugin D}
    {block : Block} (h : findBlock (vote.height, vote.blockId) p.newBlocks = some block) :
    if block.hasVote vote.round vote.nodeId then countVote net vote p = p
    else Decides net allow
      { p with
        newBlocks := updateBlock (vote.height, vote.blockId)
          (addBlockVote vote.round vote.nodeId vote.sig) p.newBlocks }
      (countVote net vote p) := by
  unfold countVote
  dsimp only
  rw [h]
  dsimp only
  split_ifs with hvoted
  · rfl
  · exact checkForWinnerBlock_decides vote.round _

/-- The ballot of a block gets a vote. -/
theorem view_addBlockVote {vote : StoredVote} {p : Plugin D} {block : Block}
    (h : findBlock (vote.height, vote.blockId) p.newBlocks = some block)
    (hvoted : block.hasVote vote.round vote.nodeId = false) :
    ∃ rest, p.view.ballots = block.ballot ::ₘ rest ∧
      ({ p with
        newBlocks := updateBlock (vote.height, vote.blockId)
          (addBlockVote vote.round vote.nodeId vote.sig) p.newBlocks } : Plugin D).view =
        { p.view with
          ballots := block.ballot.add vote.round vote.nodeId vote.sig ::ₘ rest } := by
  obtain ⟨rest, hrest, hupdate⟩ := ballots_updateBlock h []
  simp only [List.append_nil] at hrest hupdate
  refine ⟨rest, hrest, ?_⟩
  rw [← ballot_addBlockVote hvoted, ← hupdate]
  rfl

theorem onBlockWaitTimeout_decides (net : Net D) (p : Plugin D) :
    Decides net (allow net p .blockWaitTimeout) p (onBlockWaitTimeout net p) := by
  have hstop : Leads net (allow net p .blockWaitTimeout) p
      { p with
        blockWaitTimer := false
        newBlockTimer := false } :=
    .step (.inr (.still .stopTimer rfl rfl rfl)) rfl
  exact .head hstop (chooseBlockToVote_decides _ rfl fun hheight _ => .inr ⟨rfl, hheight⟩)

theorem sameRoster_includeNext (net : Net D) (nonces : List (ℤ × ℤ)) (txns : List Transaction)
    (core : Aergolite D) : SameRoster core (includeNext net nonces txns core).2 := by
  induction txns generalizing core with
  | nil => exact .refl core
  | cons txn txns ih =>
      have h := sameRoster_executeTransaction net.toEnv core txn.nodeId txn.nonce txn.log
      unfold includeNext
      dsimp only
      split_ifs
      · exact h.trans (ih _)
      · exact h
      · exact ih _

theorem sameRoster_includeTransactions (net : Net D) (fuel : ℕ) (nonces : List (ℤ × ℤ))
    (mempool : List Transaction) (count : ℕ) (core : Aergolite D) :
    SameRoster core (includeTransactions net fuel nonces mempool count core).2 := by
  induction fuel generalizing nonces mempool count core with
  | zero => exact .refl core
  | succ fuel ih =>
      have h := sameRoster_includeNext net nonces mempool core
      unfold includeTransactions
      generalize includeNext net nonces mempool core = r at h ⊢
      obtain ⟨txn, core'⟩ := r
      cases txn with
      | none => exact h
      | some txn => exact h.trans (ih _ _ _ _)

/-- A block is created out of sight, and has no votes. -/
theorem createNewBlock_still (net : Net D) (timestamp : ℤ) (p : Plugin D) :
    Still p (createNewBlock net timestamp p).2 ∧
      (createNewBlock net timestamp p).2.newBlocks = p.newBlocks ∧
      ∀ block, (createNewBlock net timestamp p).1 = some block →
        Transferred p.blockVotes block ∧ block.votes = [] := by
  have hbegin := sameRoster_beginBlock p.core
  have hinclude := hbegin.trans (sameRoster_includeTransactions net p.mempool.length
    (buildLastNonceArray p) p.mempool 0 _)
  have hcreate := hinclude.trans (sameRoster_createBlock net.toEnv timestamp _)
  unfold createNewBlock
  dsimp only
  split_ifs
  · exact ⟨still_core hbegin, rfl, by simp⟩
  · exact ⟨still_core (hinclude.trans (sameRoster_rollbackBlock _)), rfl, by simp⟩
  · split
    · rename_i hcreated
      rw [hcreated] at hcreate
      exact ⟨still_core hcreate, rfl, by simp⟩
    · rename_i hcreated
      rw [hcreated] at hcreate
      refine ⟨(still_core hcreate).trans ⟨fun _ => rfl, rfl⟩, rfl, fun block hblock => ?_⟩
      obtain rfl := Option.some.inj hblock
      exact ⟨⟨fun _ => rfl, fun _ => List.nodup_nil, by simp⟩, rfl⟩

/-- The block a node creates, if it creates one. -/
def createdBlock (net : Net D) (p : Plugin D) (timestamp : ℤ) : Option Block :=
  (createNewBlock net timestamp
    (canCreateBlock (rollbackOpenBlock { p with newBlockTimer := false })).2).1

/-- What comes with the creation of a block: nothing, or the block, without votes. -/
theorem onNewBlockTimeout_cases (net : Net D) {allow : Allow} (timestamp : ℤ) (p : Plugin D) :
    Leads net allow p (onNewBlockTimeout net timestamp p) ∨
    ∃ block ∈ createdBlock net p timestamp, ∃ r : Plugin D, Leads net allow p r ∧
      r.newBlocks.map Block.ballot = p.newBlocks.map Block.ballot ∧
      Transferred r.blockVotes block ∧ block.votes = [] ∧
      Leads net allow { r with newBlocks := r.newBlocks ++ [block] }
        (onNewBlockTimeout net timestamp p) := by
  have hrollback := still_rollbackOpenBlock { p with newBlockTimer := false }
  have hblocks := sameBlocks_rollbackOpenBlock { p with newBlockTimer := false }
  have hview : (rollbackOpenBlock { p with newBlockTimer := false }).view = p.view :=
    hrollback.view
  have hcounted : Leads net allow p
      (canCreateBlock (rollbackOpenBlock { p with newBlockTimer := false })).2 := by
    refine .step (.inr ?_) hblocks
    have hcount := view_countAuthorizedNodes (rollbackOpenBlock { p with newBlockTimer := false })
    rw [hview] at hcount
    exact hcount ▸ .still .count rfl rfl rfl
  have hballots : (canCreateBlock (rollbackOpenBlock
      { p with newBlockTimer := false })).2.newBlocks.map Block.ballot =
        p.newBlocks.map Block.ballot := hrollback.ballots
  unfold onNewBlockTimeout createdBlock
  dsimp only
  split_ifs with hunused hcan
  · exact .inl (.step (.inl hview) hblocks)
  · exact .inl hcounted
  generalize (canCreateBlock (rollbackOpenBlock { p with newBlockTimer := false })).2 = q
    at hcounted hballots ⊢
  obtain ⟨hstill, hsame, hnew⟩ := createNewBlock_still net timestamp q
  generalize createNewBlock net timestamp q = r at hstill hsame hnew ⊢
  obtain ⟨block, r⟩ := r
  have hr : Leads net allow p r := hcounted.trans (.still hstill (congrArg _ hsame))
  cases block with
  | none => exact .inl (hr.trans (.still ⟨fun _ => rfl, rfl⟩ rfl))
  | some block =>
      have hvotes : r.blockVotes = q.blockVotes := congrArg View.stored (hstill.rest [])
      obtain ⟨htransferred, hempty⟩ := hnew block rfl
      refine .inr ⟨block, rfl, r, hr, hstill.ballots.trans hballots, hvotes ▸ htransferred, hempty, ?_⟩
      have hopen : Leads net allow { r with newBlocks := r.newBlocks ++ [block] }
          { r with
            newBlocks := r.newBlocks ++ [block]
            openBlock := some block.key } := .still ⟨fun _ => rfl, rfl⟩ rfl
      exact hopen.trans (startBlockWaitTimer_leads _)

/-- `on_new_authorization` adds the node to the list and counts, if it does anything. -/
theorem view_onNewAuthorization (net : Net D) {p q : Plugin D} {log : Log}
    {fromThisNode : Bool} (h : onNewAuthorization net log fromThisNode p = some q) :
    q.view = p.view ∨ ∃ auth, (allow net p (.newAuthorization log fromThisNode)).authorized auth ∧
      q.view = p.view.counted (p.view.roster ++ [auth]) := by
  unfold onNewAuthorization at h
  obtain ⟨result, hnew, rfl⟩ := Option.map_eq_some_iff.1 h
  cases result with
  | error rc => exact .inl rfl
  | ok r =>
      obtain ⟨auths, auth⟩ := r
      obtain ⟨stripped, hstripped⟩ : ∃ a, [a] = roster [auth] := ⟨_, rfl⟩
      have hauths : auths = p.core.authorizations ++ [auth] := by
        unfold aergoliteNewAuthorization at hnew
        split at hnew
        · simp at hnew
        split_ifs at hnew
        · simp at hnew
        obtain ⟨rc, -, hrc⟩ := Option.map_eq_some_iff.1 hnew
        split_ifs at hrc
        simp only [Except.ok.injEq, Prod.mk.injEq] at hrc
        rw [← hrc.1, hrc.2]
      have hroster : roster auths = p.view.roster ++ [stripped] := by
        rw [hauths, hstripped]
        exact List.map_append
      refine .inr ⟨stripped, ⟨log, fromThisNode, auths, auth, rfl, hnew, hstripped⟩, ?_⟩
      have hnote : (noteAuthorization auth fromThisNode (countAuthorizedNodes
          { p with core := { p.core with authorizations := auths } })).view =
            p.view.counted (roster auths) :=
        view_countAuthorizedNodes _
      rw [← hroster, ← hnote]
      dsimp only
      split_ifs
      · rcases view_startNewBlockTimer net (noteAuthorization auth fromThisNode
          (countAuthorizedNodes { p with core := { p.core with authorizations := auths } }))
          with hview | hview
        · exact hview
        · rw [hview, hnote]
          rfl
      · rfl

theorem onNewAuthorization_leads (net : Net D) {p q : Plugin D} {log : Log}
    {fromThisNode : Bool} (h : onNewAuthorization net log fromThisNode p = some q) :
    Leads net (allow net p (.newAuthorization log fromThisNode)) p q := by
  refine .step ?_ ?_
  · rcases view_onNewAuthorization net h with hview | ⟨auth, hauth, hview⟩
    · exact .inl hview
    · exact .inr (hview ▸ .still (.authorize hauth) rfl rfl rfl)
  · unfold onNewAuthorization at h
    obtain ⟨result, -, rfl⟩ := Option.map_eq_some_iff.1 h
    cases result with
    | error rc => rfl
    | ok r =>
        dsimp only
        split_ifs
        · exact sameBlocks_startNewBlockTimer net _
        · rfl

/-- An event that brings neither a vote nor a block. -/
def Event.Internal : Event → Prop
  | .newBlock .. | .blockVote _ | .newBlockTimeout _ => False
  | _ => True

theorem step_decides (net : Net D) {p q : Plugin D} {e : Event} (h : step net p e = some q)
    (he : e.Internal) : Decides net (allow net p e) p q := by
  cases e with
  | newBlock | blockVote | newBlockTimeout => exact he.elim
  | transaction nodeId nonce log => exact processNewTransaction_decides net h
  | blockWaitTimeout =>
      obtain ⟨-, rfl⟩ : p.blockWaitTimer = true ∧ onBlockWaitTimeout net p = q := by
        simpa [step] using h
      exact onBlockWaitTimeout_decides net p
  | newAuthorization log fromThisNode => exact .none (onNewAuthorization_leads net h)
  | stateRequested =>
      obtain rfl := Option.some.inj h
      exact .none (.still (still_rollbackOpenBlock p) (sameBlocks_rollbackOpenBlock p))
  | requestFinished tid | peersChanged peers | syncChanged state =>
      obtain rfl := Option.some.inj h
      exact .none (.still ⟨fun _ => rfl, rfl⟩ rfl)

/-- What an event brings: small steps, and perhaps a block whose votes have not been
converted. -/
structure Arrives (net : Net D) (allow : Allow) (p q : Plugin D) : Prop where
  path : Relation.ReflTransGen (Micro net.ecdsaSign allow) p.view q.view
  blocks : ∀ block ∈ q.newBlocks, block.votes = [] ∨
    ∃ other ∈ p.newBlocks, other.fixed = block.fixed

theorem SameBlocks.mem {p q : Plugin D} (h : SameBlocks p q) {block : Block}
    (hblock : block ∈ q.newBlocks) : ∃ other ∈ p.newBlocks, other.fixed = block.fixed := by
  have hmem := @List.mem_map_of_mem _ _ _ block Block.fixed hblock
  rw [h] at hmem
  exact List.mem_map.1 hmem

section
variable {net : Net D} {allow : Allow}

theorem Arrives.refl (p : Plugin D) : Arrives net allow p p :=
  ⟨.refl, fun block hblock => .inr ⟨block, hblock, rfl⟩⟩

/-- A block is added. -/
theorem arrives_addBlock {p : Plugin D} {block : Block} (h : Transferred p.blockVotes block)
    (hfresh : allow.repeated ∨ ∀ other ∈ p.newBlocks, other.key ≠ block.key)
    (hvotes : block.votes = []) :
    Arrives net allow p { p with newBlocks := p.newBlocks ++ [block] } := by
  refine ⟨.single (addBlock_micro h hfresh), fun other hother => ?_⟩
  rcases List.mem_append.1 hother with hother | hother
  · exact .inr ⟨other, hother, rfl⟩
  · exact .inl (List.mem_singleton.1 hother ▸ hvotes)

theorem Leads.arrives {p q : Plugin D} (h : Leads net allow p q) : Arrives net allow p q := by
  refine ⟨Relation.ReflTransGen.mono (fun _ _ => Own.micro) _ _ h.path, fun block hblock => .inr ?_⟩
  have hmem := @List.mem_map_of_mem _ _ _ block Block.fixed hblock
  exact List.mem_map.1 (h.blocks.mem_iff.1 hmem)

theorem Arrives.trans {p q r : Plugin D} (h : Arrives net allow p q) (h' : Arrives net allow q r) :
    Arrives net allow p r := by
  refine ⟨h.path.trans h'.path, fun block hblock => ?_⟩
  rcases h'.blocks block hblock with hnone | ⟨other, hother, heq⟩
  · exact .inl hnone
  · rcases h.blocks other hother with hnone | ⟨first, hfirst, heq'⟩
    · exact .inl ((congrArg Block.votes heq).symm.trans hnone)
    · exact .inr ⟨first, hfirst, heq'.trans heq⟩

theorem countVote_arrives {vote : StoredVote} {p : Plugin D}
    (hreceived : p.currentHeight < vote.height ∨
        (findBlock (vote.height, vote.blockId) p.newBlocks).isSome → allow.received vote) :
    ∃ r, Arrives net allow p r ∧ Decides net allow r (countVote net vote p) := by
  cases hfind : findBlock (vote.height, vote.blockId) p.newBlocks with
  | none =>
      obtain ⟨hblocks, hview⟩ := @countVote_none _ net _ _ hfind
      refine ⟨_, ⟨?_, fun block hblock => .inr ⟨block, hblocks ▸ hblock, rfl⟩⟩, .refl _⟩
      rw [hview]
      split_ifs with hnew
      · unfold storeBlockVote
        split_ifs
        · exact .refl
        · exact .single (.store (hreceived (.inl hnew)))
      · exact .refl
  | some block =>
      have hcount := @countVote_some _ net allow vote p block hfind
      split_ifs at hcount with hvoted
      · exact hcount.symm ▸ ⟨p, .refl p, .refl p⟩
      rw [Bool.not_eq_true] at hvoted
      obtain ⟨rest, hrest, hview⟩ := view_addBlockVote hfind hvoted
      obtain ⟨hkey, -⟩ := findBlock_split hfind
      have hnot : ¬ block.ballot.HasVote vote.round vote.nodeId := by
        simpa [← hasVote_iff] using hvoted
      have hstep := @Micro.receive net.ecdsaSign allow p.view block.ballot rest vote hrest
        (hreceived (.inr (by rw [hfind]; rfl))) (congrArg Prod.fst hkey) (congrArg Prod.snd hkey)
        hnot
      have hsame : SameBlocks p { p with
          newBlocks := updateBlock (vote.height, vote.blockId)
            (addBlockVote vote.round vote.nodeId vote.sig) p.newBlocks } :=
        map_updateBlock (fixed_addBlockVote _ _ _) p.newBlocks
      exact ⟨_, ⟨.single (hview ▸ hstep), fun _ hblock => .inr (hsame.mem hblock)⟩, hcount⟩

/-- **What an event does**: something arrives, and then the search for a winner. -/
theorem step_arrives (net : Net D) {p q : Plugin D} {e : Event} (h : step net p e = some q) :
    ∃ r, Arrives net (NoLeader.allow net p e) p r ∧ Decides net (NoLeader.allow net p e) r q := by
  cases e with
  | newBlock header body proof =>
      obtain rfl := Option.some.inj h
      show ∃ r, Arrives net _ p r ∧ Decides net _ r (onNewBlock net header body proof p)
      unfold onNewBlock
      split_ifs
      · exact ⟨p, .refl p, .refl p⟩
      · exact ⟨p, .refl p, .refl p⟩
      split
      · exact ⟨p, .refl p, .refl p⟩
      rename_i vrfOutput _
      rcases addNewBlock_cases net header body vrfOutput p with
        heq | ⟨block, hnone, hvotes, -, hfresh, hrest⟩
      · exact heq.symm ▸ ⟨p, .refl p, .refl p⟩
      · obtain ⟨htransferred, hkey⟩ := transferBlockVotes_transferred p.blockVotes hnone
        refine ⟨_, arrives_addBlock htransferred (.inr (hkey ▸ hfresh)) ?_, hrest⟩
        exact (congrArg Block.votes (fixed_transferBlockVotes p.blockVotes block)).trans hvotes
  | blockVote msg =>
      obtain rfl := Option.some.inj h
      show ∃ r, Arrives net _ p r ∧ Decides net _ r (onBlockVote net msg p)
      unfold onBlockVote
      split_ifs with haccepted
      · exact countVote_arrives fun hkept => ⟨msg, rfl, haccepted, rfl, hkept⟩
      · exact ⟨p, .refl p, .refl p⟩
  | newBlockTimeout timestamp =>
      obtain ⟨-, rfl⟩ : p.newBlockTimer = true ∧ onNewBlockTimeout net timestamp p = q := by
        simpa [step] using h
      rcases onNewBlockTimeout_cases net timestamp p with
        h | ⟨block, hcreated, r, hlead, hballots, hnew, hvotes, hrest⟩
      · exact ⟨p, .refl p, .none h⟩
      · refine ⟨_, hlead.arrives.trans (arrives_addBlock hnew ?_ hvotes), .none hrest⟩
        -- a block whose key is on the list is created again
        by_contra hnot
        rw [not_or] at hnot
        obtain ⟨hnone, hsome⟩ := hnot
        push Not at hsome
        obtain ⟨other, hother, hkey⟩ := hsome
        have hballot := @List.mem_map_of_mem _ _ _ other Block.ballot hother
        rw [hballots] at hballot
        obtain ⟨b, hb, heq⟩ := List.mem_map.1 hballot
        refine hnone ⟨timestamp, rfl, block, hcreated, b, hb, ?_⟩
        exact hkey.symm.trans (congrArg (fun b => (b.height, b.id)) heq).symm
  | _ => exact ⟨p, .refl p, step_decides net h trivial⟩

end

/-- **The handlers refine voting.**  Whatever happens to a node, it takes small
voting steps and commits at most one block. -/
theorem step_handled (net : Net D) {p q : Plugin D} {e : Event} (h : step net p e = some q) :
    Handled net.ecdsaSign (allow net p e) p.view q.view := by
  obtain ⟨r, harrives, hdecides⟩ := step_arrives net h
  obtain ⟨u, hpath, hend⟩ := hdecides.own.handled
  exact ⟨u, harrives.path.trans hpath, hend⟩

end NoLeader
end AergoLite
