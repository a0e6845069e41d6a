/-
# The calls of the core

What the handlers of a node do to the chain.  A handler makes several of the calls
`Call`: a transaction is stored, a block is verified, committed, created or rolled
back, a node is authorized; in between it changes what the chain does not depend on
(`Idle`).  A node is a system of such calls (`chain`), and each of its handlers is a
run of it (`step_chained`).
-/

import AergoLite.NoLeader.Handlers
import Mathlib.Logic.Relation

namespace AergoLite
namespace NoLeader

open AergoLite.Core
open Transition

variable {D : Type}

/-- A block with this key, header and body is on the list. -/
def Listed (blocks : List Block) (block : Block) : Prop :=
  ∃ b ∈ blocks, b.key = block.key ∧ b.header = block.header ∧ b.body = block.body

/-- Each block has the height and the id of its header. -/
def HeaderKeyed (blocks : List Block) : Prop :=
  ∀ block ∈ blocks, block.key = (block.header.height, block.header.id)

/-- Nothing the chain depends on has changed, and the block that is open is on the list if
it was. -/
structure Idle (p q : Plugin D) : Prop where
  core : q.core = p.core
  mempool : q.mempool = p.mempool
  currentBlock : q.currentBlock = p.currentBlock
  openBlock : q.openBlock = p.openBlock
  committed : q.committed = p.committed
  refused : q.refused = p.refused
  listed : ∀ block, p.openBlock = some block.key → Listed p.newBlocks block →
    Listed q.newBlocks block
  headerKeyed : HeaderKeyed p.newBlocks → HeaderKeyed q.newBlocks

/-- What a handler calls. -/
inductive Call
  | idle
  | arrive (nodeId nonce : ℤ) (log : Log)
  | verify (block : Block)
  | commit (block : Block)
  | rollback
  | create (timestamp : ℤ)
  | authorize (log : Log)

/-- A call. -/
inductive ChainStep (net : Net D) : Plugin D → Call → Plugin D → Prop
  | idle {p q : Plugin D} (h : Idle p q) : ChainStep net p .idle q
  /-- `store_transaction_on_mempool`. -/
  | arrive {p : Plugin D} {nodeId nonce : ℤ} {log : Log} {mempool : List Transaction}
      (stored : storeTransactionOnMempool net.crypto p.core.adminPubkey p.core.authorizations
        p.mempool nodeId nonce log = some (.ok mempool)) :
      ChainStep net p (.arrive nodeId nonce log) { p with mempool }
  /-- `verify_block`: no block is open, and its transactions are in the mempool. -/
  | verify {p : Plugin D} {block : Block} (closed : p.openBlock = none)
      (listed : Listed p.newBlocks block)
      (present : missingTransactions p.mempool block.body = []) :
      ChainStep net p (.verify block) (verifyBlock net p block).2
  /-- `commit_block`. -/
  | commit {p : Plugin D} {block : Block} :
      ChainStep net p (.commit block) (commitBlock net p block).2
  /-- `rollback_block`. -/
  | rollback {p : Plugin D} (opened : p.openBlock.isSome = true) :
      ChainStep net p .rollback (rollbackBlock p)
  /-- `create_new_block`, and the block it returns is open. -/
  | create {p q : Plugin D} {timestamp : ℤ} {block : Block} (closed : p.openBlock = none)
      (created : createNewBlock net timestamp p = (some block, q)) :
      ChainStep net p (.create timestamp) { q with
        newBlocks := q.newBlocks ++ [block]
        openBlock := some block.key }
  /-- `create_new_block`, without a result. -/
  | createFailed {p q : Plugin D} {timestamp : ℤ} (closed : p.openBlock = none)
      (created : createNewBlock net timestamp p = (none, q)) :
      ChainStep net p (.create timestamp) q
  /-- `aergolite_new_authorization`. -/
  | authorize {p : Plugin D} {log : Log} {authorizations : List NodeAuth} {auth : NodeAuth}
      (added : aergoliteNewAuthorization net.crypto net.codec p.core.adminPubkey
        p.core.authorizations log = some (.ok (authorizations, auth))) :
      ChainStep net p (.authorize log) { p with core := { p.core with authorizations } }

/-- A node and the calls it makes. -/
def chain (net : Net D) : System (Plugin D) Call where
  init := Plugin.Fresh
  step := ChainStep net

/-- A run of calls. -/
def Chained (net : Net D) : Plugin D → Plugin D → Prop :=
  Relation.ReflTransGen fun p q => ∃ call, ChainStep net p call q

/-! ## What the chain does not depend on -/

theorem Idle.refl (p : Plugin D) : Idle p p :=
  ⟨rfl, rfl, rfl, rfl, rfl, rfl, fun _ _ h => h, id⟩

theorem Idle.trans {p q r : Plugin D} (h : Idle p q) (h' : Idle q r) : Idle p r :=
  ⟨h'.core.trans h.core, h'.mempool.trans h.mempool, h'.currentBlock.trans h.currentBlock,
    h'.openBlock.trans h.openBlock, h'.committed.trans h.committed, h'.refused.trans h.refused,
    fun block hopen hlisted => h'.listed block (h.openBlock.trans hopen)
      (h.listed block hopen hlisted),
    fun hkeyed => h'.headerKeyed (h.headerKeyed hkeyed)⟩

/-- The list of new blocks stays as it is. -/
theorem idle_of_newBlocks {p q : Plugin D} (core : q.core = p.core) (mempool : q.mempool = p.mempool)
    (currentBlock : q.currentBlock = p.currentBlock) (openBlock : q.openBlock = p.openBlock)
    (committed : q.committed = p.committed) (refused : q.refused = p.refused)
    (newBlocks : q.newBlocks = p.newBlocks) : Idle p q :=
  ⟨core, mempool, currentBlock, openBlock, committed, refused, fun _ _ h => newBlocks ▸ h,
    fun h => newBlocks ▸ h⟩

theorem listed_updateBlock {key : ℤ × Bytes} {set : Block → Block}
    (hset : ∀ b : Block, (set b).key = b.key ∧ (set b).header = b.header ∧ (set b).body = b.body)
    {blocks : List Block} {block : Block} (h : Listed blocks block) :
    Listed (updateBlock key set blocks) block := by
  induction blocks with
  | nil => exact h
  | cons head tail ih =>
      obtain ⟨b, hb, hkey, hheader, hbody⟩ := h
      unfold updateBlock
      split_ifs
      · rcases List.mem_cons.1 hb with rfl | hb
        · obtain ⟨hk, hh, hbd⟩ := hset b
          exact ⟨set b, List.mem_cons_self, hk.trans hkey, hh.trans hheader, hbd.trans hbody⟩
        · exact ⟨b, List.mem_cons_of_mem _ hb, hkey, hheader, hbody⟩
      · rcases List.mem_cons.1 hb with rfl | hb
        · exact ⟨b, List.mem_cons_self, hkey, hheader, hbody⟩
        · obtain ⟨b', hb', h'⟩ := ih ⟨b, hb, hkey, hheader, hbody⟩
          exact ⟨b', List.mem_cons_of_mem _ hb', h'⟩

theorem HeaderKeyed.append {blocks blocks' : List Block} (h : HeaderKeyed blocks)
    (h' : HeaderKeyed blocks') : HeaderKeyed (blocks ++ blocks') := fun block hblock =>
  (List.mem_append.1 hblock).elim (h block) (h' block)

theorem HeaderKeyed.updateBlock {key : ℤ × Bytes} {set : Block → Block}
    (hset : ∀ b : Block, (set b).key = b.key ∧ (set b).header = b.header ∧ (set b).body = b.body)
    {blocks : List Block} (h : HeaderKeyed blocks) :
    HeaderKeyed (updateBlock key set blocks) := by
  induction blocks with
  | nil => exact h
  | cons head tail ih =>
      have hhead := h head List.mem_cons_self
      have htail : HeaderKeyed tail := fun block hblock => h block (List.mem_cons_of_mem _ hblock)
      unfold NoLeader.updateBlock
      intro block hblock
      split_ifs at hblock
      · rcases List.mem_cons.1 hblock with rfl | hblock
        · obtain ⟨hkey, hheader, -⟩ := hset head
          rw [hkey, hheader]
          exact hhead
        · exact htail block hblock
      · rcases List.mem_cons.1 hblock with rfl | hblock
        · exact hhead
        · exact ih htail block hblock

theorem idle_updateBlock (key : ℤ × Bytes) {set : Block → Block}
    (hset : ∀ b : Block, (set b).key = b.key ∧ (set b).header = b.header ∧ (set b).body = b.body)
    (p : Plugin D) : Idle p { p with newBlocks := updateBlock key set p.newBlocks } :=
  ⟨rfl, rfl, rfl, rfl, rfl, rfl, fun _ _ h => listed_updateBlock hset h, fun h =>
    h.updateBlock hset⟩

theorem idle_append (p : Plugin D) {blocks : List Block} (h : HeaderKeyed blocks) :
    Idle p { p with newBlocks := p.newBlocks ++ blocks } :=
  ⟨rfl, rfl, rfl, rfl, rfl, rfl, fun _ _ ⟨b, hb, h⟩ => ⟨b, List.mem_append_left _ hb, h⟩, fun h' =>
    h'.append h⟩

/-- While no block is open, blocks may leave the list. -/
theorem idle_removeBlock {p : Plugin D} (h : p.openBlock = none) (key : ℤ × Bytes) :
    Idle p { p with newBlocks := removeBlock key p.newBlocks } :=
  ⟨rfl, rfl, rfl, rfl, rfl, rfl, fun _ hopen => by simp [h] at hopen, fun hkeyed block hblock =>
    hkeyed block (List.mem_of_mem_eraseP hblock)⟩

theorem idle_markOutdated (rc : Rc) (p : Plugin D) : Idle p (markOutdated rc p) := by
  unfold markOutdated
  split_ifs
  · exact idle_of_newBlocks rfl rfl rfl rfl rfl rfl rfl
  · exact .refl p

theorem idle_requestTransaction (tid : BitVec 64) (p : Plugin D) :
    Idle p (requestTransaction tid p) := by
  unfold requestTransaction
  split_ifs
  · exact .refl p
  · exact idle_of_newBlocks rfl rfl rfl rfl rfl rfl rfl

theorem idle_requestStateUpdate (p : Plugin D) : Idle p (requestStateUpdate p) := by
  unfold requestStateUpdate
  split_ifs <;> exact idle_of_newBlocks rfl rfl rfl rfl rfl rfl rfl

theorem idle_startNewBlockTimer (net : Net D) (p : Plugin D) : Idle p (startNewBlockTimer net p) := by
  unfold startNewBlockTimer canCreateBlock
  split_ifs
  · exact .refl p
  · exact .refl p
  · exact .refl p
  · dsimp only
    split_ifs <;> exact idle_of_newBlocks rfl rfl rfl rfl rfl rfl rfl

theorem idle_startBlockWaitTimer (p : Plugin D) : Idle p (startBlockWaitTimer p) := by
  unfold startBlockWaitTimer
  split_ifs <;> exact idle_of_newBlocks rfl rfl rfl rfl rfl rfl rfl

theorem idle_calculateWaitTimes (net : Net D) (p : Plugin D) : Idle p (calculateWaitTimes net p) := by
  refine ⟨rfl, rfl, rfl, rfl, rfl, rfl, fun block _ ⟨b, hb, hkey, hheader, hbody⟩ => ?_,
    fun hkeyed block hblock => ?_⟩
  · unfold calculateWaitTimes
    refine ⟨_, List.mem_map_of_mem hb, ?_⟩
    split_ifs <;> exact ⟨hkey, hheader, hbody⟩
  · obtain ⟨b, hb, rfl⟩ := List.mem_map.1 hblock
    have hkey := hkeyed b hb
    split_ifs <;> exact hkey

theorem idle_voteOnBlock (net : Net D) (round : Fin 2) (key : ℤ × Bytes) (p : Plugin D) :
    Idle p (voteOnBlock net round key p) := by
  unfold voteOnBlock
  split
  · split_ifs
    · exact .refl p
    · refine (idle_updateBlock key (fun b => ?_) p).trans
        (idle_of_newBlocks rfl rfl rfl rfl rfl rfl rfl)
      unfold addBlockVote
      split_ifs <;> exact ⟨rfl, rfl, rfl⟩
  · exact .refl p

/-- `check_block_transactions`: nothing changes but the requests and a flag of a block, and
where it succeeds no transaction is missing. -/
theorem checkBlockTransactions_spec (p : Plugin D) (block : Block) :
    let r := checkBlockTransactions p block
    Idle p r.2 ∧ (∀ other, Listed p.newBlocks other → Listed r.2.newBlocks other) ∧
      (r.1 = .ok → missingTransactions r.2.mempool block.body = []) := by
  have hrequests : ∀ (tids : List (BitVec 64)) (q : Plugin D),
      Idle q (tids.foldl (fun q tid => requestTransaction tid q) q) ∧
        (tids.foldl (fun q tid => requestTransaction tid q) q).newBlocks = q.newBlocks := by
    intro tids
    induction tids with
    | nil => exact fun q => ⟨.refl q, rfl⟩
    | cons tid tids ih =>
        intro q
        obtain ⟨hidle, hblocks⟩ := ih (requestTransaction tid q)
        refine ⟨(idle_requestTransaction tid q).trans hidle, hblocks.trans ?_⟩
        unfold requestTransaction
        split_ifs <;> rfl
  have hset : ∀ (flag : Bool) (b : Block), ({ b with downloadingTxns := flag } : Block).key = b.key ∧
      ({ b with downloadingTxns := flag } : Block).header = b.header ∧
      ({ b with downloadingTxns := flag } : Block).body = b.body := fun _ _ => ⟨rfl, rfl, rfl⟩
  obtain ⟨hidle, hblocks⟩ := hrequests (missingTransactions p.mempool block.body) p
  unfold checkBlockTransactions
  dsimp only
  split_ifs
  · exact ⟨idle_updateBlock _ (hset _) p, fun other h => listed_updateBlock (hset _) h, fun _ =>
      List.isEmpty_iff.1 ‹_›⟩
  · exact ⟨idle_updateBlock _ (hset _) p, fun other h => listed_updateBlock (hset _) h,
      fun h => absurd h (by decide)⟩
  · refine ⟨hidle.trans (idle_updateBlock _ (hset _) _), fun other h =>
      listed_updateBlock (hset _) (hblocks.symm ▸ h), fun _ => ?_⟩
    exact hidle.mempool.symm ▸ List.isEmpty_iff.1 ‹_›
  · exact ⟨hidle.trans (idle_updateBlock _ (hset _) _), fun other h =>
      listed_updateBlock (hset _) (hblocks.symm ▸ h), fun h => absurd h (by decide)⟩

/-! ## Handlers are runs -/

section
variable {net : Net D}

theorem chained_idle {p q : Plugin D} (h : Idle p q) : Chained net p q :=
  .single ⟨.idle, .idle h⟩

/-- A created block has the height and the id of its header. -/
theorem createNewBlock_key {timestamp : ℤ} {p q : Plugin D} {block : Block}
    (h : createNewBlock net timestamp p = (some block, q)) :
    block.key = (block.header.height, block.header.id) ∧ q.newBlocks = p.newBlocks ∧
      q.openBlock = p.openBlock := by
  unfold createNewBlock at h
  dsimp only at h
  split_ifs at h
  · simp at h
  · simp at h
  · split at h
    · simp at h
    · obtain ⟨hblock, rfl⟩ := Prod.mk.inj h
      obtain rfl := Option.some.inj hblock
      exact ⟨rfl, rfl, rfl⟩

theorem createNewBlock_none {timestamp : ℤ} {p q : Plugin D}
    (h : createNewBlock net timestamp p = (none, q)) :
    q.newBlocks = p.newBlocks ∧ q.openBlock = p.openBlock := by
  unfold createNewBlock at h
  dsimp only at h
  split_ifs at h
  · obtain ⟨-, rfl⟩ := Prod.mk.inj h
    exact ⟨rfl, rfl⟩
  · obtain ⟨-, rfl⟩ := Prod.mk.inj h
    exact ⟨rfl, rfl⟩
  · split at h
    · obtain ⟨-, rfl⟩ := Prod.mk.inj h
      exact ⟨rfl, rfl⟩
    · simp at h

/-- `verify_block` opens the block if anything. -/
theorem verifyBlock_openBlock (net : Net D) (p : Plugin D) (block : Block) :
    ((verifyBlock net p block).1 ≠ .ok → (verifyBlock net p block).2.openBlock = p.openBlock) ∧
      (verifyBlock net p block).2.newBlocks = p.newBlocks := by
  have hmark : ∀ (rc : Rc) (q : Plugin D), (markOutdated rc q).openBlock = q.openBlock ∧
      (markOutdated rc q).newBlocks = q.newBlocks := by
    intro rc q
    unfold markOutdated
    split_ifs <;> exact ⟨rfl, rfl⟩
  unfold verifyBlock
  dsimp only
  split_ifs
  · exact ⟨fun _ => (hmark _ _).1, (hmark _ _).2⟩
  · exact ⟨fun _ => (hmark _ _).1, (hmark _ _).2⟩
  · exact ⟨fun _ => (hmark _ _).1, (hmark _ _).2⟩
  · exact ⟨fun h => absurd rfl h, rfl⟩

theorem ChainStep.headerKeyed {p q : Plugin D} {call : Call} (h : ChainStep net p call q)
    (hkeyed : HeaderKeyed p.newBlocks) : HeaderKeyed q.newBlocks := by
  cases h with
  | idle h => exact h.headerKeyed hkeyed
  | arrive _ => exact hkeyed
  | @verify block _ _ _ => rwa [(verifyBlock_openBlock net p block).2]
  | @commit block =>
      unfold commitBlock
      dsimp only
      split_ifs
      · exact (idle_markOutdated _ _).headerKeyed hkeyed
      · refine (idle_startNewBlockTimer net _).headerKeyed fun other hother => ?_
        exact hkeyed other (List.mem_of_mem_eraseP (List.mem_of_mem_filter hother))
  | rollback _ => exact hkeyed
  | @create q _ block _ created =>
      obtain ⟨hkey, hblocks, -⟩ := createNewBlock_key created
      dsimp only
      rw [hblocks]
      refine hkeyed.append fun other hother => ?_
      obtain rfl := List.mem_singleton.1 hother
      exact hkey
  | createFailed _ created => rwa [(createNewBlock_none created).1]
  | authorize _ => exact hkeyed

theorem Chained.headerKeyed {p q : Plugin D} (h : Chained net p q)
    (hkeyed : HeaderKeyed p.newBlocks) : HeaderKeyed q.newBlocks := by
  induction h with
  | refl => exact hkeyed
  | tail _ hstep ih =>
      obtain ⟨call, hstep⟩ := hstep
      exact hstep.headerKeyed ih

theorem chained_rollbackOpenBlock (p : Plugin D) :
    Chained net p (rollbackOpenBlock p) ∧ (rollbackOpenBlock p).openBlock = none ∧
      (rollbackOpenBlock p).newBlocks = p.newBlocks := by
  unfold rollbackOpenBlock
  split_ifs with hopen
  · exact ⟨.single ⟨.rollback, .rollback hopen⟩, rfl, rfl⟩
  · exact ⟨.refl, by simpa using hopen, rfl⟩

/-- A winner of `choose_block_to_vote` is verified, and is not open if that fails. -/
theorem chained_verifyWinner {p : Plugin D} {winner : Block} (hwinner : winner ∈ p.newBlocks) :
    Chained net p (verifyWinner net p winner).2 ∧
      ((verifyWinner net p winner).1 ≠ .ok → (verifyWinner net p winner).2.openBlock = none) := by
  obtain ⟨hroll, hclosed, hblocks⟩ := @chained_rollbackOpenBlock D net p
  obtain ⟨hidle, hlisted, hpresent⟩ := checkBlockTransactions_spec (rollbackOpenBlock p) winner
  have hcheck := hroll.trans (chained_idle hidle)
  have hopen := hidle.openBlock.trans hclosed
  have hlist := hlisted winner ⟨winner, hblocks.symm ▸ hwinner, rfl, rfl, rfl⟩
  unfold verifyWinner
  dsimp only
  split_ifs with hok
  · exact ⟨hcheck.tail ⟨_, .verify hopen hlist (hpresent hok)⟩, fun hne =>
      ((verifyBlock_openBlock net _ winner).1 hne).trans hopen⟩
  · exact ⟨hcheck, fun _ => hopen⟩

/-- The blocks `choose_block_to_vote` excludes are of the list. -/
theorem chained_chooseLoop (fuel : ℕ) {excluded : List Block} {p : Plugin D}
    (hkeyed : HeaderKeyed p.newBlocks) (hexcluded : HeaderKeyed excluded) :
    Chained net p (chooseLoop net fuel excluded p).2.2 ∧
      HeaderKeyed (chooseLoop net fuel excluded p).2.1 := by
  induction fuel generalizing excluded p with
  | zero => exact ⟨.refl, hexcluded⟩
  | succ fuel ih =>
      unfold chooseLoop
      split
      · exact ⟨.refl, hexcluded⟩
      rename_i winner hwinner
      split_ifs
      · exact ⟨.refl, hexcluded⟩
      have hmem : winner ∈ p.newBlocks := by
        have hnext : winner ∈ p.nextBlocks := by
          clear ih
          generalize p.nextBlocks = blocks at hwinner
          induction blocks with
          | nil => simp [lowestWaitTime] at hwinner
          | cons block blocks ihb =>
              unfold lowestWaitTime at hwinner
              split at hwinner
              · exact Option.some.inj hwinner ▸ List.mem_cons_self
              · rename_i other hother
                split_ifs at hwinner
                · exact List.mem_cons_of_mem _ (ihb (hother.trans hwinner))
                · exact Option.some.inj hwinner ▸ List.mem_cons_self
        exact (List.mem_filter.1 hnext).1
      obtain ⟨hchained, hclosed⟩ := @chained_verifyWinner D net p winner hmem
      have hkeyed' := hchained.headerKeyed hkeyed
      generalize verifyWinner net p winner = verified at hchained hclosed hkeyed' ⊢
      dsimp only
      split_ifs with hok
      · exact ⟨hchained, hexcluded⟩
      · have hremove := idle_removeBlock (hclosed hok) winner.key
        have hfound : HeaderKeyed (findBlock winner.key verified.2.newBlocks).toList := by
          intro block hblock
          exact hkeyed' block (List.mem_of_find?_eq_some (Option.mem_toList.1 hblock))
        obtain ⟨hrest, hkept⟩ := ih (hremove.headerKeyed hkeyed') (hexcluded.append hfound)
        exact ⟨(hchained.trans (chained_idle hremove)).trans hrest, hkept⟩

theorem chained_commitWinner {p : Plugin D} {round : Fin 2} {block : Block}
    (hblock : block ∈ p.newBlocks) : Chained net p (commitWinner net round block p) := by
  have hset : ∀ b : Block, (convertBlockVotes round b).key = b.key ∧
      (convertBlockVotes round b).header = b.header ∧
      (convertBlockVotes round b).body = b.body := fun _ => ⟨rfl, rfl, rfl⟩
  obtain ⟨hroll, hclosed, hblocks⟩ := @chained_rollbackOpenBlock D net p
  obtain ⟨hidle, hlisted, hpresent⟩ := checkBlockTransactions_spec (rollbackOpenBlock p) block
  have hcheck := hroll.trans (chained_idle hidle)
  have hlist := hlisted block ⟨block, hblocks.symm ▸ hblock, rfl, rfl, rfl⟩
  unfold commitWinner
  dsimp only
  split_ifs with hopen hok
  · exact (chained_idle (idle_updateBlock block.key hset p)).tail ⟨_, .commit⟩
  · exact hcheck
  · have hconvert := hcheck.trans (chained_idle (idle_updateBlock block.key hset _))
    have hverify := hconvert.tail ⟨_, @ChainStep.verify D net _ (convertBlockVotes round block)
      (hidle.openBlock.trans hclosed) (listed_updateBlock hset hlist)
      (hpresent (not_not.1 hok))⟩
    unfold applyBlock
    dsimp only
    split_ifs
    · exact hverify.tail ⟨_, .commit⟩
    · exact hverify

theorem chained_checkForWinnerBlockWith {choose : Plugin D → Plugin D}
    (hchoose : ∀ p : Plugin D, HeaderKeyed p.newBlocks → Chained net p (choose p)) (round : Fin 2)
    {p : Plugin D} (hkeyed : HeaderKeyed p.newBlocks) :
    Chained net p (checkForWinnerBlockWith net choose round p) := by
  unfold checkForWinnerBlockWith
  by_cases hnone : p.newBlocks = [] ∨ p.isUpdatingState = true
  · rw [if_pos hnone]
    exact .refl
  rw [if_neg hnone]
  split
  · rename_i block hfind
    exact chained_commitWinner (List.mem_filter.1 (List.mem_of_find?_eq_some hfind)).1
  · split_ifs
    · exact .refl
    · exact .refl
    · exact .refl
    · exact .refl
    · exact hchoose p hkeyed

theorem chained_chooseBlockToVoteWith {check : Plugin D → Plugin D}
    (hcheck : ∀ p : Plugin D, HeaderKeyed p.newBlocks → Chained net p (check p)) (round : Fin 2)
    {p : Plugin D} (hkeyed : HeaderKeyed p.newBlocks) :
    Chained net p (chooseBlockToVoteWith net check round p) := by
  unfold chooseBlockToVoteWith
  split_ifs
  · exact .refl
  · exact .refl
  · exact hcheck p hkeyed
  · dsimp only
    have hidle := idle_calculateWaitTimes net p
    obtain ⟨hchosen, hexcluded⟩ := @chained_chooseLoop D net
      (calculateWaitTimes net p).newBlocks.length [] _ (hidle.headerKeyed hkeyed)
      fun block hblock => absurd hblock List.not_mem_nil
    have hloop := (chained_idle hidle).trans hchosen
    clear hchosen
    generalize chooseLoop net (calculateWaitTimes net p).newBlocks.length []
      (calculateWaitTimes net p) = chosen at hloop hexcluded ⊢
    obtain ⟨winner, excluded, q⟩ := chosen
    have hrest : ∀ r, Chained net q r → Chained net p (check { r with
        newBlocks := r.newBlocks ++ excluded }) := by
      intro r hr
      have happend : Chained net p _ :=
        (hloop.trans hr).trans (chained_idle (idle_append r hexcluded))
      exact happend.trans (hcheck _ (happend.headerKeyed hkeyed))
    cases winner with
    | none => exact hrest q .refl
    | some winner => exact hrest _ (chained_idle (idle_voteOnBlock net round winner.key q))

theorem chained_checkForWinnerBlock (round : Fin 2) {p : Plugin D}
    (hkeyed : HeaderKeyed p.newBlocks) : Chained net p (checkForWinnerBlock net round p) := by
  refine chained_checkForWinnerBlockWith (fun q hq => ?_) round hkeyed
  refine chained_chooseBlockToVoteWith (fun r hr => ?_) 1 hq
  exact chained_checkForWinnerBlockWith (fun _ _ => .refl) 1 hr

theorem chained_chooseBlockToVote {p : Plugin D} (hkeyed : HeaderKeyed p.newBlocks) :
    Chained net p (chooseBlockToVote net p) :=
  chained_chooseBlockToVoteWith (fun _ => chained_checkForWinnerBlock 0) 0 hkeyed

/-! ## Events -/

theorem chained_processNewTransaction {p q : Plugin D} (hkeyed : HeaderKeyed p.newBlocks)
    {nodeId nonce : ℤ} {log : Log} (h : processNewTransaction net nodeId nonce log p = some q) :
    Chained net p q := by
  unfold processNewTransaction at h
  obtain ⟨result, hstore, rfl⟩ := Option.map_eq_some_iff.1 h
  cases result with
  | error rc => exact .refl
  | ok mempool =>
      have harrive : Chained net p { p with mempool } := .single ⟨_, .arrive hstore⟩
      have hrequest : Idle { p with mempool } (requestedTransactionArrived
          (buildTransactionId nodeId nonce) { p with mempool }).2 :=
        idle_of_newBlocks rfl rfl rfl rfl rfl rfl rfl
      have harrived := harrive.trans (chained_idle hrequest)
      unfold processArrivedTransaction
      dsimp only at harrived ⊢
      generalize requestedTransactionArrived (buildTransactionId nodeId nonce)
        { p with mempool } = r at harrived ⊢
      split_ifs with hrequested hchoose hchoose
      · exact harrived.trans
          (chained_chooseBlockToVote (Chained.headerKeyed harrived hkeyed))
      · exact harrived
      · exact absurd hchoose.1 hrequested
      · exact harrived.trans (chained_idle (idle_startNewBlockTimer net _))

/-- The votes that are transferred leave a block what it is. -/
theorem transferBlockVotes_key (votes : List StoredVote) (block : Block) :
    (transferBlockVotes votes block).key = block.key ∧
      (transferBlockVotes votes block).header = block.header := by
  unfold transferBlockVotes
  induction votes generalizing block with
  | nil => exact ⟨rfl, rfl⟩
  | cons vote votes ih =>
      rw [List.foldl_cons]
      obtain ⟨hkey, hheader⟩ := ih (if vote.height = block.height ∧ vote.blockId = block.id then
        addBlockVote vote.round vote.nodeId vote.sig block else block)
      rw [hkey, hheader]
      unfold addBlockVote
      split_ifs <;> exact ⟨rfl, rfl⟩

theorem chained_addNewBlock {p : Plugin D} (hkeyed : HeaderKeyed p.newBlocks) (header : Header)
    (body : Body) (vrfOutput : Bytes) :
    Chained net p (addNewBlock net header body vrfOutput p) := by
  unfold addNewBlock
  split_ifs
  · exact .refl
  · exact .refl
  dsimp only
  have hblock := transferBlockVotes_key p.blockVotes
    ⟨header.height, header.id, header, body, [], vrfOutput, 0, fun _ => [], fun _ => 0, false⟩
  generalize transferBlockVotes p.blockVotes _ = block at hblock ⊢
  have hadd : HeaderKeyed [block] := by
    intro other hother
    obtain rfl := List.mem_singleton.1 hother
    rw [hblock.1, hblock.2]
    rfl
  have hidle := (checkBlockTransactions_spec { p with newBlocks := p.newBlocks ++ [block] } block).1
  have hadded := (idle_append p hadd).trans hidle
  generalize checkBlockTransactions { p with newBlocks := p.newBlocks ++ [block] } block = r
    at hadded ⊢
  split_ifs
  · exact chained_idle (hadded.trans (idle_requestStateUpdate r.2))
  · exact chained_idle (hadded.trans (idle_startBlockWaitTimer r.2))
  · have hstart := hadded.trans (idle_startBlockWaitTimer r.2)
    exact (chained_idle hstart).trans
      (chained_checkForWinnerBlock 0 (hstart.headerKeyed hkeyed))

theorem chained_countVote (vote : StoredVote) {p : Plugin D} (hkeyed : HeaderKeyed p.newBlocks) :
    Chained net p (countVote net vote p) := by
  have hstore : ∀ votes, Idle p { p with blockVotes := votes } :=
    fun _ => idle_of_newBlocks rfl rfl rfl rfl rfl rfl rfl
  unfold countVote
  dsimp only
  split
  · split_ifs
    · exact chained_idle ((hstore _).trans (idle_requestStateUpdate _))
    · exact chained_idle (hstore _)
    · exact chained_idle (idle_requestStateUpdate p)
    · exact .refl
  · split_ifs
    · exact .refl
    · have hset : ∀ b : Block,
          (addBlockVote vote.round vote.nodeId vote.sig b).key = b.key ∧
            (addBlockVote vote.round vote.nodeId vote.sig b).header = b.header ∧
            (addBlockVote vote.round vote.nodeId vote.sig b).body = b.body := by
        intro b
        unfold addBlockVote
        split_ifs <;> exact ⟨rfl, rfl, rfl⟩
      have hadd := idle_updateBlock (vote.height, vote.blockId) hset p
      exact (chained_idle hadd).trans
        (chained_checkForWinnerBlock vote.round (hadd.headerKeyed hkeyed))

theorem chained_onNewBlockTimeout (timestamp : ℤ) (p : Plugin D) :
    Chained net p (onNewBlockTimeout net timestamp p) := by
  have hstop : Idle p { p with newBlockTimer := false } :=
    idle_of_newBlocks rfl rfl rfl rfl rfl rfl rfl
  obtain ⟨hroll, hclosed, -⟩ := @chained_rollbackOpenBlock D net { p with newBlockTimer := false }
  have hstart := (chained_idle hstop).trans hroll
  unfold onNewBlockTimeout
  generalize rollbackOpenBlock { p with newBlockTimer := false } = q at hstart hclosed ⊢
  have hcount : Idle q (canCreateBlock q).2 := idle_of_newBlocks rfl rfl rfl rfl rfl rfl rfl
  have hready := hstart.trans (chained_idle hcount)
  have hopen := hcount.openBlock.trans hclosed
  dsimp only
  split_ifs
  · exact hstart
  · exact hready
  generalize (canCreateBlock q).2 = r at hready hopen ⊢
  cases hcreated : createNewBlock net timestamp r with
  | mk block s =>
      cases block with
      | none =>
          exact (hready.tail ⟨_, .createFailed hopen hcreated⟩).trans
            (chained_idle (idle_of_newBlocks rfl rfl rfl rfl rfl rfl rfl))
      | some block =>
          exact (hready.tail ⟨_, .create hopen hcreated⟩).trans
            (chained_idle (idle_startBlockWaitTimer _))

theorem chained_onNewAuthorization {p q : Plugin D} {log : Log} {fromThisNode : Bool}
    (h : onNewAuthorization net log fromThisNode p = some q) : Chained net p q := by
  unfold onNewAuthorization at h
  obtain ⟨result, hnew, rfl⟩ := Option.map_eq_some_iff.1 h
  cases result with
  | error rc => exact .refl
  | ok r =>
      obtain ⟨authorizations, auth⟩ := r
      have hadd : Chained net p { p with core := { p.core with authorizations } } :=
        .single ⟨_, .authorize hnew⟩
      have hnote : Idle { p with core := { p.core with authorizations } }
          (noteAuthorization auth fromThisNode (countAuthorizedNodes
            { p with core := { p.core with authorizations } })) :=
        idle_of_newBlocks rfl rfl rfl rfl rfl rfl rfl
      dsimp only
      split_ifs
      · exact hadd.trans (chained_idle (hnote.trans (idle_startNewBlockTimer net _)))
      · exact hadd.trans (chained_idle hnote)

/-- **The handlers are runs of calls.** -/
theorem step_chained {p q : Plugin D} {e : Event} (hkeyed : HeaderKeyed p.newBlocks)
    (h : step net p e = some q) : Chained net p q := by
  cases e with
  | transaction nodeId nonce log => exact chained_processNewTransaction hkeyed h
  | newBlock header body proof =>
      obtain rfl := Option.some.inj h
      unfold onNewBlock
      split_ifs
      · exact .refl
      · exact .refl
      · split
        · exact .refl
        · exact chained_addNewBlock hkeyed header body _
  | blockVote msg =>
      obtain rfl := Option.some.inj h
      unfold onBlockVote
      split_ifs
      · exact chained_countVote msg.vote hkeyed
      · exact .refl
  | blockWaitTimeout =>
      obtain ⟨-, rfl⟩ : p.blockWaitTimer = true ∧ onBlockWaitTimeout net p = q := by
        simpa [step] using h
      have hstop : Idle p { p with
          blockWaitTimer := false
          newBlockTimer := false } := idle_of_newBlocks rfl rfl rfl rfl rfl rfl rfl
      exact (chained_idle hstop).trans (chained_chooseBlockToVote (hstop.headerKeyed hkeyed))
  | newBlockTimeout timestamp =>
      obtain ⟨-, rfl⟩ : p.newBlockTimer = true ∧ onNewBlockTimeout net timestamp p = q := by
        simpa [step] using h
      exact chained_onNewBlockTimeout timestamp p
  | newAuthorization log fromThisNode => exact chained_onNewAuthorization h
  | stateRequested =>
      obtain rfl := Option.some.inj h
      exact (chained_rollbackOpenBlock p).1
  | requestFinished tid | peersChanged peers | syncChanged state =>
      obtain rfl := Option.some.inj h
      exact chained_idle (idle_of_newBlocks rfl rfl rfl rfl rfl rfl rfl)

/-- What a run of calls reaches is reachable. -/
theorem Chained.reachable {p q : Plugin D} (h : Chained net p q) (hp : (chain net).Reachable p) :
    (chain net).Reachable q := by
  induction h with
  | refl => exact hp
  | tail _ hstep ih =>
      obtain ⟨call, hstep⟩ := hstep
      exact .step call ih hstep

theorem headerKeyed_of_fresh {p : Plugin D} (h : p.Fresh) : HeaderKeyed p.newBlocks := by
  intro block hblock
  rw [h.newBlocks] at hblock
  exact absurd hblock List.not_mem_nil

/-- **What a node reaches, its calls reach.** -/
theorem reachable_chain {p : Plugin D} (h : (node net).Reachable p) :
    (chain net).Reachable p ∧ HeaderKeyed p.newBlocks := by
  induction h with
  | init h => exact ⟨.init h, headerKeyed_of_fresh h⟩
  | step e _ hs ih =>
      have hpath := step_chained ih.2 hs
      exact ⟨Chained.reachable hpath ih.1, Chained.headerKeyed hpath ih.2⟩

end

end NoLeader
end AergoLite
