/-
# The consensus handlers

`plugins/no-leader/consensus.c`: what a node does when a transaction, a block or
a vote arrives and when one of its two timers fires.  A handler is a function on
the state of the plugin.

The two functions that call each other, `choose_block_to_vote` and
`check_for_winner_block`, do so at most once more in the second round, after
which `check_for_winner_block` returns; `chooseBlockToVoteWith` and
`checkForWinnerBlockWith` are their bodies, with the call as a parameter.
-/

import AergoLite.NoLeader.Plugin

namespace AergoLite
namespace NoLeader

open AergoLite.Core

variable {D : Type}

/-- `rollback_block`. -/
def rollbackBlock (p : Plugin D) : Plugin D :=
  { p with
    core := aergoliteRollbackBlock p.core
    openBlock := none }

/-- `if( plugin->open_block ) rollback_block(plugin)`. -/
def rollbackOpenBlock (p : Plugin D) : Plugin D :=
  if p.openBlock.isSome then rollbackBlock p else p

/-- The id of a transaction without the flag of a failed one. -/
def maskTxnId (tid : BitVec 64) : BitVec 64 := tid &&& ~~~failedFlag

/-- The transaction of the mempool with an id. -/
def findTransaction (mempool : List Transaction) (tid : BitVec 64) : Option Transaction :=
  mempool.find? fun txn => txn.id == tid

/-- The ids of a block whose transactions are not in the mempool. -/
def missingTransactions (mempool : List Transaction) (body : Body) : List (BitVec 64) :=
  (body.txnIds.map maskTxnId).filter fun tid => (findTransaction mempool tid).isNone

/-- `check_block_transactions`: the missing transactions are requested, unless
they were before. -/
def checkBlockTransactions (p : Plugin D) (block : Block) : Rc × Plugin D :=
  let missing := missingTransactions p.mempool block.body
  let p := if block.downloadingTxns then p
    else missing.foldl (fun p tid => requestTransaction tid p) p
  let p := { p with
    newBlocks := updateBlock block.key
      (fun block => { block with downloadingTxns := !missing.isEmpty }) p.newBlocks }
  (if missing.isEmpty then .ok else .busy, p)

/-- The loop of `verify_block` over the transactions of the block, which have been
found in the mempool before.  The result is `none` where a transaction that is
flagged as failed succeeds: the code leaves the loop with `rc==SQLITE_OK`. -/
def verifyTransactions (net : Net D) (mempool : List Transaction) :
    List (BitVec 64) → Aergolite D → Option Rc × Aergolite D
  | [], core => (some .ok, core)
  | tid :: tids, core =>
    match findTransaction mempool (maskTxnId tid) with
    | none => (some .error, core)
    | some txn =>
      let (rc, core) := aergoliteExecuteTransaction net.toEnv core txn.nodeId txn.nonce txn.log
      if rc = .busy then (some .busy, core)
      else if rc ≠ .ok ∧ tid.msb = false then (some rc, core)
      else if rc = .ok ∧ tid.msb = true then (none, core)
      else verifyTransactions net mempool tids core

/-- `verify_block`.  It returns `SQLITE_OK`, with the block rolled back, where a
transaction that is flagged as failed succeeds. -/
def verifyBlock (net : Net D) (p : Plugin D) (block : Block) : Rc × Plugin D :=
  let (rc, core) := aergoliteBeginBlock p.core
  if rc ≠ .ok then (rc, markOutdated rc { p with core })
  else
    let (result, core) := verifyTransactions net p.mempool block.body.txnIds core
    let rc := result.getD .ok
    if result ≠ some .ok then
      (rc, markOutdated rc { p with core := aergoliteRollbackBlock core })
    else
      let (rc, core) := aergoliteVerifyBlock net.toEnv core block.header block.body
      if rc ≠ .ok then (rc, markOutdated rc { p with core := aergoliteRollbackBlock core })
      else (.ok, { p with
        core
        openBlock := some block.key })

/-- The mempool after a commit: the transactions of the block are marked, for each
of them one that is two blocks old is dropped, and so are the unused ones whose
nonce is used (`check_mempool_transactions`). -/
def updateMempool (auths : List NodeAuth) (block : Block) (mempool : List Transaction) :
    List Transaction :=
  let tids := block.body.txnIds.map maskTxnId
  let marked := mempool.map fun txn =>
    if txn.id ∈ tids then { txn with blockHeight := block.height } else txn
  let kept := tids.foldl (fun mempool _ => mempool.eraseP fun txn =>
    decide (0 < txn.blockHeight) && decide (txn.blockHeight ≤ block.height - 2)) marked
  kept.filter fun txn => !(txn.blockHeight == 0 && auths.any fun auth =>
    auth.nodeId == txn.nodeId && decide (txn.nonce ≤ auth.lastNonce))

/-- What `commit_block` does once the core has committed the block: it is the current
block, and what is of no more use is discarded. -/
def replaceCurrentBlock (core : Aergolite D) (block : Block) (p : Plugin D) : Plugin D :=
  countAuthorizedNodes { p with
    core
    mempool := updateMempool core.authorizations block p.mempool
    currentBlock := some block
    newBlocks := (removeBlock block.key p.newBlocks).filter fun other =>
      decide (block.height < other.height)
    openBlock := none
    blockVotes := p.blockVotes.filter fun vote => decide (block.height ≤ vote.height)
    committed := p.committed ++ [⟨block, p.core.authorizations⟩] }

/-- `commit_block`. -/
def commitBlock (net : Net D) (p : Plugin D) (block : Block) : Rc × Plugin D :=
  let (rc, core) := aergoliteCommitBlock net.toEnv p.core block.header block.body block.votes
  if rc ≠ .ok then (rc, markOutdated rc { p with
    core
    refused := p.refused ++ p.openBlock.toList })
  else (.ok, startNewBlockTimer net (replaceCurrentBlock core block p))

/-- `apply_block`. -/
def applyBlock (net : Net D) (p : Plugin D) (block : Block) : Plugin D :=
  let (rc, p) := verifyBlock net p block
  if rc = .ok then (commitBlock net p block).2 else p

/-- `vote_on_block`, on the block under a key: it is signed, the vote is counted and
sent to the peers. -/
def voteOnBlock (net : Net D) (round : Fin 2) (key : ℤ × Bytes) (p : Plugin D) : Plugin D :=
  match findBlock key p.newBlocks, aergoliteSignRaw net.toEnv p.core key.2 with
  | some block, .ok sig =>
      if block.hasVote round p.nodeId then p
      else { p with
        newBlocks := updateBlock key (addBlockVote round p.nodeId sig) p.newBlocks
        lastVoteHeight := key.1
        lastVoteRound := round
        sent := p.sent ++ [⟨key.1, round, key.2⟩] }
  | _, _ => p

/-- The number of nodes `check_for_winner_block` takes the majority of. -/
def Plugin.numAuthorizedNodes (p : Plugin D) : ℕ :=
  if 0 < p.currentHeight then p.activeAuthorizedNodes else p.totalAuthorizedNodes

/-- The blocks of the next height. -/
def Plugin.nextBlocks (p : Plugin D) : List Block :=
  p.newBlocks.filter fun block => block.height == p.currentHeight + 1

/-- No block of the next height can reach the majority in the first round: the test
on `possible_votes`. -/
def Plugin.undecidable (p : Plugin D) : Bool :=
  let n := p.numAuthorizedNodes
  let remaining : ℤ := n - (p.nextBlocks.map fun block => block.numVotes 0).sum
  p.nextBlocks.all fun block => decide ((block.numVotes 0 : ℤ) + remaining < majority n)

/-- What `check_for_winner_block` does with a winner: its votes are converted, and
it is committed if it is open, or else verified and committed. -/
def commitWinner (net : Net D) (round : Fin 2) (block : Block) (p : Plugin D) : Plugin D :=
  let convert (p : Plugin D) : Plugin D :=
    { p with newBlocks := updateBlock block.key (convertBlockVotes round) p.newBlocks }
  if p.openBlock = some block.key then (commitBlock net (convert p) (convertBlockVotes round block)).2
  else
    let (rc, p) := checkBlockTransactions (rollbackOpenBlock p) block
    if rc ≠ .ok then p else applyBlock net (convert p) (convertBlockVotes round block)

/-- `check_for_winner_block`, with the call of `choose_block_to_vote(plugin, 1)`. -/
def checkForWinnerBlockWith (net : Net D) (chooseBlockToVote : Plugin D → Plugin D)
    (round : Fin 2) (p : Plugin D) : Plugin D :=
  if p.newBlocks = [] ∨ p.isUpdatingState then p
  else match p.nextBlocks.find? fun block =>
      decide (majority p.numAuthorizedNodes ≤ block.numVotes round) with
    | some block => commitWinner net round block p
    | none =>
      if round = 1 then p
      else if p.lastVoteHeight = p.currentHeight + 1 ∧ p.lastVoteRound = 1 then p
      else if !p.undecidable then p
      else if p.blockWaitTimer then p
      else chooseBlockToVote p

/-- The wait times of the blocks of the next height are computed. -/
def calculateWaitTimes (net : Net D) (p : Plugin D) : Plugin D :=
  { p with newBlocks := p.newBlocks.map fun block =>
      if block.height = p.currentHeight + 1 then { block with
        waitTime := net.calculateWaitInterval block.vrfOutput p.totalAuthorizedNodes
          p.blockInterval }
      else block }

/-- The first block with the lowest wait time. -/
def lowestWaitTime : List Block → Option Block
  | [] => none
  | block :: blocks =>
    match lowestWaitTime blocks with
    | none => some block
    | some winner => if winner.waitTime < block.waitTime then some winner else some block

/-- What `choose_block_to_vote` does with a winner that is not open. -/
def verifyWinner (net : Net D) (p : Plugin D) (winner : Block) : Rc × Plugin D :=
  let r := checkBlockTransactions (rollbackOpenBlock p) winner
  if r.1 = .ok then verifyBlock net r.2 winner else r

/-- The loop of `choose_block_to_vote`: blocks that cannot be verified are moved to
the list `excluded`, until one can be voted on or none is left.  `fuel` bounds the
number of blocks. -/
def chooseLoop (net : Net D) : ℕ → List Block → Plugin D → Option Block × List Block × Plugin D
  | 0, excluded, p => (none, excluded, p)
  | fuel + 1, excluded, p =>
    match lowestWaitTime p.nextBlocks with
    | none => (none, excluded, p)
    | some winner =>
      if p.openBlock = some winner.key then (some winner, excluded, p)
      else
        let (rc, p) := verifyWinner net p winner
        if rc = .ok then (some winner, excluded, p)
        else chooseLoop net fuel (excluded ++ (findBlock winner.key p.newBlocks).toList)
          { p with newBlocks := removeBlock winner.key p.newBlocks }

/-- `choose_block_to_vote`, with the call of `check_for_winner_block`. -/
def chooseBlockToVoteWith (net : Net D) (checkForWinnerBlock : Plugin D → Plugin D)
    (round : Fin 2) (p : Plugin D) : Plugin D :=
  if p.lastVoteHeight = p.currentHeight + 1 ∧ p.lastVoteRound = round then p
  else if p.isUpdatingState then p
  else if !p.canVoteOnBlock p.nodeId (p.currentHeight + 1) then checkForWinnerBlock p
  else
    let p := calculateWaitTimes net p
    let (winner, excluded, p) := chooseLoop net p.newBlocks.length [] p
    let p := match winner with
      | none => p
      | some winner => voteOnBlock net round winner.key p
    checkForWinnerBlock { p with newBlocks := p.newBlocks ++ excluded }

/-- `check_for_winner_block` and `choose_block_to_vote` in the second round, which
they do not leave. -/
def chooseAgain (net : Net D) : Plugin D → Plugin D :=
  chooseBlockToVoteWith net (checkForWinnerBlockWith net id 1) 1

/-- `check_for_winner_block`. -/
def checkForWinnerBlock (net : Net D) (round : Fin 2) : Plugin D → Plugin D :=
  checkForWinnerBlockWith net (chooseAgain net) round

/-- `choose_block_to_vote(plugin, 0)`. -/
def chooseBlockToVote (net : Net D) : Plugin D → Plugin D :=
  chooseBlockToVoteWith net (checkForWinnerBlock net 0) 0

/-- `start_block_wait_timer`. -/
def startBlockWaitTimer (p : Plugin D) : Plugin D :=
  if p.lastVoteHeight = p.currentHeight + 1 then p
  else if !p.canVoteOnBlock p.nodeId (p.currentHeight + 1) then p
  else { p with blockWaitTimer := true }

end NoLeader
end AergoLite
