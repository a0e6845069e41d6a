/-
# The events of a node

What arrives at a node and what it does then: transactions
(`process_new_transaction` of `transactions.c`), blocks, votes, the two timers
(`consensus.c`) and authorizations (`allowed_nodes.c`).  `step` is the node as a
state machine; it refuses an event that cannot occur, such as the firing of a timer
that is not active.
-/

import AergoLite.NoLeader.Consensus
import AergoLite.Library.Transition

namespace AergoLite
namespace NoLeader

open AergoLite.Core

variable {D : Type}

/-- `process_arrived_transaction`: whether the transaction was requested. -/
def processArrivedTransaction (net : Net D) (tid : BitVec 64) (p : Plugin D) : Bool × Plugin D :=
  let (isRequested, p) := requestedTransactionArrived tid p
  (isRequested,
    if isRequested ∧ p.newBlocks ≠ [] ∧ p.blockWaitTimer = false then chooseBlockToVote net p
    else p)

/-- `process_new_transaction`. -/
def processNewTransaction (net : Net D) (nodeId nonce : ℤ) (log : Log) (p : Plugin D) :
    Option (Plugin D) :=
  (storeTransactionOnMempool net.crypto p.core.adminPubkey p.core.authorizations p.mempool nodeId
    nonce log).map fun result =>
    match result with
    | .error _ => p
    | .ok mempool =>
      let (isRequested, p) :=
        processArrivedTransaction net (buildTransactionId nodeId nonce) { p with mempool }
      if isRequested then p else startNewBlockTimer net p

/-- `verify_proof`: the output of the proof of an authorized node. -/
def verifyProof (net : Net D) (p : Plugin D) (blockHeight nodeId : ℤ) (proof : Bytes) :
    Except Rc Bytes :=
  match aergoliteGetAuthorization p.core.authorizations nodeId with
  | none => .error .notfound
  | some auth =>
    match net.vrfVerify auth.pk blockHeight proof with
    | none => .error .invalid
    | some output => .ok output

/-- `on_new_block`, of a block whose header and proof have been verified. -/
def addNewBlock (net : Net D) (header : Header) (body : Body) (vrfOutput : Bytes)
    (p : Plugin D) : Plugin D :=
  if (findBlock (header.height, header.id) p.newBlocks).isSome then p
  else if header.height ≤ p.currentHeight then p
  else
    let block := transferBlockVotes p.blockVotes
      { height := header.height
        id := header.id
        header
        body
        votes := []
        vrfOutput
        waitTime := 0
        tempVotes := fun _ => []
        numVotes := fun _ => 0
        downloadingTxns := false }
    let (rc, p) := checkBlockTransactions { p with newBlocks := p.newBlocks ++ [block] } block
    if p.currentHeight + 1 < header.height then requestStateUpdate p
    else
      let p := startBlockWaitTimer p
      if rc ≠ .ok then p else checkForWinnerBlock net 0 p

/-- `on_new_block`. -/
def onNewBlock (net : Net D) (header : Header) (body : Body) (proof : Bytes) (p : Plugin D) :
    Plugin D :=
  if aergoliteVerifyBlockHeader net.toEnv p.core header body ≠ .ok then p
  else if proof.length ≠ 81 then p
  else match verifyProof net p header.height header.nodeId proof with
    | .error _ => p
    | .ok vrfOutput => addNewBlock net header body vrfOutput p

/-- The checks `on_block_vote` makes on a message. -/
def VoteMessage.accepted (net : Net D) (p : Plugin D) (msg : VoteMessage) : Bool :=
  decide (msg.id.length = 32) && decide (msg.sig.length = 64) && decide (0 ≤ msg.round) &&
    decide (msg.round ≤ 1) &&
    decide (p.core.verifyRaw net.toEnv msg.id msg.nodeId msg.sig = .ok)

/-- The vote a message carries. -/
def VoteMessage.vote (msg : VoteMessage) : StoredVote :=
  ⟨msg.nodeId, if msg.round = 1 then 1 else 0, msg.height, msg.id, msg.sig⟩

/-- `on_block_vote`, of a vote that has been accepted. -/
def countVote (net : Net D) (vote : StoredVote) (p : Plugin D) : Plugin D :=
  let key := (vote.height, vote.blockId)
  match findBlock key p.newBlocks with
  | none =>
      let p := if p.currentHeight < vote.height then
        { p with blockVotes := storeBlockVote vote p.blockVotes } else p
      if p.currentHeight + 1 < vote.height then requestStateUpdate p else p
  | some block =>
      if block.hasVote vote.round vote.nodeId then p
      else checkForWinnerBlock net vote.round { p with
        newBlocks := updateBlock key (addBlockVote vote.round vote.nodeId vote.sig) p.newBlocks }

/-- `on_block_vote`. -/
def onBlockVote (net : Net D) (msg : VoteMessage) (p : Plugin D) : Plugin D :=
  if msg.accepted net p then countVote net msg.vote p else p

/-- `on_block_wait_timeout`; the timer is not active any more. -/
def onBlockWaitTimeout (net : Net D) (p : Plugin D) : Plugin D :=
  chooseBlockToVote net { p with
    blockWaitTimer := false
    newBlockTimer := false }

/-- `update_last_nonce_array`. -/
def updateLastNonceArray (nodeId nonce : ℤ) (nonces : List (ℤ × ℤ)) : List (ℤ × ℤ) :=
  if nonces.any fun item => item.1 == nodeId then
    nonces.map fun item => if item.1 = nodeId then (nodeId, nonce) else item
  else nonces ++ [(nodeId, nonce)]

/-- `build_last_nonce_array`: the last nonces of the nodes that have unused
transactions. -/
def buildLastNonceArray (p : Plugin D) : List (ℤ × ℤ) :=
  p.core.authorizations.foldl (fun nonces auth =>
    if p.mempool.any fun txn => txn.nodeId == auth.nodeId && txn.blockHeight == 0 then
      updateLastNonceArray auth.nodeId auth.lastNonce nonces
    else nonces) []

/-- `is_next_nonce`. -/
def isNextNonce (nonces : List (ℤ × ℤ)) (nodeId nonce : ℤ) : Bool :=
  (nonces.any fun item => item.1 == nodeId && nonce == item.2 + 1) ||
    (!(nonces.any fun item => item.1 == nodeId) && nonce == 1)

/-- One pass of `create_new_block` over the mempool: the first transaction that is
included, if any; those that are refused are passed over. -/
def includeNext (net : Net D) (nonces : List (ℤ × ℤ)) :
    List Transaction → Aergolite D → Option Transaction × Aergolite D
  | [], core => (none, core)
  | txn :: txns, core =>
    if txn.blockHeight = 0 ∧ isNextNonce nonces txn.nodeId txn.nonce then
      let (rc, core) := aergoliteExecuteTransaction net.toEnv core txn.nodeId txn.nonce txn.log
      if rc = .perm then includeNext net nonces txns core else (some txn, core)
    else includeNext net nonces txns core

/-- `txn->block_height = -1`, with the other transactions of the same node and nonce, which
is not the next one any more. -/
def markIncluded (txn : Transaction) (mempool : List Transaction) : List Transaction :=
  mempool.map fun other =>
    if other.nodeId = txn.nodeId ∧ other.nonce = txn.nonce then { other with blockHeight := -1 }
    else other

/-- The passes of `create_new_block`, at most one for each transaction. -/
def includeTransactions (net : Net D) :
    ℕ → List (ℤ × ℤ) → List Transaction → ℕ → Aergolite D → ℕ × Aergolite D
  | 0, _, _, count, core => (count, core)
  | fuel + 1, nonces, mempool, count, core =>
    match includeNext net nonces mempool core with
    | (none, core) => (count, core)
    | (some txn, core) =>
      includeTransactions net fuel (updateLastNonceArray txn.nodeId txn.nonce nonces)
        (markIncluded txn mempool) (count + 1) core

/-- `create_new_block`, at a time, without the checks made first: the block, or
`none` for a failure. -/
def createNewBlock (net : Net D) (timestamp : ℤ) (p : Plugin D) : Option Block × Plugin D :=
  let nonces := buildLastNonceArray p
  let (rc, core) := aergoliteBeginBlock p.core
  if rc ≠ .ok then (none, { p with core })
  else
    let (count, core) := includeTransactions net p.mempool.length nonces p.mempool 0 core
    if count = 0 then (none, { p with core := aergoliteRollbackBlock core })
    else match aergoliteCreateBlock net.toEnv timestamp core with
      | (.error _, core) => (none, { p with core })
      | (.ok (header, body), core) =>
        (some
          { height := header.height
            id := header.id
            header
            body
            votes := []
            vrfOutput := p.blockVrfOutput
            waitTime := 0
            tempVotes := fun _ => []
            numVotes := fun _ => 0
            downloadingTxns := false },
          { p with
            core
            lastCreatedBlockHeight := header.height })

/-- `new_block_timer_cb`; the timer is not active any more. -/
def onNewBlockTimeout (net : Net D) (timestamp : ℤ) (p : Plugin D) : Plugin D :=
  let p := rollbackOpenBlock { p with newBlockTimer := false }
  if countMempoolUnusedTxns p = 0 then p
  else
    let (canCreate, p) := canCreateBlock p
    if !canCreate then p
    else match createNewBlock net timestamp p with
      | (none, p) => { p with newBlockTimer := true }
      | (some block, p) => startBlockWaitTimer { p with
          newBlocks := p.newBlocks ++ [block]
          openBlock := some block.key }

/-- What `on_new_authorization` notes of a node that has been added to the list: if it
is this one, and the first one, the node is in sync; if it is connected, the peer is
authorized. -/
def noteAuthorization (auth : NodeAuth) (fromThisNode : Bool) (p : Plugin D) : Plugin D :=
  { p with
    syncDownState :=
      if auth.pk = p.core.pubkey ∧ fromThisNode ∧ p.currentBlock.isNone then .inSync
      else p.syncDownState
    peers := p.peers.map fun peer =>
      if peer.pubkey = auth.pk then { peer with isAuthorized := true } else peer }

/-- `on_new_authorization`.  The timer for a new block is started if the node is
connected. -/
def onNewAuthorization (net : Net D) (log : Log) (fromThisNode : Bool) (p : Plugin D) :
    Option (Plugin D) :=
  (aergoliteNewAuthorization net.crypto net.codec p.core.adminPubkey p.core.authorizations
    log).map fun result =>
    match result with
    | .error _ => p
    | .ok (authorizations, auth) =>
      let p := noteAuthorization auth fromThisNode
        (countAuthorizedNodes { p with core := { p.core with authorizations } })
      if p.peers.any fun peer => peer.pubkey == auth.pk then startNewBlockTimer net p else p

/-- What can happen to a node. -/
inductive Event
  | transaction (nodeId nonce : ℤ) (log : Log)
  | newBlock (header : Header) (body : Body) (proof : Bytes)
  | blockVote (msg : VoteMessage)
  | blockWaitTimeout
  | newBlockTimeout (timestamp : ℤ)
  | newAuthorization (log : Log) (fromThisNode : Bool)
  /-- A request for a transaction ends, as there is no other node to ask. -/
  | requestFinished (tid : BitVec 64)
  /-- Nodes connect or disconnect. -/
  | peersChanged (peers : List Peer)
  /-- The synchronization with other nodes (`state_update.c`) reports a state. -/
  | syncChanged (state : DbState)
  /-- A page or the request of a state update arrives: an open block is rolled back. -/
  | stateRequested

/-- The vote message that arrives. -/
def Event.message : Event → Option VoteMessage
  | .blockVote msg => some msg
  | _ => none

/-- The time at which the timer for a new block fires. -/
def Event.creationTime : Event → Option ℤ
  | .newBlockTimeout timestamp => some timestamp
  | _ => none

/-- What a node does then. -/
def step (net : Net D) (p : Plugin D) : Event → Option (Plugin D)
  | .transaction nodeId nonce log => processNewTransaction net nodeId nonce log p
  | .newBlock header body proof => some (onNewBlock net header body proof p)
  | .blockVote msg => some (onBlockVote net msg p)
  | .blockWaitTimeout => if p.blockWaitTimer then some (onBlockWaitTimeout net p) else none
  | .newBlockTimeout timestamp =>
      if p.newBlockTimer then some (onNewBlockTimeout net timestamp p) else none
  | .newAuthorization log fromThisNode => onNewAuthorization net log fromThisNode p
  | .requestFinished tid => some { p with requests := p.requests.erase tid }
  | .peersChanged peers => some { p with peers }
  | .syncChanged state => some { p with syncDownState := state }
  | .stateRequested => some (rollbackOpenBlock p)

/-- A node that starts: it has loaded a block or none, no block is open, and it has
counted the nodes of its list. -/
structure Plugin.Fresh (p : Plugin D) : Prop where
  height : 0 ≤ p.currentHeight
  blockHeight : p.core.blockHeight = p.currentHeight
  closed : p.core.saved = none ∧ p.core.txnIds = none ∧ p.core.activeBlock.verified = none
  counted : p = countAuthorizedNodes p
  mempool : p.mempool = []
  newBlocks : p.newBlocks = []
  openBlock : p.openBlock = none
  blockVotes : p.blockVotes = []
  lastVote : p.lastVoteHeight = 0
  blockWaitTimer : p.blockWaitTimer = false
  sent : p.sent = []
  committed : p.committed = []
  refused : p.refused = []

/-- The node as a transition system. -/
def node (net : Net D) : Transition.System (Plugin D) Event :=
  .ofStep Plugin.Fresh (step net)

/-! ## Nodes to evaluate the handlers with -/

/-- The proof of a key is accepted for its output, the first byte of the key, and the
wait time is that byte. -/
def plainNet : Net Unit where
  toEnv := plainEnv
  vrfVerify pubkey _ _ := some (pubkey.take 1)
  vrfProve pubkey _ := some (pubkey.take 1)
  calculateWaitInterval output _ _ := (output.headD 0).toNat

/-- The public key of a node. -/
def keyOf (n : ℕ) : Bytes := List.replicate 33 (UInt8.ofNat n)

/-- The block at height 1. -/
def firstBlock : Block :=
  ⟨1, [], ⟨1, [], [], [], 1, [], []⟩, ⟨[], []⟩, [], [], 0, fun _ => [], fun _ => 0, false⟩

/-- A node of a network of three that are connected, with its authorization list; those
of them that the chain has authorized have a row. -/
def startNodeWith (n : ℕ) (authorizations : List NodeAuth) : Plugin Unit :=
  countAuthorizedNodes
    { nodeId := n
      core := { freshAergolite n (keyOf n) authorizations
        ((authorizations.filter fun auth => decide (0 < auth.sinceBlock)).map fun auth =>
          ⟨auth.nodeId, auth.pk, auth.sinceBlock, "light".toList, 0⟩) with blockHeight := 1 }
      peers := ([1, 2, 3].filter (· ≠ n)).map fun n : ℕ => ⟨n, keyOf n, true⟩
      totalAuthorizedNodes := 0
      activeAuthorizedNodes := 0
      requests := []
      mempool := []
      currentBlock := some firstBlock
      newBlocks := []
      openBlock := none
      blockVotes := []
      lastCreatedBlockHeight := 1
      lastVoteHeight := 0
      lastVoteRound := 0
      blockInterval := 10
      blockVrfOutput := []
      newBlockTimer := false
      blockWaitTimer := false
      isUpdatingState := false
      syncDownState := .inSync
      sent := []
      committed := []
      refused := [] }

/-- The list of the three nodes. -/
def threeNodes : List NodeAuth := [1, 2, 3].map fun n : ℕ => ⟨keyOf n, n, false, 1, 0, 0⟩

/-- A node that has the list of the three nodes. -/
def startNode (n : ℕ) : Plugin Unit := startNodeWith n threeNodes

theorem startNodeWith_fresh (n : ℕ) (authorizations : List NodeAuth) :
    (startNodeWith n authorizations).Fresh :=
  ⟨Int.one_nonneg, rfl, ⟨rfl, rfl, rfl⟩, rfl, rfl, rfl, rfl, rfl, rfl, rfl, rfl, rfl, rfl⟩

/-- The first transaction of a node. -/
def firstLog (n : ℕ) : Log :=
  signedByNode (keyOf n)
    [.int64 1, .datetime "d".toList, .pubkey (keyOf n), .string "CALL a()".toList]

/-- The id of that transaction. -/
def firstTid (n : ℕ) : BitVec 64 := buildTransactionId n 1

/-- The arrival of that transaction. -/
def transactionOf (n : ℕ) : Event := .transaction n 1 (firstLog n)

/-- The id of a block of a node. -/
def idOf (n : ℕ) : Bytes := (plainSign (keyOf n) []).take 32

/-- The arrival of a block of a node at height 2. -/
def blockOf (n : ℕ) (tids : List (BitVec 64)) : Event :=
  .newBlock ⟨2, [], [], [], n, [], plainSign (keyOf n) []⟩ ⟨tids, []⟩ (List.replicate 81 0)

/-- The arrival of a vote of a node, in a round, on the block of another. -/
def voteBy (n r b : ℕ) : Event :=
  .blockVote ⟨2, n, r, idOf b, plainSign (keyOf n) (idOf b)⟩

end NoLeader
end AergoLite
