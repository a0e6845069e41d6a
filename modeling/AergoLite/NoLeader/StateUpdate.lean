/-
# The handlers of state updates

`plugins/no-leader/state_update.c`.  A node that wants to be in sync asks one authorized peer
after the other (`request_state_update_next`), until it has contacted the majority; a peer
answers that it has nothing newer, that it is busy, or with the pages of the database and the
block they belong to.

`SyncNode` is what these handlers read and write of `struct plugin`, with the transactions of
the two databases of the core: `Core.PageNode` is what is committed, and the pages of an update
that is not committed are kept with the nodes that sent them.  The arrays of node ids are lists,
`none` for a null pointer.  Five fields are not in the source: `assertFailed` records that the
assertion of `request_state_update_next` has failed, where the code goes on as with `NDEBUG`;
`asked`, `answered` and `gaveUp` record what became of the peers since the list of contacted
nodes was made, and `applied` the updates, each with the node that sent its block and the pages
with the nodes that sent them.

`synchronization` is the state machine of these handlers.  What the rest of the plugin does in
between are events as well: peers come and go, blocks are opened, committed and rolled back, and
the state is found to be outdated.
-/

import AergoLite.Core.StateUpdate
import AergoLite.Library.Transition
import AergoLite.NoLeader.Plugin

namespace AergoLite
namespace NoLeader

open AergoLite.Core
open Transition

/-- The transaction on the worker database: of an open block, of a state read, or of a state
update, with the pages that were written and the nodes that sent them. -/
inductive WorkerTxn
  | none
  | block
  | read
  | update (written : List (ℤ × DbPage))

/-- A state update is open. -/
def WorkerTxn.isUpdate : WorkerTxn → Bool
  | .update _ => true
  | _ => false

/-- The pages that are written, with the nodes that sent them. -/
def WorkerTxn.written : WorkerTxn → List (ℤ × DbPage)
  | .update written => written
  | _ => []

/-- A node, as far as state updates go.  `activeBlock` is `active_block.height > 0`, `modPages`
is `mod_pages != NULL`, and `stateTxn` is a transaction on the state database. -/
structure SyncNode where
  store : PageNode
  authorizations : List NodeAuth
  worker : WorkerTxn
  stateTxn : Bool
  activeBlock : Bool
  modPages : Bool
  peers : List Peer
  currentBlock : Option SavedBlock
  openBlock : Bool
  isUpdatingState : Bool
  contactedNodeId : ℤ
  contactedNodes : Option (List ℤ)
  failedNodes : Option (List ℤ)
  stateUpdateTimer : Bool
  syncDownState : DbState
  assertFailed : Bool
  asked : List ℤ
  answered : List ℤ
  gaveUp : List ℤ
  applied : List (ℤ × List (ℤ × DbPage))

namespace SyncNode

/-- `current_block ? current_block->height : 0`. -/
def currentHeight (s : SyncNode) : ℤ := (s.currentBlock.map SavedBlock.height).getD 0

/-- `total_authorized_nodes`, as `count_authorized_nodes` sets it. -/
def totalAuthorizedNodes (s : SyncNode) : ℕ := aergoliteNumAuthorizedNodes s.authorizations false

/-! ## The core -/

/-- `aergolite_rollback_block`, as far as the transactions go. -/
def aergoliteRollbackBlock (s : SyncNode) : SyncNode :=
  { s with
    worker := if s.activeBlock then .none else s.worker
    stateTxn := if s.activeBlock then false else s.stateTxn
    activeBlock := false
    modPages := false }

/-- `rollback_block`. -/
def rollbackBlock (s : SyncNode) : SyncNode :=
  { s.aergoliteRollbackBlock with openBlock := false }

/-- `aergolite_begin_state_read`, with the outcomes of its two statements. -/
def aergoliteBeginStateRead (begun selected : Rc) (s : SyncNode) : Rc × SyncNode :=
  match s.worker with
  | .none => if begun ≠ .ok then (begun, s) else (selected, { s with worker := .read })
  | _ => (.error, s)

/-- `aergolite_end_state_read`. -/
def aergoliteEndStateRead (s : SyncNode) : SyncNode := { s with worker := .none }

/-- `aergolite_cancel_state_update`. -/
def aergoliteCancelStateUpdate (s : SyncNode) : SyncNode :=
  { s with worker := .none, stateTxn := false, modPages := false }

/-- The outcomes of `aergolite_begin_state_update`: the allocation of `mod_pages` and the two
statements that begin a transaction. -/
structure BeginOutcomes where
  allocated : Bool
  beginWorker : Rc
  beginState : Rc

/-- `aergolite_begin_state_update`.  A transaction begins only where none is open. -/
def aergoliteBeginStateUpdate (o : BeginOutcomes) (s : SyncNode) : Rc × SyncNode :=
  if !o.allocated then (.nomem, s.aergoliteCancelStateUpdate)
  else match s.worker with
    | .none =>
      if o.beginWorker ≠ .ok then (o.beginWorker, s.aergoliteCancelStateUpdate)
      else if s.stateTxn then (.error, s.aergoliteCancelStateUpdate)
      else if o.beginState ≠ .ok then (o.beginState, s.aergoliteCancelStateUpdate)
      else (.ok, { s with worker := .update [], stateTxn := true, modPages := true })
    | _ => (.error, s.aergoliteCancelStateUpdate)

/-- `aergolite_update_db_page`, of a page that a node has sent. -/
def aergoliteUpdateDbPage (rc : Rc) (nodeId : ℤ) (page : DbPage) (s : SyncNode) : Rc × SyncNode :=
  match s.worker with
  | .update written =>
    (rc, if rc = .ok then { s with worker := .update (written ++ [(nodeId, page)]) } else s)
  | _ => (rc, s)

/-- The pages of a cache that some pages are written to: of each page what was written last. -/
def cachedPages : List DbPage → List DbPage
  | [] => []
  | page :: pages =>
    if pages.any fun other => other.pgno == page.pgno then cachedPages pages
    else page :: cachedPages pages

/-- The outcomes of `aergolite_apply_state_update`: with those of a state update, the order of
the pages in the cache, the rows a query of `aergolite_nodes` returns during the update, and the
list that `reload_authorizations` loads. -/
structure ApplyOutcomes extends UpdateOutcomes where
  order : List DbPage → List DbPage
  queried : List AllowedNode
  reloaded : List NodeAuth

/-- What `aergolite_apply_state_update` leaves of the databases when it fails: the pages are
committed where it is the second commit that fails. -/
def afterFailure (c : Crypto) (o : ApplyOutcomes) (roster : Roster) (store : PageNode)
    (logged : List DbPage) (block : SavedBlock) (list : List PageRow) : PageNode :=
  match store.aergoliteApplyStateUpdate c { o.toUpdateOutcomes with commitState := .ok } roster
    logged block list with
  | some (.ok applied) => { store with pages := applied.pages }
  | _ => store

/-- `aergolite_apply_state_update`, of a block that a node has sent. -/
def aergoliteApplyStateUpdate (c : Crypto) (o : ApplyOutcomes) (nodeId : ℤ) (header : Header)
    (votes : List VoteItem) (list : List PageRow) (s : SyncNode) : Option (Rc × SyncNode) :=
  if !s.modPages then some (.misuse, s)
  else
    let roster : Roster := ⟨s.authorizations, o.queried⟩
    let logged := o.order (cachedPages (s.worker.written.map Prod.snd))
    let block : SavedBlock := ⟨header.height, header, votes⟩
    let closed := { s with worker := .none, stateTxn := false, modPages := false }
    match s.store.aergoliteApplyStateUpdate c o.toUpdateOutcomes roster logged block list with
    | none => none
    | some (.ok store) =>
      some (.ok, { closed with
        store
        authorizations := o.reloaded
        applied := s.applied ++ [(nodeId, s.worker.written)] })
    | some (.error rc) =>
      some (rc, { closed with store := afterFailure c o roster s.store logged block list })

/-! ## Asking the peers -/

/-- `array_append`; it fails where there is no array. -/
def appendId (array : Option (List ℤ)) (nodeId : ℤ) : Option (List ℤ) :=
  array.map fun ids => ids ++ [nodeId]

/-- `array_count`, which is -1 for a null pointer. -/
def arrayCount (array : Option (List ℤ)) : ℤ := (array.map fun ids => (ids.length : ℤ)).getD (-1)

/-- `state_update_finished`, without the download of missing blocks. -/
def stateUpdateFinished (s : SyncNode) : SyncNode :=
  { s with
    stateUpdateTimer := false
    contactedNodes := none
    failedNodes := none
    contactedNodeId := 0
    syncDownState := if s.syncDownState = .synchronizing then .inSync else s.syncDownState }

/-- A round of the loop of `request_state_update_next`: the random number, and whether the
request can be made and sent. -/
structure Attempt where
  num : ℕ
  sent : Bool

/-- `select_random_connected_node_not_in_list`. -/
def selectNode (num : ℕ) (excluded : List ℤ) (peers : List Peer) : Option ℤ :=
  let candidates := (peers.filter fun peer => peer.isAuthorized && !excluded.contains peer.id).map
    Peer.id
  candidates[num % candidates.length]?

/-- The node is marked as failed. -/
def markFailed (nodeId : ℤ) (s : SyncNode) : SyncNode :=
  { s with failedNodes := appendId s.failedNodes nodeId, gaveUp := s.gaveUp ++ [nodeId] }

/-- The contacted node is marked as failed, if there is one. -/
def markContactedFailed (s : SyncNode) : SyncNode :=
  if s.contactedNodeId ≠ 0 then s.markFailed s.contactedNodeId
  else { s with gaveUp := s.gaveUp ++ [s.contactedNodeId] }

/-- The arrays of contacted and of failed nodes are made where there are none. -/
def makeArrays (s : SyncNode) : SyncNode :=
  match s.contactedNodes with
  | none => { s with
      contactedNodes := some []
      failedNodes := some (s.failedNodes.getD [])
      asked := []
      answered := []
      gaveUp := [] }
  | some _ => { s with failedNodes := some (s.failedNodes.getD []) }

/-- How a round ends: with `goto loc_next` or with a return. -/
inductive Round
  | again (s : SyncNode)
  | ends (s : SyncNode)

/-- `request_state_update_next` from `loc_next` on, once. -/
def contactNode (attempt : Attempt) (s : SyncNode) : Round :=
  if (majority s.totalAuthorizedNodes : ℤ) ≤ arrayCount s.contactedNodes + 1 ∧
      s.currentBlock.isSome then .ends s.stateUpdateFinished
  else
    let s := s.makeArrays
    let contacted := s.contactedNodes.getD []
    let failed := s.failedNodes.getD []
    match selectNode attempt.num contacted s.peers with
    | none =>
      if failed = [] then .ends { s with contactedNodeId := 0, stateUpdateTimer := true }
      else .again { s with
        contactedNodes := some (failed.foldl List.erase contacted)
        failedNodes := some [] }
    | some nodeId =>
      let s := { s with
        contactedNodes := some (contacted ++ [nodeId])
        asked := s.asked ++ [nodeId] }
      if attempt.sent then .ends { s with contactedNodeId := nodeId, stateUpdateTimer := true }
      else .again (s.markFailed nodeId)

/-- The loop of `request_state_update_next`.  There is no result where the attempts are used up
before it ends. -/
def contactNext : List Attempt → SyncNode → Option SyncNode
  | [], _ => none
  | attempt :: attempts, s =>
    match contactNode attempt s with
    | .again s => contactNext attempts s
    | .ends s => some s

/-- `request_state_update_next`. -/
def requestStateUpdateNext (attempts : List Attempt) (s : SyncNode) : Option SyncNode :=
  contactNext attempts { s with
    assertFailed := s.assertFailed || decide (s.syncDownState ≠ .synchronizing) }

/-- `request_state_update`. -/
def requestStateUpdate (attempts : List Attempt) (s : SyncNode) : Option SyncNode :=
  if s.syncDownState = .synchronizing then some s
  else if s.peers = [] then some { s with syncDownState := .unknown }
  else requestStateUpdateNext attempts { s with syncDownState := .synchronizing }

/-! ## The answers -/

/-- `on_node_is_busy`. -/
def onNodeIsBusy (attempts : List Attempt) (nodeId : ℤ) (s : SyncNode) : Option SyncNode :=
  if nodeId ≠ s.contactedNodeId then some s
  else
    requestStateUpdateNext attempts { s.markContactedFailed with stateUpdateTimer := false }

/-- An update that is open is cancelled. -/
def cancelUpdate (s : SyncNode) : SyncNode :=
  if s.isUpdatingState then { s.aergoliteCancelStateUpdate with isUpdatingState := false } else s

/-- `on_state_update_node_timeout`. -/
def onStateUpdateNodeTimeout (attempts : List Attempt) (s : SyncNode) : Option SyncNode :=
  requestStateUpdateNext attempts
    { s with stateUpdateTimer := false }.cancelUpdate.markContactedFailed

/-- `loc_failed` of `on_update_db_page`. -/
def pageFailed (attempts : List Attempt) (nodeId : ℤ) (s : SyncNode) : Option SyncNode :=
  requestStateUpdateNext attempts
    { { s with isUpdatingState := false }.markFailed nodeId with stateUpdateTimer := false }

/-- A page of the database (`PLUGIN_DB_PAGE`). -/
structure PageMessage where
  height : ℤ
  page : DbPage

/-- `on_update_db_page` once an update is open: the page is written. -/
def writeDbPage (written : Rc) (attempts : List Attempt) (nodeId : ℤ) (page : DbPage)
    (s : SyncNode) : Option SyncNode :=
  let (rc, s) := s.aergoliteUpdateDbPage written nodeId page
  if rc ≠ .ok then s.aergoliteCancelStateUpdate.pageFailed attempts nodeId
  else some { s with stateUpdateTimer := true }

/-- `on_update_db_page`, with the outcomes of the functions of the core. -/
def onUpdateDbPage (begun : BeginOutcomes) (written : Rc) (attempts : List Attempt) (nodeId : ℤ)
    (msg : PageMessage) (s : SyncNode) : Option SyncNode :=
  if nodeId ≠ s.contactedNodeId then some s
  else if msg.height ≤ s.currentHeight then some s
  else if s.syncDownState ≠ .synchronizing then some s
  else
    let s := if s.openBlock then s.rollbackBlock else s
    if s.isUpdatingState then s.writeDbPage written attempts nodeId msg.page
    else
      let (rc, s) := s.aergoliteBeginStateUpdate begun
      if rc ≠ .ok then s.pageFailed attempts nodeId
      else { s with isUpdatingState := true }.writeDbPage written attempts nodeId msg.page

/-- The block of an update (`PLUGIN_APPLY_UPDATE`). -/
structure ApplyMessage where
  height : ℤ
  header : Header
  votes : List VoteItem
  modPages : List PageRow

/-- `loc_exit` of `on_apply_state_update`. -/
def applyExit (attempts : List Attempt) (s : SyncNode) : Option SyncNode :=
  requestStateUpdateNext attempts { s with isUpdatingState := false, stateUpdateTimer := false }

/-- `on_apply_state_update`, with the outcomes of the core and of the allocation of the block. -/
def onApplyStateUpdate (c : Crypto) (o : ApplyOutcomes) (allocated : Bool)
    (attempts : List Attempt) (nodeId : ℤ) (msg : ApplyMessage) (s : SyncNode) : Option SyncNode :=
  if nodeId ≠ s.contactedNodeId then some s
  else if msg.height ≤ s.currentHeight then some s
  else if s.syncDownState ≠ .synchronizing ∨ s.isUpdatingState = false then some s
  else
    (s.aergoliteApplyStateUpdate c o nodeId msg.header msg.votes msg.modPages).bind fun (rc, s) =>
      if rc ≠ .ok then
        (s.aergoliteCancelStateUpdate.markFailed nodeId).applyExit attempts
      else if !allocated then
        -- the update is committed, but the plugin has no current block any more
        applyExit attempts
          { s.markFailed nodeId with currentBlock := none, syncDownState := .unknown }
      else
        applyExit attempts { s with
          currentBlock := some ⟨msg.height, msg.header, msg.votes⟩
          answered := s.answered ++ [nodeId] }

/-- `on_uptodate_message`. -/
def onUptodateMessage (attempts : List Attempt) (nodeId : ℤ) (s : SyncNode) : Option SyncNode :=
  if nodeId ≠ s.contactedNodeId then some s
  else requestStateUpdateNext attempts
    { s with stateUpdateTimer := false, answered := s.answered ++ [nodeId] }

end SyncNode

/-! ## The state machine -/

/-- What happens to a node. -/
inductive SyncEvent
  | connections (peers : List Peer)
  | authorizations (auths : List NodeAuth)
  | firstAuthorization
  | beginBlock
  | rollbackBlock
  | refuseBlock
  | commitBlock (block : SavedBlock) (store : PageNode)
  | outdated (state : DbState)
  | loadState (block : SavedBlock)
  | request (attempts : List SyncNode.Attempt)
  | timeout (attempts : List SyncNode.Attempt)
  | busy (attempts : List SyncNode.Attempt) (nodeId : ℤ)
  | uptodate (attempts : List SyncNode.Attempt) (nodeId : ℤ)
  | page (begun : SyncNode.BeginOutcomes) (written : Rc) (attempts : List SyncNode.Attempt)
      (nodeId : ℤ) (msg : SyncNode.PageMessage)
  | apply (o : SyncNode.ApplyOutcomes) (allocated : Bool) (attempts : List SyncNode.Attempt)
      (nodeId : ℤ) (msg : SyncNode.ApplyMessage)

/-- The node an answer comes from. -/
def SyncEvent.sender : SyncEvent → Option ℤ
  | .busy _ nodeId | .uptodate _ nodeId | .page _ _ _ nodeId _ | .apply _ _ _ nodeId _ =>
    some nodeId
  | _ => none

namespace SyncNode

/-- A step.  A block is opened only where no transaction is open (`BEGIN` fails), and a block
that the core fails to commit (`refuseBlock`) is rolled back there, but stays `open_block`. -/
def step (c : Crypto) (s : SyncNode) : SyncEvent → Option SyncNode
  | .connections peers => some { s with peers }
  | .authorizations authorizations => some { s with authorizations }
  | .firstAuthorization =>
    if s.currentBlock.isSome then none else some { s with syncDownState := .inSync }
  | .beginBlock =>
    match s.worker with
    | .none => if s.stateTxn then none else some { s with
        worker := .block
        stateTxn := true
        activeBlock := true
        modPages := true
        openBlock := true }
    | _ => none
  | .rollbackBlock => if s.openBlock then some s.rollbackBlock else none
  | .refuseBlock => if s.openBlock && s.activeBlock then some s.aergoliteRollbackBlock else none
  | .commitBlock block store =>
    if s.openBlock && s.activeBlock then
      some { s.rollbackBlock with store, currentBlock := some block }
    else none
  | .outdated state =>
    if s.syncDownState = .synchronizing ∨ state = .synchronizing ∨ state = .inSync then none
    else some { s with syncDownState := state }
  | .loadState block =>
    if s.syncDownState = .synchronizing then none else some { s with currentBlock := some block }
  | .request attempts => s.requestStateUpdate attempts
  | .timeout attempts => if s.stateUpdateTimer then s.onStateUpdateNodeTimeout attempts else none
  | .busy attempts nodeId => s.onNodeIsBusy attempts nodeId
  | .uptodate attempts nodeId => s.onUptodateMessage attempts nodeId
  | .page begun written attempts nodeId msg => s.onUpdateDbPage begun written attempts nodeId msg
  | .apply o allocated attempts nodeId msg =>
    s.onApplyStateUpdate c o allocated attempts nodeId msg

/-- A node that has just started. -/
structure Fresh (s : SyncNode) : Prop where
  worker : s.worker = .none
  stateTxn : s.stateTxn = false
  activeBlock : s.activeBlock = false
  modPages : s.modPages = false
  openBlock : s.openBlock = false
  isUpdatingState : s.isUpdatingState = false
  contactedNodeId : s.contactedNodeId = 0
  contactedNodes : s.contactedNodes = none
  failedNodes : s.failedNodes = none
  stateUpdateTimer : s.stateUpdateTimer = false
  syncDownState : s.syncDownState = .unknown
  assertFailed : s.assertFailed = false
  applied : s.applied = []

end SyncNode

/-- The handlers of state updates as a state machine. -/
def synchronization (c : Crypto) : System SyncNode SyncEvent :=
  System.ofStep SyncNode.Fresh (SyncNode.step c)

end NoLeader
end AergoLite
