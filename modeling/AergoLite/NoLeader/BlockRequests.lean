/-
# Requests for blocks

A full node asks its peers for the blocks that are missing in its table.  A peer answers with a
map (`on_get_block`), and the node reads the map, verifies the block, saves it, and asks for the
transactions of the block and for the next block (`on_requested_block`, both in
`no-leader/requests.c`).

The two functions do not name the header alike: it is sent as `PLUGIN_HEADER` and read as
`PLUGIN_STATE`, as in the messages of a state update.  So no answer is read
(`requestedBlock_ignored`), although each of its parts would be found under the name it was sent
with (`blockMessage_carries`).
-/

import AergoLite.Core.StoredBlocks

namespace AergoLite
namespace NoLeader

open AergoLite.Core

/-! ## Messages -/

/-- `#define PLUGIN_CMD`, … : the keys of a message and the commands. -/
def pluginCmd : ℕ := 0x43292173
def pluginState : ℕ := 0xC0DE804
def pluginHeight : ℕ := 0xC0DE805
def pluginHeader : ℕ := 0xC0DE806
def pluginBody : ℕ := 0xC0DE807
def pluginVotes : ℕ := 0xC0DE80B
def pluginRequestedBlock : ℤ := 0xB042
def pluginBlockNotfound : ℤ := 0xB043

/-- What a key of a map stands for. -/
inductive BinnItem
  | int32 (n : ℤ)
  | int64 (n : ℤ)
  | blob (data : Bytes)
  | list (data : Bytes)
  deriving DecidableEq, Repr

/-- The maps of the library binn.  A key keeps what is set first, and setting a key, also to a
null pointer, leaves the others. -/
structure BinnMaps (M : Type) where
  new : M
  set : ℕ → BinnItem → M → M
  setNull : ℕ → M → M
  get : M → ℕ → Option BinnItem
  get_new : ∀ key, get new key = none
  get_set : ∀ {msg key item}, get msg key = none → get (set key item msg) key = some item
  get_set_ne : ∀ {msg key key' item}, key ≠ key' → get (set key item msg) key' = get msg key'
  get_setNull_ne : ∀ {msg key key'}, key ≠ key' → get (setNull key msg) key' = get msg key'

section
variable {M : Type} (maps : BinnMaps M)

/-- `binn_map_set_blob` with a pointer. -/
def BinnMaps.setBlob (key : ℕ) : Option Bytes → M → M
  | none => maps.setNull key
  | some data => maps.set key (.blob data)

/-- `binn_map_set_list` with a pointer. -/
def BinnMaps.setList (key : ℕ) : Option Bytes → M → M
  | none => maps.setNull key
  | some data => maps.set key (.list data)

/-- `binn_map_int64`. -/
def BinnMaps.int64 (msg : M) (key : ℕ) : ℤ :=
  match maps.get msg key with
  | some (.int32 n) => n
  | some (.int64 n) => n
  | _ => 0

/-- `binn_map_blob`. -/
def BinnMaps.blob (msg : M) (key : ℕ) : Option Bytes :=
  match maps.get msg key with
  | some (.blob data) => some data
  | _ => none

/-- `binn_map_list`. -/
def BinnMaps.list (msg : M) (key : ℕ) : Option Bytes :=
  match maps.get msg key with
  | some (.list data) => some data
  | _ => none

end

/-! ## The peer that answers -/

/-- What `on_get_block` reads of a node. -/
structure BlockServer where
  currentBlock : Option StoredBlock
  isFullNode : Bool
  table : BlocksTable

/-- The message that `on_get_block` makes of a block. -/
def blockMessage {M : Type} (maps : BinnMaps M) (height : ℤ) (block : BlockParts) : M :=
  maps.setList pluginVotes block.2.2 <| maps.setBlob pluginBody block.2.1 <|
    maps.setBlob pluginHeader block.1 <| maps.set pluginHeight (.int64 height) <|
      maps.set pluginCmd (.int32 pluginRequestedBlock) maps.new

/-- `on_get_block`: the message that is sent to a node that asks for a block, if any. -/
def BlockServer.onGetBlock {M : Type} (maps : BinnMaps M) (b : BodyReader) (s : BlockServer)
    (height : ℤ) : Option M :=
  if height ≤ 0 then none
  else match s.currentBlock.filter fun block => block.height == height with
  | some block => some (blockMessage maps height (some block.header, block.body, some block.votes))
  | none =>
    if s.isFullNode then
      match s.table.aergoliteGetBlock b height with
      | .error _ => none
      | .ok block => some (blockMessage maps height block)
    else some (maps.set pluginCmd (.int32 pluginBlockNotfound) maps.new)

/-! ## The node that asks -/

/-- `struct request`: for a block, with `blockHeight`, or for a transaction. -/
structure Request where
  blockHeight : ℤ
  transactionId : BitVec 64
  height : ℤ
  seq : ℕ
  deriving DecidableEq, Repr

/-- What the requests for blocks read and write of a full node: the table `blocks`, whether its
database is in a transaction, the height of the last block, the running requests, and whether an
authorized peer is connected. -/
structure HistoryNode where
  table : BlocksTable
  inTransaction : Bool
  currentHeight : Option ℤ
  requests : List Request
  downloadingBlockBodies : Bool
  connected : Bool

/-- Other requests are running. -/
def HistoryNode.setRequests (n : HistoryNode) (requests : List Request) : HistoryNode :=
  { n with requests }

/-- A block is in the table. -/
def HistoryNode.setTable (n : HistoryNode) (table : BlocksTable) : HistoryNode := { n with table }

/-- The flag of the download is set. -/
def HistoryNode.setDownloading (n : HistoryNode) (downloading : Bool) : HistoryNode :=
  { n with downloadingBlockBodies := downloading }

section
variable (n : HistoryNode) (requests : List Request) (table : BlocksTable) (downloading : Bool)

@[simp] theorem setRequests_requests : (n.setRequests requests).requests = requests := rfl
@[simp] theorem setRequests_table : (n.setRequests requests).table = n.table := rfl
@[simp] theorem setRequests_currentHeight :
    (n.setRequests requests).currentHeight = n.currentHeight := rfl
@[simp] theorem setRequests_inTransaction :
    (n.setRequests requests).inTransaction = n.inTransaction := rfl
@[simp] theorem setRequests_connected : (n.setRequests requests).connected = n.connected := rfl
@[simp] theorem setTable_requests : (n.setTable table).requests = n.requests := rfl
@[simp] theorem setTable_table : (n.setTable table).table = table := rfl
@[simp] theorem setTable_currentHeight : (n.setTable table).currentHeight = n.currentHeight := rfl
@[simp] theorem setTable_connected : (n.setTable table).connected = n.connected := rfl
@[simp] theorem setDownloading_requests :
    (n.setDownloading downloading).requests = n.requests := rfl
@[simp] theorem setDownloading_table : (n.setDownloading downloading).table = n.table := rfl
@[simp] theorem setDownloading_currentHeight :
    (n.setDownloading downloading).currentHeight = n.currentHeight := rfl

end

/-- The request for a block. -/
def blockRequest (height : ℤ) : Request := ⟨height, 0, 0, 0⟩

/-- `request_block`.  Without a peer the request is closed at once. -/
def HistoryNode.requestBlock (n : HistoryNode) (height : ℤ) : HistoryNode :=
  if n.requests.any fun request => request.blockHeight == height then n
  else if !n.connected then n
  else n.setRequests (n.requests ++ [blockRequest height])

/-- A statement that is prepared once: the values that are bound, and whether the last step came
to the end. -/
structure PreparedQuery where
  start : ℤ
  stop : ℤ
  halted : Bool

/-- `sqlite3_bind_int64` of both values, which fails unless the statement is reset. -/
def PreparedQuery.bind (q : PreparedQuery) (start stop : ℤ) : PreparedQuery :=
  if q.halted then q else { q with start, stop }

/-- The first row of the query for the missing heights of a sequence. -/
def firstMissing (t : BlocksTable) (start stop : ℤ) : Option ℤ :=
  ((List.range ((stop - start).toNat + 1)).map fun (i : ℕ) => start + i).find? fun x => !t.has x

/-- The loop of `request_missing_blocks` over the ranges, with fuel.  A step of a statement that
has come to its end resets it, but the values were to be bound before. -/
def searchRanges (t : BlocksTable) : ℕ → ℤ → PreparedQuery → Option ℤ
  | 0, _, _ => none
  | fuel + 1, stop, q =>
    if stop ≤ 0 then none
    else
      let q := q.bind (max (stop - 512) 1) stop
      match firstMissing t q.start q.stop with
      | some height => some height
      | none => searchRanges t fuel (stop - 512) { q with halted := true }

/-- `SELECT count(*)=max(height) FROM blocks`. -/
def hasAllBlocks (t : BlocksTable) : Bool :=
  (t.rows.map StoredBlock.height).max? == some (t.rows.length : ℤ)

/-- The missing block that `request_missing_blocks` finds. -/
def missingBlock (t : BlocksTable) (lastRetrieved : ℤ) : Option ℤ :=
  if hasAllBlocks t then none
  else searchRanges t lastRetrieved.toNat (lastRetrieved - 1) ⟨0, 0, false⟩

/-- The part of `request_missing_blocks` at `loc_check_blocks_without_body`. -/
def HistoryNode.requestBlockWithoutBody (n : HistoryNode) (lastRetrieved : ℤ) : HistoryNode :=
  let rows := n.table.rows.filter fun row => row.height < lastRetrieved ∧ row.body = none
  match (rows.map StoredBlock.height).max? with
  | some height => n.requestBlock height
  | none => n

section
variable {M : Type} (maps : BinnMaps M) (b : BodyReader) (c : Crypto) (roster : Roster)

/-- `request_missing_blocks`, from the search on. -/
def HistoryNode.searchMissingBlocks (n : HistoryNode) (lastBlock lastRetrieved : ℤ) : HistoryNode :=
  if n.downloadingBlockBodies then n.requestBlockWithoutBody lastRetrieved
  else match missingBlock n.table lastRetrieved with
  | some height => n.requestBlock height
  | none =>
    if n.table.ReportsOk b.toBlockReader c roster then
      (n.setDownloading true).requestBlockWithoutBody (lastBlock + 1)
    else n

/-- `request_missing_blocks`. -/
def HistoryNode.requestMissingBlocks (n : HistoryNode) (lastRetrieved : ℤ) : HistoryNode :=
  match n.currentHeight with
  | none => n
  | some lastBlock =>
    if lastRetrieved = 0 then (n.setDownloading false).searchMissingBlocks b c roster lastBlock lastBlock
    else n.searchMissingBlocks b c roster lastBlock lastRetrieved

/-- The id of a transaction in a body, without the flag of those that failed. -/
def unflagged (tid : BitVec 64) : BitVec 64 := tid &&& 0x7fffffffffffffff#64

/-- `request_transaction`, and what `on_requested_block` writes to the request: it is undefined
where there is none, as the transaction is requested already. -/
def HistoryNode.requestTransaction (n : HistoryNode) (tid : BitVec 64) (height : ℤ) (seq : ℕ) :
    Option HistoryNode :=
  if n.requests.any fun request => request.transactionId == tid then none
  else if !n.connected then some n
  else some (n.setRequests (n.requests ++ [⟨0, tid, height, seq⟩]))

/-- The loop of `on_requested_block` over the ids of the transactions. -/
def HistoryNode.requestTransactions (height : ℤ) :
    List (BitVec 64) → ℕ → HistoryNode → Option HistoryNode
  | [], _, n => some n
  | tid :: tids, seq, n =>
    (n.requestTransaction (unflagged tid) height (seq + 1)).bind
      (HistoryNode.requestTransactions height tids (seq + 1))

/-- `requested_block_arrived`, to stop the request. -/
def HistoryNode.blockArrived (n : HistoryNode) (height : ℤ) : HistoryNode :=
  n.setRequests (n.requests.eraseP fun request => request.blockHeight == height)

/-- What `on_requested_block` reads: the height, the header, the body and the votes. -/
def readRequestedBlock (msg : M) : Option (ℤ × Bytes × Bytes × Bytes) := do
  let header ← maps.blob msg pluginState
  let body ← maps.blob msg pluginBody
  let votes ← maps.list msg pluginVotes
  if maps.int64 msg pluginHeight ≤ 0 then none
  else some (maps.int64 msg pluginHeight, header, body, votes)

/-- `on_requested_block`, after the block is saved. -/
def HistoryNode.onSavedBlock (n : HistoryNode) (height : ℤ) (body : Bytes) : Option HistoryNode :=
  (HistoryNode.requestTransactions height (b.txnIds body) 0 n).map fun n =>
    (n.blockArrived height).requestMissingBlocks b c roster height

/-- `on_requested_block`. -/
def HistoryNode.onRequestedBlock (n : HistoryNode) (msg : M) : Option HistoryNode :=
  match readRequestedBlock maps msg with
  | none => some n
  | some (height, header, body, votes) =>
    if !n.requests.any fun request => request.blockHeight == height then some n
    else match n.table.aergoliteSaveBlock b c roster n.inTransaction header body votes with
    | none => none
    | some (.error _) => some n
    | some (.ok table) => (n.setTable table).onSavedBlock b c roster height body

end

/-! ## What is read of an answer -/

section
variable {M : Type} {maps : BinnMaps M} {msg : M} {key key' : ℕ}

theorem get_setBlob_ne (hne : key ≠ key') (data : Option Bytes) :
    maps.get (maps.setBlob key data msg) key' = maps.get msg key' := by
  cases data with
  | none => exact maps.get_setNull_ne hne
  | some data => exact maps.get_set_ne hne

theorem get_setList_ne (hne : key ≠ key') (data : Option Bytes) :
    maps.get (maps.setList key data msg) key' = maps.get msg key' := by
  cases data with
  | none => exact maps.get_setNull_ne hne
  | some data => exact maps.get_set_ne hne

/-- A key that no part of a block has is not in the message. -/
theorem get_blockMessage {height : ℤ} {block : BlockParts}
    (hcmd : pluginCmd ≠ key) (hheight : pluginHeight ≠ key) (hheader : pluginHeader ≠ key)
    (hbody : pluginBody ≠ key) (hvotes : pluginVotes ≠ key) :
    maps.get (blockMessage maps height block) key = none := by
  unfold blockMessage
  rw [get_setList_ne hvotes, get_setBlob_ne hbody, get_setBlob_ne hheader,
    maps.get_set_ne hheight, maps.get_set_ne hcmd]
  exact maps.get_new key

end

/-- The message has the parts of a block, the header under a key. -/
structure Carries {M : Type} (maps : BinnMaps M) (headerKey : ℕ) (msg : M) (height : ℤ)
    (header body votes : Bytes) : Prop where
  height : maps.int64 msg pluginHeight = height
  header : maps.blob msg headerKey = some header
  body : maps.blob msg pluginBody = some body
  votes : maps.list msg pluginVotes = some votes

/-- **Each part of a block is found under the name it is sent with.** -/
theorem blockMessage_carries {M : Type} (maps : BinnMaps M) (height : ℤ)
    (header body votes : Bytes) :
    Carries maps pluginHeader (blockMessage maps height (some header, some body, some votes))
      height header body votes := by
  constructor
  · unfold BinnMaps.int64 blockMessage
    rw [get_setList_ne (by decide), get_setBlob_ne (by decide), get_setBlob_ne (by decide),
      maps.get_set]
    rw [maps.get_set_ne (by decide)]
    exact maps.get_new _
  · unfold BinnMaps.blob blockMessage
    rw [get_setList_ne (by decide), get_setBlob_ne (by decide), BinnMaps.setBlob, maps.get_set]
    rw [maps.get_set_ne (by decide), maps.get_set_ne (by decide)]
    exact maps.get_new _
  · unfold BinnMaps.blob blockMessage
    rw [get_setList_ne (by decide), BinnMaps.setBlob, maps.get_set]
    rw [get_setBlob_ne (by decide), maps.get_set_ne (by decide), maps.get_set_ne (by decide)]
    exact maps.get_new _
  · unfold BinnMaps.list blockMessage
    rw [BinnMaps.setList, maps.get_set]
    rw [get_setBlob_ne (by decide), get_setBlob_ne (by decide), maps.get_set_ne (by decide),
      maps.get_set_ne (by decide)]
    exact maps.get_new _

/-- Nothing has the name under which the header is read. -/
theorem onGetBlock_state {M : Type} {maps : BinnMaps M} {b : BodyReader} {s : BlockServer}
    {height : ℤ} {msg : M} (h : s.onGetBlock maps b height = some msg) :
    maps.get msg pluginState = none := by
  have hmessage : ∀ block, maps.get (blockMessage maps height block) pluginState = none := fun _ =>
    get_blockMessage (by decide) (by decide) (by decide) (by decide) (by decide)
  unfold BlockServer.onGetBlock at h
  split at h
  · cases h
  split at h
  · cases h
    exact hmessage _
  split at h
  · split at h
    · cases h
    · cases h
      exact hmessage _
  · cases h
    rw [maps.get_set_ne (by decide)]
    exact maps.get_new _

/-- A message without a header for the node is ignored. -/
theorem ignored_of_get_state {M : Type} {maps : BinnMaps M} {msg : M}
    (h : maps.get msg pluginState = none) (b : BodyReader) (c : Crypto) (roster : Roster)
    (n : HistoryNode) :
    readRequestedBlock maps msg = none ∧ n.onRequestedBlock maps b c roster msg = some n := by
  have hblob : maps.blob msg pluginState = none := by
    unfold BinnMaps.blob
    rw [h]
  have hread : readRequestedBlock maps msg = none := by
    unfold readRequestedBlock
    rw [hblob]
    rfl
  refine ⟨hread, ?_⟩
  unfold HistoryNode.onRequestedBlock
  rw [hread]

/-- A peer that is asked for its last block sends it. -/
theorem onGetBlock_current {M : Type} {maps : BinnMaps M} {b : BodyReader} {s : BlockServer}
    {block : StoredBlock} {height : ℤ} (hblock : s.currentBlock = some block)
    (hheight : block.height = height) (hpos : 0 < height) :
    s.onGetBlock maps b height =
      some (blockMessage maps height (some block.header, block.body, some block.votes)) := by
  unfold BlockServer.onGetBlock
  rw [if_neg (by omega), hblock, Option.filter_some, if_pos (by simpa using hheight)]

/-- **No answer is read.**  Whatever block is asked for, the message of a peer is ignored by the
node that asked: it has no header for it, and its table stays as it was. -/
theorem requestedBlock_ignored {M : Type} {maps : BinnMaps M} {b : BodyReader} {s : BlockServer}
    {height : ℤ} {msg : M} (h : s.onGetBlock maps b height = some msg) (c : Crypto)
    (roster : Roster) (n : HistoryNode) :
    readRequestedBlock maps msg = none ∧ n.onRequestedBlock maps b c roster msg = some n :=
  ignored_of_get_state (onGetBlock_state h) b c roster n

/-- Maps to evaluate the definitions with: the keys and what they stand for, in order. -/
def plainMaps : BinnMaps (List (ℕ × BinnItem)) where
  new := []
  set key item msg := msg ++ [(key, item)]
  setNull _ msg := msg
  get msg key := (msg.find? fun entry => entry.1 == key).map Prod.snd
  get_new _ := rfl
  get_set {msg key item} h := by
    rw [Option.map_eq_none_iff] at h
    rw [List.find?_append, h]
    simp
  get_set_ne {msg key key' item} hne := by
    rw [List.find?_append]
    simp [hne]
  get_setNull_ne _ := rfl

/-- A reader of bodies without transactions. -/
def plainBodyReader : BodyReader where
  toBlockReader := plainReader
  binnSize := List.length
  txnIds _ := []
  txnsHash _ := List.replicate 32 0

/-- A block with a body. -/
def fullBlock (height : UInt8) : StoredBlock :=
  { ownBlock height (List.replicate 32 1) with body := some [0] }

theorem nodup_firstBlock : ([fullBlock 1].map StoredBlock.height).Nodup := List.nodup_singleton _

/-- A full node whose last block is the first one. -/
def firstBlockServer : BlockServer :=
  ⟨some (fullBlock 1), true, ⟨[fullBlock 1], nodup_firstBlock⟩⟩

/-- A node that has asked for the first block, and has the second one. -/
def askingNode : HistoryNode :=
  ⟨⟨[fullBlock 2], by decide⟩, false, some 2, [⟨1, 0, 0, 0⟩], false, true⟩

/-- The hypothesis holds of the peer that is asked for its last block. -/
theorem requestedBlock_ignored_first :
    let parts : BlockParts := (some (fullBlock 1).header, some [0], some (fullBlock 1).votes)
    readRequestedBlock plainMaps (blockMessage plainMaps 1 parts) = none ∧
      askingNode.onRequestedBlock plainMaps plainBodyReader plainCrypto oneNodeRoster
        (blockMessage plainMaps 1 parts) = some askingNode :=
  requestedBlock_ignored (s := firstBlockServer) (onGetBlock_current rfl (by decide) (by decide))
    plainCrypto oneNodeRoster askingNode

/-- **A block that is asked for and served is not stored**, although `aergolite_save_block` would
accept it. -/
theorem served_block_not_stored :
    ∃ msg, firstBlockServer.onGetBlock plainMaps plainBodyReader 1 = some msg ∧
      (¬∃ n, askingNode.onRequestedBlock plainMaps plainBodyReader plainCrypto oneNodeRoster msg =
        some n ∧ fullBlock 1 ∈ n.table.rows) ∧
      ∃ t, askingNode.table.aergoliteSaveBlock plainBodyReader plainCrypto oneNodeRoster false
        (fullBlock 1).header [0] (fullBlock 1).votes = pure t ∧ fullBlock 1 ∈ t.rows := by
  have hserved : firstBlockServer.onGetBlock plainMaps plainBodyReader 1 =
      some (blockMessage plainMaps 1 (some (fullBlock 1).header, (fullBlock 1).body,
        some (fullBlock 1).votes)) :=
    onGetBlock_current rfl rfl (by decide)
  refine ⟨_, hserved, ?_, ⟨[fullBlock 2, fullBlock 1], by decide⟩, ?_,
    List.mem_cons_of_mem _ List.mem_cons_self⟩
  · rintro ⟨n, hn, hmem⟩
    rw [(ignored_of_get_state (onGetBlock_state hserved) _ _ _ _).2] at hn
    cases hn
    exact absurd hmem (by decide)
  · obtain ⟨read, hread, hverify⟩ :
        ∃ read, plainBodyReader.header? (fullBlock 1).header = some read ∧
          plainBodyReader.verifySaved plainCrypto oneNodeRoster (fullBlock 1).header [0]
            (fullBlock 1).votes = pure read :=
      exists_verifySaved (by decide +kernel) (by decide +kernel)
    have hheight : ∀ read ∈ plainReader.header? (fullBlock 1).header, read.height = 1 := by
      decide +kernel
    refine aergoliteSaveBlock_eq_pure.2 ⟨rfl, read, hverify, ?_, ?_⟩
    · rw [hheight read hread]
      decide
    · rw [hheight read hread]
      rfl

end NoLeader
end AergoLite
