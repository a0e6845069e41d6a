/-
# Requests for transactions

A full node that has saved a block of the history asks its peers for the transactions of the block
and keeps, with each request, the height of the block and the position of the transaction
(`on_requested_block`).  What a peer answers becomes a row of the table `transactions`
(`on_requested_remote_transaction`, both in `no-leader/requests.c`).

The log is checked as one that is new: its nonce must be above the last one of its node.  But the
transactions of the chain are those whose nonces are used, so a node that knows the chain refuses
all of them (`not_saved_of_used`), and a download does not end with the rows of a node that has
executed the blocks (`transactionRows_iff`).
-/

import AergoLite.Core.TransactionRows
import AergoLite.NoLeader.HistoryDownload
import AergoLite.NoLeader.Replay

namespace AergoLite
namespace NoLeader

open AergoLite.Core
open Transition

variable {D : Type}

/-! ## The node -/

/-- What `on_requested_remote_transaction` reads of a message. -/
structure RequestedTransaction where
  nodeId : ℤ
  nonce : ℤ
  log : Option Log

/-- A full node that asks for transactions. -/
structure TxnNode (D : Type) where
  core : Aergolite D
  history : HistoryNode

/-- `find_transaction_request`. -/
def HistoryNode.findTransactionRequest (n : HistoryNode) (tid : BitVec 64) : Option Request :=
  n.requests.find? fun request => request.transactionId == tid

/-- `request_transaction_finished`, of the request that is found for an id. -/
def HistoryNode.requestTransactionFinished (n : HistoryNode) (tid : BitVec 64) : HistoryNode :=
  n.setRequests (n.requests.eraseP fun request => request.transactionId == tid)

/-- The handler of a transaction that no block has yet, `on_new_remote_transaction`. -/
abbrev NewTransactionHandler (D : Type) := RequestedTransaction → TxnNode D → Option (TxnNode D)

/-- `on_requested_remote_transaction`. -/
def TxnNode.onRequestedRemoteTransaction (c : Crypto) (onNew : NewTransactionHandler D)
    (n : TxnNode D) (msg : RequestedTransaction) : Option (TxnNode D) :=
  let tid := buildTransactionId msg.nodeId msg.nonce
  match n.history.findTransactionRequest tid with
  | none => some n
  | some request =>
    if request.height = 0 then onNew msg n
    else match msg.log with
    | none => some n
    | some log =>
      if request.height < 0 ∨ request.seq = 0 then some n
      else match aergoliteSaveTransaction c n.core request.height request.seq msg.nodeId msg.nonce
        log with
      | none => none
      | some (rc, core) =>
        if rc ≠ .ok then some { n with core }
        else some ⟨core, n.history.requestTransactionFinished tid⟩

/-- What happens during a download. -/
inductive DownloadEvent
  /-- `on_requested_block` has saved a block. -/
  | saved (table : BlocksTable) (height : ℤ) (body : Bytes)
  /-- A peer answers a request for a transaction. -/
  | answered (msg : RequestedTransaction)
  /-- The timer of a request finds no more peers. -/
  | gaveUp (tid : BitVec 64)
  /-- Blocks are committed or lists are loaded, and the authorizations are others. -/
  | authorized (auths : List NodeAuth)

section
variable (b : BodyReader) (c : Crypto) (roster : Roster) (onNew : NewTransactionHandler D)

/-- What the node does then. -/
def TxnNode.step (n : TxnNode D) : DownloadEvent → Option (TxnNode D)
  | .saved table height body =>
      ((n.history.setTable table).onSavedBlock b c roster height body).map fun history =>
        { n with history }
  | .answered msg => n.onRequestedRemoteTransaction c onNew msg
  | .gaveUp tid => some { n with history := n.history.requestTransactionFinished tid }
  | .authorized authorizations => some { n with core := { n.core with authorizations } }

end

/-! ## The history -/

/-- Some blocks of the chain.  The ids of the transactions are positive, as `request_transaction`
asserts, and they are the primary key of the table `transactions`. -/
structure History where
  blocks : List ChainBlock
  height_pos : ∀ block ∈ blocks, 0 < block.height
  id_pos : ∀ block ∈ blocks, ∀ p ∈ block.places, 0 < p.txn.id.toInt
  unique : ∀ block ∈ blocks, ∀ p ∈ block.places, ∀ other ∈ blocks, ∀ q ∈ other.places,
    p.txn.id = q.txn.id → p = q

/-- Where the transactions of the history are. -/
def History.Has (history : History) (p : Place) : Prop := ∃ block ∈ history.blocks, p ∈ block.places

/-- The request for a transaction. -/
def requestOf (p : Place) : Request := ⟨0, p.txn.id, p.height, p.seq⟩

/-- The answer with its log. -/
def answerOf (p : Place) : RequestedTransaction := ⟨p.txn.nodeId, p.txn.nonce, some p.txn.log⟩

/-- The blocks that are saved and the transactions that are answered are those of the history. -/
def DownloadEvent.Of (b : BodyReader) (history : History) : DownloadEvent → Prop
  | .saved _ height body => ∃ block ∈ history.blocks, height = block.height ∧
      b.txnIds body = block.txns.map ChainTxn.bodyId
  | .answered msg => ∃ p, history.Has p ∧ msg = answerOf p
  | _ => True

/-- None of the transactions is asked for or saved yet. -/
structure TxnNode.Starts (n : TxnNode D) (history : History) : Prop where
  requests : ∀ request ∈ n.history.requests, ∀ p, history.Has p → request.transactionId ≠ p.txn.id
  rows : ∀ row ∈ n.core.transactionRows, ∀ p, history.Has p → row.tid ≠ p.txn.id

/-- A transaction that is asked for is answered, when its row can be saved. -/
def AnsweredSavable (c : Crypto) (p : Place) (n : TxnNode D) (event : DownloadEvent) : Prop :=
  event = .answered (answerOf p) ∧ requestOf p ∈ n.history.requests ∧ Savable c n.core p.txn

/-! ## What is requested -/

theorem unflagged_eq_maskTxnId (tid : BitVec 64) : unflagged tid = maskTxnId tid := by
  have hmask : (0x7fffffffffffffff#64) = ~~~failedFlag := by decide
  unfold unflagged maskTxnId
  rw [hmask]

/-- The id that is requested is that of the transaction. -/
theorem unflagged_bodyId {txn : ChainTxn} (h : 0 < txn.id.toInt) : unflagged txn.bodyId = txn.id := by
  have hmask : maskTxnId txn.id = txn.id := by
    apply BitVec.eq_of_toNat_eq
    rw [toNat_maskTxnId]
    rw [BitVec.toInt_eq_toNat_cond] at h
    split_ifs at h
    · omega
    · omega
  rw [unflagged_eq_maskTxnId]
  unfold ChainTxn.bodyId
  split_ifs
  · rw [maskTxnId_flagged, hmask]
  · exact hmask

/-- **The requests for a block have the heights and the positions of its transactions.** -/
theorem txnRequests_eq {height : ℤ} {txns : List ChainTxn} {count : ℕ}
    (hpos : ∀ p ∈ placesFrom height txns count, 0 < p.txn.id.toInt) :
    txnRequests height (txns.map ChainTxn.bodyId) count =
      (placesFrom height txns count).map requestOf := by
  induction txns generalizing count with
  | nil => rfl
  | cons txn txns ih =>
      rw [placesFrom, List.forall_mem_cons] at hpos
      rw [List.map_cons, txnRequests, placesFrom, List.map_cons, ih hpos.2, unflagged_bodyId hpos.1]
      rfl

theorem txnRequests_of_block {history : History} {block : ChainBlock}
    (hblock : block ∈ history.blocks) {b : BodyReader} {body : Bytes}
    (hbody : b.txnIds body = block.txns.map ChainTxn.bodyId) :
    txnRequests block.height (b.txnIds body) 0 = block.places.map requestOf := by
  rw [hbody]
  exact txnRequests_eq (history.id_pos block hblock)

section
variable {b : BodyReader} {c : Crypto} {roster : Roster}

/-- The search for the next block asks for blocks only. -/
theorem requestMissingBlocks_requests (n : HistoryNode) {height : ℤ} (hheight : height ≠ 0) :
    ∃ more, (n.requestMissingBlocks b c roster height).requests = n.requests ++ more ∧
      ∀ request ∈ more, request.transactionId = 0 := by
  have hnone : ∀ request ∈ ([] : List Request), request.transactionId = 0 :=
    fun _ h => absurd h List.not_mem_nil
  obtain ⟨downloading, hsearch | ⟨next, -, hsearch⟩⟩ :=
    requestMissingBlocks_cases b c roster n hheight
  · rw [hsearch]
    exact ⟨[], (List.append_nil _).symm, hnone⟩
  · rw [hsearch]
    rcases requestBlock_cases (n.setDownloading downloading) next with hcase | hcase
    · rw [hcase]
      exact ⟨[], (List.append_nil _).symm, hnone⟩
    · rw [hcase]
      refine ⟨[blockRequest next], rfl, fun request hrequest => ?_⟩
      rw [List.mem_singleton.1 hrequest]
      rfl

/-- **The requests that run after a block is saved**: those that ran but for that of the block,
those for its transactions, and requests for blocks. -/
theorem onSavedBlock_requests {n n' : HistoryNode} {height : ℤ} {body : Bytes}
    (hheight : height ≠ 0) (h : n.onSavedBlock b c roster height body = some n') :
    ∃ more, n'.requests = ((n.requests ++ if n.connected then txnRequests height (b.txnIds body) 0
        else []).eraseP fun request => request.blockHeight == height) ++ more ∧
      ∀ request ∈ more, request.transactionId = 0 := by
  obtain ⟨m, hm, rfl⟩ := Option.map_eq_some_iff.1 h
  obtain rfl := requestTransactions_eq hm
  exact requestMissingBlocks_requests _ hheight

/-- **The transactions of a block that is saved are asked for**, while a peer is connected. -/
theorem requestOf_mem_onSavedBlock {history : History} {block : ChainBlock}
    (hblock : block ∈ history.blocks) {n n' : HistoryNode} {body : Bytes}
    (hbody : b.txnIds body = block.txns.map ChainTxn.bodyId) (hconnected : n.connected = true)
    (h : n.onSavedBlock b c roster block.height body = some n') {p : Place}
    (hp : p ∈ block.places) : requestOf p ∈ n'.requests := by
  have hheight := history.height_pos block hblock
  obtain ⟨more, hrequests, -⟩ := onSavedBlock_requests hheight.ne' h
  rw [hrequests, if_pos hconnected, txnRequests_of_block hblock hbody]
  refine List.mem_append_left _ ((List.mem_eraseP_of_neg ?_).2 (List.mem_append_right _ ?_))
  · simpa [requestOf] using hheight.ne
  · exact List.mem_map_of_mem hp

end

/-! ## What a download keeps -/

/-- What holds during a download: the requests for the transactions of the history have their
heights and positions, and the rows that are added are theirs. -/
structure Downloading (history : History) (start n : TxnNode D) : Prop where
  requests : ∀ request ∈ n.history.requests, ∀ p, history.Has p →
    request.transactionId = p.txn.id → request = requestOf p
  rows : ∀ row ∈ n.core.transactionRows,
    row ∈ start.core.transactionRows ∨ ∃ p, history.Has p ∧ row = p.row
  kept : ∀ row ∈ start.core.transactionRows, row ∈ n.core.transactionRows
  adminPubkey : n.core.adminPubkey = start.core.adminPubkey

theorem TxnNode.Starts.downloading {n : TxnNode D} {history : History} (h : n.Starts history) :
    Downloading history n n :=
  ⟨fun request hrequest p hp heq => absurd heq (h.requests request hrequest p hp),
    fun _ hrow => .inl hrow, fun _ hrow => hrow, rfl⟩

theorem seq_ne_zero_of_mem_placesFrom {height : ℤ} {txns : List ChainTxn} {count : ℕ} {p : Place}
    (h : p ∈ placesFrom height txns count) : p.seq ≠ 0 := by
  induction txns generalizing count with
  | nil => exact absurd h List.not_mem_nil
  | cons txn txns ih =>
      rcases List.mem_cons.1 h with rfl | h
      · exact Nat.succ_ne_zero count
      · exact ih h

theorem History.Has.height_pos {history : History} {p : Place} (h : history.Has p) :
    0 < p.height := by
  obtain ⟨block, hblock, hp⟩ := h
  rw [height_of_mem_placesFrom hp]
  exact history.height_pos block hblock

theorem History.Has.seq_ne_zero {history : History} {p : Place} (h : history.Has p) :
    p.seq ≠ 0 := by
  obtain ⟨block, -, hp⟩ := h
  exact seq_ne_zero_of_mem_placesFrom hp

theorem History.Has.id_ne_zero {history : History} {p : Place} (h : history.Has p) :
    p.txn.id ≠ 0 := by
  obtain ⟨block, hblock, hp⟩ := h
  intro hzero
  have hpos := history.id_pos block hblock p hp
  rw [hzero] at hpos
  exact absurd hpos (by decide)

theorem History.Has.eq_of_id {history : History} {p q : Place} (hp : history.Has p)
    (hq : history.Has q) (h : p.txn.id = q.txn.id) : p = q := by
  obtain ⟨block, hblock, hp⟩ := hp
  obtain ⟨other, hother, hq⟩ := hq
  exact history.unique block hblock p hp other hother q hq h

/-- A request that runs after a block of the history is saved ran before, asks for a block, or
asks for one of its transactions. -/
theorem request_of_onSavedBlock {b : BodyReader} {c : Crypto} {roster : Roster}
    {history : History} {block : ChainBlock} (hblock : block ∈ history.blocks)
    {n n' : HistoryNode} {body : Bytes} (hbody : b.txnIds body = block.txns.map ChainTxn.bodyId)
    (h : n.onSavedBlock b c roster block.height body = some n') {request : Request}
    (hmem : request ∈ n'.requests) :
    request ∈ n.requests ∨ request.transactionId = 0 ∨ ∃ p, history.Has p ∧ request = requestOf p := by
  obtain ⟨more, hrequests, hmore⟩ :=
    onSavedBlock_requests (history.height_pos block hblock).ne' h
  rw [hrequests] at hmem
  rcases List.mem_append.1 hmem with hmem | hmem
  · rcases List.mem_append.1 (List.mem_of_mem_eraseP hmem) with hold | hnew
    · exact .inl hold
    · split_ifs at hnew
      · rw [txnRequests_of_block hblock hbody] at hnew
        obtain ⟨p, hp, rfl⟩ := List.mem_map.1 hnew
        exact .inr (.inr ⟨p, ⟨block, hblock, hp⟩, rfl⟩)
      · exact absurd hnew List.not_mem_nil
  · exact .inr (.inl (hmore request hmem))

/-- What an answer leaves: requests are finished, and the row is added if it was asked for and can
be saved. -/
structure Answered (c : Crypto) (p : Place) (n n' : TxnNode D) : Prop where
  requests : ∀ request ∈ n'.history.requests, request ∈ n.history.requests
  adminPubkey : n'.core.adminPubkey = n.core.adminPubkey
  authorizations : n'.core.authorizations = n.core.authorizations
  saves : requestOf p ∈ n.history.requests → Savable c n.core p.txn →
    n'.core.transactionRows = n.core.transactionRows ++ [p.row]
  keeps : ¬(requestOf p ∈ n.history.requests ∧ Savable c n.core p.txn) →
    n'.core.transactionRows = n.core.transactionRows

/-- **What an authentic answer does.** -/
theorem answered_of_onRequested {c : Crypto} {onNew : NewTransactionHandler D} {history : History}
    {start n n' : TxnNode D} {p : Place} (hd : Downloading history start n) (hp : history.Has p)
    (hauthentic : p.txn.Authentic c n.core.adminPubkey)
    (h : n.onRequestedRemoteTransaction c onNew (answerOf p) = some n') : Answered c p n n' := by
  unfold TxnNode.onRequestedRemoteTransaction at h
  change (match n.history.findTransactionRequest p.txn.id with
    | none => _
    | some request => _) = some n' at h
  cases hfind : n.history.findTransactionRequest p.txn.id with
  | none =>
      have hnot : requestOf p ∉ n.history.requests := fun hmem =>
        absurd (List.find?_eq_none.1 hfind _ hmem) (by simp [requestOf])
      rw [hfind] at h
      obtain rfl := Option.some.inj h
      exact ⟨fun _ hmem => hmem, rfl, rfl, fun hmem _ => absurd hmem hnot, fun _ => rfl⟩
  | some request =>
      have hmem := List.mem_of_find?_eq_some hfind
      have hid : request.transactionId = p.txn.id := by simpa using List.find?_some hfind
      obtain rfl := hd.requests request hmem p hp hid
      have hheight := hp.height_pos
      have hseq := hp.seq_ne_zero
      rw [hfind] at h
      dsimp only [requestOf, answerOf] at h
      rw [if_neg hheight.ne', if_neg (not_or.2 ⟨by omega, hseq⟩)] at h
      split at h
      · cases h
      · rename_i rc core hsave
        obtain ⟨hadmin, hauths, hsaves, hkeeps⟩ := aergoliteSaveTransaction_rows hauthentic hsave
        split_ifs at h
        · obtain rfl := Option.some.inj h
          exact ⟨fun _ hr => hr, hadmin, hauths, fun _ => hsaves, fun hnot =>
            hkeeps fun hs => hnot ⟨hmem, hs⟩⟩
        · obtain rfl := Option.some.inj h
          exact ⟨fun _ hr => List.mem_of_mem_eraseP hr, hadmin, hauths, fun _ => hsaves,
            fun hnot => hkeeps fun hs => hnot ⟨hmem, hs⟩⟩

/-- Fewer requests and the same rows. -/
theorem Downloading.of_subset {history : History} {start n n' : TxnNode D}
    (hd : Downloading history start n)
    (hrequests : ∀ request ∈ n'.history.requests, request ∈ n.history.requests)
    (hrows : n'.core.transactionRows = n.core.transactionRows)
    (hadmin : n'.core.adminPubkey = n.core.adminPubkey) : Downloading history start n' := by
  refine ⟨fun request hmem => hd.requests request (hrequests request hmem), ?_, ?_,
    hadmin.trans hd.adminPubkey⟩
  · rw [hrows]
    exact hd.rows
  · rw [hrows]
    exact hd.kept

/-- The row of a transaction says where it is. -/
theorem History.Has.eq_of_row {history : History} {p q : Place} (hp : history.Has p)
    (hq : history.Has q) (h : p.row = q.row) : p = q :=
  hp.eq_of_id hq (congrArg TransactionRow.tid h)

/-- An answer keeps the rows and the requests as they should be. -/
theorem Downloading.of_answered {history : History} {start n n' : TxnNode D} {c : Crypto}
    {p : Place} (hd : Downloading history start n) (hp : history.Has p) (h : Answered c p n n') :
    Downloading history start n' := by
  by_cases hsaved : requestOf p ∈ n.history.requests ∧ Savable c n.core p.txn
  · have hrows := h.saves hsaved.1 hsaved.2
    refine ⟨fun request hmem => hd.requests request (h.requests request hmem), ?_, ?_,
      h.adminPubkey.trans hd.adminPubkey⟩
    · intro row hrow
      rw [hrows, List.mem_append, List.mem_singleton] at hrow
      rcases hrow with hold | rfl
      · exact hd.rows row hold
      · exact .inr ⟨p, hp, rfl⟩
    · intro row hrow
      rw [hrows]
      exact List.mem_append_left _ (hd.kept row hrow)
  · exact hd.of_subset h.requests (h.keeps hsaved) h.adminPubkey

/-- An answer adds the row of its transaction, if it is asked for and can be saved. -/
theorem Answered.row_mem_iff {history : History} {n n' : TxnNode D} {c : Crypto} {p q : Place}
    (hp : history.Has p) (hq : history.Has q) (h : Answered c q n n') :
    p.row ∈ n'.core.transactionRows ↔ p.row ∈ n.core.transactionRows ∨
      (answerOf q = answerOf p ∧ requestOf p ∈ n.history.requests ∧ Savable c n.core p.txn) := by
  have hsame : answerOf q = answerOf p → q = p := by
    intro heq
    refine hq.eq_of_id hp ?_
    unfold ChainTxn.id
    rw [show q.txn.nodeId = p.txn.nodeId from congrArg RequestedTransaction.nodeId heq,
      show q.txn.nonce = p.txn.nonce from congrArg RequestedTransaction.nonce heq]
  by_cases hsaved : requestOf q ∈ n.history.requests ∧ Savable c n.core q.txn
  · rw [h.saves hsaved.1 hsaved.2, List.mem_append, List.mem_singleton]
    refine or_congr_right ⟨fun hrow => ?_, fun ⟨heq, _⟩ => ?_⟩
    · obtain rfl := hp.eq_of_row hq hrow
      exact ⟨rfl, hsaved⟩
    · rw [hsame heq]
  · rw [h.keeps hsaved]
    refine ⟨.inl, fun hrow => hrow.resolve_right fun ⟨heq, hsave⟩ => hsaved ?_⟩
    rw [hsame heq]
    exact hsave

section
variable {b : BodyReader} {c : Crypto} {roster : Roster} {onNew : NewTransactionHandler D}
  {history : History} {start n n' : TxnNode D} {p : Place}

/-- **What a step of a download does**: it keeps the requests and the rows as they should be, and
the row of a transaction is added by its answer only. -/
theorem Downloading.step {event : DownloadEvent}
    (hauthentic : ∀ p, history.Has p → p.txn.Authentic c start.core.adminPubkey)
    (hd : Downloading history start n) (hevent : event.Of b history)
    (h : n.step b c roster onNew event = some n') :
    Downloading history start n' ∧ ∀ p, history.Has p → (p.row ∈ n'.core.transactionRows ↔
      p.row ∈ n.core.transactionRows ∨ AnsweredSavable c p n event) := by
  have hother : (∀ msg, event ≠ .answered msg) →
      n'.core.transactionRows = n.core.transactionRows →
      ∀ p, history.Has p → (p.row ∈ n'.core.transactionRows ↔
        p.row ∈ n.core.transactionRows ∨ AnsweredSavable c p n event) := by
    intro hne hrows p _
    rw [hrows]
    exact ⟨.inl, fun hrow => hrow.resolve_right fun hanswered => hne _ hanswered.1⟩
  cases event with
  | saved table height body =>
      obtain ⟨block, hblock, rfl, hbody⟩ := hevent
      obtain ⟨history', hsaved, rfl⟩ := Option.map_eq_some_iff.1 h
      refine ⟨⟨fun request hmem p hp hid => ?_, hd.rows, hd.kept, hd.adminPubkey⟩,
        hother nofun rfl⟩
      rcases request_of_onSavedBlock hblock hbody hsaved hmem with hold | hzero | ⟨q, hq, rfl⟩
      · exact hd.requests request hold p hp hid
      · exact absurd (hid.symm.trans hzero) hp.id_ne_zero
      · rw [hq.eq_of_id hp hid]
  | answered msg =>
      obtain ⟨q, hq, rfl⟩ := hevent
      have hanswered := answered_of_onRequested hd hq (hd.adminPubkey ▸ hauthentic q hq) h
      refine ⟨hd.of_answered hq hanswered, fun p hp => ?_⟩
      refine (hanswered.row_mem_iff hp hq).trans (or_congr_right (and_congr_left' ?_))
      exact ⟨congrArg DownloadEvent.answered, DownloadEvent.answered.inj⟩
  | gaveUp tid =>
      obtain rfl := Option.some.inj h
      exact ⟨hd.of_subset (fun _ hmem => List.mem_of_mem_eraseP hmem) rfl rfl, hother nofun rfl⟩
  | authorized auths =>
      obtain rfl := Option.some.inj h
      exact ⟨hd.of_subset (fun _ hmem => hmem) rfl rfl, hother nofun rfl⟩

variable {events : List DownloadEvent}

/-- What holds during a download holds at its end. -/
theorem Downloading.run (hstart : start.Starts history)
    (hauthentic : ∀ p, history.Has p → p.txn.Authentic c start.core.adminPubkey)
    (hevents : ∀ event ∈ events, event.Of b history)
    (hrun : System.run (TxnNode.step b c roster onNew) start events = some n') :
    Downloading history start n' := by
  have hstep : ∀ {n : TxnNode D} {event n'}, Downloading history start n → event.Of b history →
      n.step b c roster onNew event = some n' →
      Downloading history start n' ∧ (True ↔ True ∨ True) :=
    fun hd hevent h => ⟨(hd.step hauthentic hevent h).1, (or_self_iff).symm⟩
  exact (System.iff_of_run (Q := fun _ _ => True) (R := fun _ => True) hstep hstart.downloading
    hevents hrun).1

/-- **What a download saves.**  The row of a transaction is in the table if and only if the
transaction was answered while it was asked for and its row could be saved. -/
theorem row_mem_iff_of_run (hstart : start.Starts history)
    (hauthentic : ∀ p, history.Has p → p.txn.Authentic c start.core.adminPubkey)
    (hevents : ∀ event ∈ events, event.Of b history)
    (hrun : System.run (TxnNode.step b c roster onNew) start events = some n') {p : Place}
    (hp : history.Has p) :
    p.row ∈ n'.core.transactionRows ↔
      System.Meets (TxnNode.step b c roster onNew) (AnsweredSavable c p) start events := by
  have hstep : ∀ {n : TxnNode D} {event n'}, Downloading history start n → event.Of b history →
      n.step b c roster onNew event = some n' → Downloading history start n' ∧
        (p.row ∈ n'.core.transactionRows ↔
          p.row ∈ n.core.transactionRows ∨ AnsweredSavable c p n event) :=
    fun hd hevent h => (hd.step hauthentic hevent h).imp_right fun hrow => hrow p hp
  obtain ⟨-, hrow⟩ := System.iff_of_run (R := fun n => p.row ∈ n.core.transactionRows) hstep
    hstart.downloading hevents hrun
  refine hrow.trans ⟨fun hmem => hmem.resolve_left fun hold => ?_, .inr⟩
  exact hstart.rows p.row hold p hp rfl

/-- **A node that knows the chain saves nothing.**  A transaction whose nonce is used, by every
list that the node has during the download, is refused. -/
theorem not_saved_of_used (hstart : start.Starts history)
    (hauthentic : ∀ p, history.Has p → p.txn.Authentic c start.core.adminPubkey)
    (hevents : ∀ event ∈ events, event.Of b history)
    (hrun : System.run (TxnNode.step b c roster onNew) start events = some n') {p : Place}
    (hp : history.Has p) (hused : p.txn.Used start.core.authorizations)
    (hlists : ∀ auths, .authorized auths ∈ events → p.txn.Used auths) :
    p.row ∉ n'.core.transactionRows := by
  rw [row_mem_iff_of_run hstart hauthentic hevents hrun hp]
  have hstep : ∀ {n : TxnNode D} {event n'},
      (Downloading history start n ∧ p.txn.Used n.core.authorizations) →
      (event.Of b history ∧ ∀ auths, event = .authorized auths → p.txn.Used auths) →
      n.step b c roster onNew event = some n' →
      Downloading history start n' ∧ p.txn.Used n'.core.authorizations := by
    rintro n event n' ⟨hd, hn⟩ ⟨hevent, hlist⟩ h
    refine ⟨(hd.step hauthentic hevent h).1, ?_⟩
    cases event with
    | saved table height body =>
        obtain ⟨history', -, rfl⟩ := Option.map_eq_some_iff.1 h
        exact hn
    | answered msg =>
        obtain ⟨q, hq, rfl⟩ := hevent
        rw [(answered_of_onRequested hd hq (hd.adminPubkey ▸ hauthentic q hq) h).authorizations]
        exact hn
    | gaveUp tid =>
        obtain rfl := Option.some.inj h
        exact hn
    | authorized auths =>
        obtain rfl := Option.some.inj h
        exact hlist auths rfl
  refine System.not_meets hstep (fun hn _ hanswered => hn.2.not_unused hanswered.2.2.unused)
    ⟨hstart.downloading, hused⟩ fun event hevent => ⟨hevents event hevent, ?_⟩
  rintro auths rfl
  exact hlists auths hevent

/-- The rows of a node that has executed the blocks of the history. -/
theorem mem_executed_iff {env : Env D} {isFullNode : ℤ → Bool} {a a' : Aergolite D}
    (h : Executes env isFullNode history.blocks a a') {row : TransactionRow} :
    row ∈ a'.transactionRows ↔ row ∈ a.transactionRows ∨
      ∃ p, history.Has p ∧ isFullNode p.height = true ∧ p.txn.failed = false ∧ p.row = row := by
  unfold Aergolite.transactionRows
  rw [h.transactions, List.mem_append, List.mem_flatMap]
  refine or_congr_right ⟨?_, ?_⟩
  · rintro ⟨block, hblock, hrow⟩
    obtain ⟨p, hp, hfull, hfailed, rfl⟩ := mem_savedRows.1 hrow
    rw [← height_of_mem_placesFrom hp] at hfull
    exact ⟨p, ⟨block, hblock, hp⟩, hfull, hfailed, rfl⟩
  · rintro ⟨p, ⟨block, hblock, hp⟩, hfull, hfailed, rfl⟩
    rw [height_of_mem_placesFrom hp] at hfull
    exact ⟨block, hblock, mem_savedRows.2 ⟨p, hp, hfull, hfailed, rfl⟩⟩

/-- **When a download ends with the rows of the blocks.**  Every transaction is saved, and the rows
are those of a node that has executed the blocks, if and only if no transaction is one that has
failed, `this_node->is_full_node` was set where the blocks were executed, and each answer came to a
node where the nonce was not used yet. -/
theorem transactionRows_iff {env : Env D} {isFullNode : ℤ → Bool} {executing executed : Aergolite D}
    (hstart : start.Starts history)
    (hauthentic : ∀ p, history.Has p → p.txn.Authentic c start.core.adminPubkey)
    (hevents : ∀ event ∈ events, event.Of b history)
    (hrun : System.run (TxnNode.step b c roster onNew) start events = some n')
    (hexecutes : Executes env isFullNode history.blocks executing executed)
    (hsame : executing.transactionRows = start.core.transactionRows) :
    ((∀ p, history.Has p → p.row ∈ n'.core.transactionRows) ∧
        ∀ row, row ∈ n'.core.transactionRows ↔ row ∈ executed.transactionRows) ↔
      ∀ p, history.Has p → p.txn.failed = false ∧ isFullNode p.height = true ∧
        System.Meets (TxnNode.step b c roster onNew) (AnsweredSavable c p) start events := by
  have hd := Downloading.run hstart hauthentic hevents hrun
  have hrow := fun {p} hp =>
    row_mem_iff_of_run (p := p) hstart hauthentic hevents hrun hp
  constructor
  · rintro ⟨hall, heq⟩ p hp
    have hmem := hall p hp
    rcases (mem_executed_iff hexecutes).1 ((heq p.row).1 hmem) with
      hold | ⟨q, hq, hfull, hfailed, hqrow⟩
    · exact absurd rfl (hstart.rows p.row (hsame ▸ hold) p hp)
    · obtain rfl := hq.eq_of_row hp hqrow
      exact ⟨hfailed, hfull, (hrow hp).1 hmem⟩
  · intro h
    have hall : ∀ p, history.Has p → p.row ∈ n'.core.transactionRows :=
      fun p hp => (hrow hp).2 (h p hp).2.2
    refine ⟨hall, fun row => ⟨fun hmem => (mem_executed_iff hexecutes).2 ?_, fun hmem => ?_⟩⟩
    · rcases hd.rows row hmem with hold | ⟨p, hp, rfl⟩
      · exact .inl (hsame ▸ hold)
      · exact .inr ⟨p, hp, (h p hp).2.1, (h p hp).1, rfl⟩
    · rcases (mem_executed_iff hexecutes).1 hmem with hold | ⟨p, hp, -, -, rfl⟩
      · exact hd.kept row (hsame ▸ hold)
      · exact hall p hp

end

/-- The first transaction of the first node, in a block. -/
def firstChainTxn : ChainTxn := ⟨1, 1, firstLog 1, false⟩

/-- Where it is. -/
def firstPlace : Place := ⟨1, 1, firstChainTxn⟩

/-- A history of one block. -/
def firstHistory : History where
  blocks := [⟨1, [firstChainTxn]⟩]
  height_pos := by decide
  id_pos := by decide
  unique block hblock p hp other hother q hq _ := by
    rw [List.mem_singleton.1 hblock] at hp
    rw [List.mem_singleton.1 hother] at hq
    exact (List.mem_singleton.1 hp).trans (List.mem_singleton.1 hq).symm

theorem firstHistory_has {p : Place} (h : firstHistory.Has p) : p = firstPlace := by
  obtain ⟨block, hblock, hp⟩ := h
  rw [List.mem_singleton.1 hblock] at hp
  exact List.mem_singleton.1 hp

theorem firstPlace_has : firstHistory.Has firstPlace :=
  ⟨⟨1, [firstChainTxn]⟩, List.mem_singleton_self _, List.mem_singleton_self _⟩

theorem firstChainTxn_authentic : firstChainTxn.Authentic plainCrypto (List.replicate 33 9) :=
  ⟨threeNodes, "d".toList, rfl⟩

/-- A full node without transactions, with the last nonce of the three nodes. -/
def nodeWithoutRows (lastNonce : ℤ) : TxnNode Unit where
  core := freshAergolite 1 (keyOf 1)
    ([1, 2, 3].map fun n : ℕ => ⟨keyOf n, n, true, 1, lastNonce, lastNonce⟩)
    [⟨1, keyOf 1, 1, "full".toList, 0⟩]
  history := ⟨⟨[], by decide⟩, false, some 1, [⟨1, 0, 0, 0⟩], false, true⟩

/-- It reads the transaction in each body. -/
def firstTxnReader : BodyReader := { plainBodyReader with txnIds := fun _ => [firstTid 1] }

/-- The block is saved and the transaction is answered. -/
def firstDownload : List DownloadEvent :=
  [.saved ⟨[fullBlock 1], nodup_firstBlock⟩ 1 [0], .answered (answerOf firstPlace)]

/-- What the node does then. -/
def firstStep (n : TxnNode Unit) (event : DownloadEvent) : Option (TxnNode Unit) :=
  n.step firstTxnReader plainCrypto oneNodeRoster (fun _ n => some n) event

/-- A full node that executes the block. -/
def executingNode : Aergolite Unit := { (nodeWithoutRows 0).core with isFullNode := true }

/-- It makes the block and commits it. -/
theorem executingNode_executes :
    ∃ executed, Executes plainEnv (fun _ => true) firstHistory.blocks executingNode executed := by
  have hrun : ((executeTransactions plainEnv [firstChainTxn] (aergoliteBeginBlock executingNode).2).any
      fun executed => match aergoliteCreateBlock plainEnv 0 executed with
        | (.ok (header, body), created) =>
          (aergoliteCommitBlock plainEnv created header body []).1 == .ok
        | (.error _, _) => false) = true := by
    decide +kernel
  obtain ⟨executed, hexecutes, hcommits⟩ := (Option.any_eq_true _ _).1 hrun
  have hbegins : aergoliteBeginBlock executingNode = (.ok, (aergoliteBeginBlock executingNode).2) :=
    Prod.ext (by decide +kernel) rfl
  split at hcommits
  · rename_i header body created hcreates
    exact ⟨_, .cons rfl rfl rfl (.created rfl hbegins hexecutes hcreates
      (Prod.ext (beq_iff_eq.1 hcommits) rfl)) (.nil _)⟩
  · cases hcommits

theorem nodeWithoutRows_starts (lastNonce : ℤ) :
    (nodeWithoutRows lastNonce).Starts firstHistory := by
  constructor
  · intro request hrequest p hp
    rw [List.mem_singleton.1 hrequest]
    exact hp.id_ne_zero.symm
  · exact fun _ h => absurd h List.not_mem_nil

theorem firstDownload_of : ∀ event ∈ firstDownload, event.Of firstTxnReader firstHistory := by
  intro event hevent
  rcases List.mem_cons.1 hevent with rfl | hevent
  · exact ⟨_, List.mem_singleton_self _, rfl, rfl⟩
  · rw [List.mem_singleton.1 hevent]
    exact ⟨firstPlace, firstPlace_has, rfl⟩

/-- The hypotheses hold of the download of one block. -/
theorem transactionRows_iff_first : ∃ n' executed,
    System.run firstStep (nodeWithoutRows 0) firstDownload = some n' ∧
      Executes plainEnv (fun _ => true) firstHistory.blocks executingNode executed ∧
      (((∀ p, firstHistory.Has p → p.row ∈ n'.core.transactionRows) ∧
          ∀ row, row ∈ n'.core.transactionRows ↔ row ∈ executed.transactionRows) ↔
        ∀ p, firstHistory.Has p → p.txn.failed = false ∧ true = true ∧
          System.Meets firstStep (AnsweredSavable plainCrypto p) (nodeWithoutRows 0)
            firstDownload) := by
  have hrun : (System.run firstStep (nodeWithoutRows 0) firstDownload).isSome = true := by
    decide +kernel
  obtain ⟨n', hn'⟩ := Option.isSome_iff_exists.1 hrun
  obtain ⟨executed, hexecutes⟩ := executingNode_executes
  refine ⟨n', executed, hn', hexecutes, transactionRows_iff (nodeWithoutRows_starts 0) ?_
    firstDownload_of hn' hexecutes rfl⟩
  intro p hp
  rw [firstHistory_has hp]
  exact firstChainTxn_authentic

/-- **A transaction of the chain is not saved.**  A node that has the nonces of the chain asks for
the transaction of a block, gets its authentic log, and does not save it; a full node that executes
the block has the row. -/
theorem chain_transaction_not_saved : ∃ asking n' executed,
    firstStep (nodeWithoutRows 1) (.saved ⟨[fullBlock 1], by decide⟩ 1 [0]) = some asking ∧
      requestOf firstPlace ∈ asking.history.requests ∧
      firstPlace.txn.Authentic plainCrypto asking.core.adminPubkey ∧
      firstStep asking (.answered (answerOf firstPlace)) = some n' ∧
      firstPlace.row ∉ n'.core.transactionRows ∧
      Executes plainEnv (fun _ => true) firstHistory.blocks executingNode executed ∧
      firstPlace.row ∈ executed.transactionRows := by
  have hrun : ((firstStep (nodeWithoutRows 1) (.saved ⟨[fullBlock 1], by decide⟩ 1 [0])).any
      fun asking => decide (requestOf firstPlace ∈ asking.history.requests) &&
        asking.core.adminPubkey == List.replicate 33 9 &&
        (firstStep asking (.answered (answerOf firstPlace))).any
          fun n' => n'.core.transactionRows.isEmpty) = true := by
    decide +kernel
  obtain ⟨asking, hsaved, hasked⟩ := (Option.any_eq_true _ _).1 hrun
  rw [Bool.and_eq_true, Bool.and_eq_true] at hasked
  obtain ⟨⟨hrequest, hadmin⟩, hanswer⟩ := hasked
  obtain ⟨n', hn', hempty⟩ := (Option.any_eq_true _ _).1 hanswer
  obtain ⟨executed, hexecutes⟩ := executingNode_executes
  refine ⟨asking, n', executed, hsaved, of_decide_eq_true hrequest, ?_, hn', ?_, hexecutes, ?_⟩
  · rw [beq_iff_eq.1 hadmin]
    exact firstChainTxn_authentic
  · rw [List.isEmpty_iff.1 hempty]
    exact List.not_mem_nil
  · exact (mem_executed_iff hexecutes).2 (.inr ⟨firstPlace, firstPlace_has, rfl, rfl, rfl⟩)

end NoLeader
end AergoLite
