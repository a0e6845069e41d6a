/-
# What a node sends to one that connects

A node that accepts another one sends it the transactions of its mempool, the blocks that are not
committed yet with their proofs, and all votes it knows: those that its blocks have counted, and
those whose blocks it waits for (`on_new_accepted_node`).  They are the same messages as when a
block or a vote is new, so they pass the same checks: a block was verified when it arrived, or the
node has signed it (`vouched_listed`), and so was each vote (`sendable_of_reachable`).

So the other node, once these messages have arrived, knows every vote this one knew, and has each
of the blocks with at least as many votes, unless it has passed their height (`catch_up`).
-/

import AergoLite.NoLeader.StoredVotes
import AergoLite.NoLeader.VoteCounting

namespace AergoLite
namespace NoLeader

open AergoLite.Core
open Transition

variable {D : Type}

/-! ## The messages -/

/-- `send_mempool_transactions` -/
def sendMempoolTransactions (p : Plugin D) : List Event :=
  p.mempool.map fun txn => .transaction txn.nodeId txn.nonce txn.log

/-- `encode_new_block`; `vrfProof` is the proof that is kept with a block. -/
def encodeNewBlock (vrfProof : ℤ × Bytes → Bytes) (block : Block) : Event :=
  .newBlock block.header block.body (vrfProof block.key)

/-- `send_new_blocks` -/
def sendNewBlocks (vrfProof : ℤ × Bytes → Bytes) (p : Plugin D) : List Event :=
  p.newBlocks.map (encodeNewBlock vrfProof)

/-- `send_block_vote` -/
def sendBlockVote (height : ℤ) (blockId : Bytes) (round : Fin 2) (nodeId : ℤ) (sig : Bytes) :
    VoteMessage :=
  ⟨height, nodeId, round.val, blockId, sig⟩

/-- `send_block_votes`: the votes on the blocks that have arrived, and then the others. -/
def sendBlockVotes (p : Plugin D) : List VoteMessage :=
  (p.newBlocks.flatMap fun block => [0, 1].flatMap fun round => (block.tempVotes round).map
    fun vote => sendBlockVote block.height block.id round vote.nodeId vote.sig) ++
  p.blockVotes.map fun vote =>
    sendBlockVote vote.height vote.blockId vote.round vote.nodeId vote.sig

/-- `on_new_accepted_node`, without the list of peers: what is sent, and the node afterwards. -/
def onNewAcceptedNode (net : Net D) (vrfProof : ℤ × Bytes → Bytes) (p : Plugin D) :
    List Event × Plugin D :=
  (sendMempoolTransactions p ++ sendNewBlocks vrfProof p ++ (sendBlockVotes p).map .blockVote,
    startNewBlockTimer net p)

/-- The node that has made what the message carries. -/
def Event.sender : Event → Option ℤ
  | .newBlock header _ _ => some header.nodeId
  | .blockVote msg => some msg.nodeId
  | _ => none

/-- Each id belongs to one key, and if what arrives is one of the messages `sent`, the list
has the node that has made it. -/
structure Informed (key : ℤ → Bytes) (sent : List Event) (p : Plugin D) (e : Event) : Prop where
  keys : KeysOf key p
  sender : e ∈ sent → ∀ nodeId ∈ e.sender,
    (aergoliteGetAuthorization p.core.authorizations nodeId).isSome

/-- The node, while no two keys have one id and `this_node->id` is that of the plugin. -/
def identified (net : Net D) (key : ℤ → Bytes) : System (Plugin D) Event :=
  (node net).restrict fun p _ => KeysOf key p ∧ p.core.id = p.nodeId

/-! ## The blocks on the list -/

/-- What of a block is sent, with the values it is known by. -/
def Block.content (block : Block) : (ℤ × Bytes) × Header × Body :=
  (block.key, block.header, block.body)

theorem content_of_fixed {block other : Block} (h : other.fixed = block.fixed) :
    other.content = block.content :=
  (congrArg Block.content h : other.fixed.content = block.fixed.content)

/-- Every block is one of those before, as far as it is sent. -/
def KeepsContent (p q : Plugin D) : Prop :=
  ∀ block ∈ q.newBlocks, ∃ other ∈ p.newBlocks, other.content = block.content

theorem KeepsContent.refl (p : Plugin D) : KeepsContent p p :=
  fun block hblock => ⟨block, hblock, rfl⟩

theorem KeepsContent.trans {p q r : Plugin D} (h : KeepsContent p q) (h' : KeepsContent q r) :
    KeepsContent p r := by
  intro block hblock
  obtain ⟨other, hother, heq⟩ := h' block hblock
  obtain ⟨first, hfirst, heq'⟩ := h other hother
  exact ⟨first, hfirst, heq'.trans heq⟩

theorem KeepsContent.of_map {p q : Plugin D}
    (h : q.newBlocks.map Block.content = p.newBlocks.map Block.content) : KeepsContent p q := by
  intro block hblock
  have hmem := @List.mem_map_of_mem _ _ _ block Block.content hblock
  rw [h] at hmem
  exact List.mem_map.1 hmem

theorem Leads.keepsContent {net : Net D} {allow : Allow} {p q : Plugin D}
    (h : Leads net allow p q) : KeepsContent p q := by
  intro block hblock
  have hmem := @List.mem_map_of_mem _ _ _ block Block.fixed hblock
  obtain ⟨other, hother, heq⟩ := List.mem_map.1 (h.blocks.mem_iff.1 hmem)
  exact ⟨other, hother, content_of_fixed heq⟩

theorem keepsContent_replaceCurrentBlock (core : Aergolite D) (block : Block) (p : Plugin D) :
    KeepsContent p (replaceCurrentBlock core block p) := by
  intro other hother
  exact ⟨other, List.eraseP_subset (List.mem_filter.1 hother).1, rfl⟩

theorem keepsContent_commitBlock (net : Net D) (p : Plugin D) (block : Block) :
    KeepsContent p (commitBlock net p block).2 := by
  unfold commitBlock
  dsimp only
  split_ifs
  · refine .of_map (congrArg _ ?_)
    unfold markOutdated
    split_ifs <;> rfl
  · generalize (aergoliteCommitBlock net.toEnv p.core block.header block.body block.votes).2 = core
    refine (keepsContent_replaceCurrentBlock core block p).trans (.of_map ?_)
    have hmap := congrArg (List.map Block.content)
      (sameBlocks_startNewBlockTimer net (replaceCurrentBlock core block p))
    rwa [List.map_map, List.map_map] at hmap

theorem keepsContent_applyBlock (net : Net D) (p : Plugin D) (block : Block) :
    KeepsContent p (applyBlock net p block) := by
  have hverify : KeepsContent p (verifyBlock net p block).2 :=
    .of_map (congrArg _ (newBlocks_verifyBlock net p block))
  unfold applyBlock
  dsimp only
  split_ifs
  · exact hverify.trans (keepsContent_commitBlock net _ block)
  · exact hverify

theorem keepsContent_commitWinner (net : Net D) (round : Fin 2) (block : Block) (p : Plugin D) :
    KeepsContent p (commitWinner net round block p) := by
  have hconvert : ∀ q : Plugin D, KeepsContent q { q with
      newBlocks := updateBlock block.key (convertBlockVotes round) q.newBlocks } := by
    intro q
    refine .of_map (map_updateBlock ?_ q.newBlocks)
    exact fun _ => rfl
  have hcheck : KeepsContent p (checkBlockTransactions (rollbackOpenBlock p) block).2 := by
    refine .of_map ((map_checkBlockTransactions ?_ _ block).trans ?_)
    · exact fun _ _ => rfl
    · rw [newBlocks_rollbackOpenBlock]
  unfold commitWinner
  dsimp only
  split_ifs
  · exact (hconvert p).trans (keepsContent_commitBlock net _ _)
  · exact hcheck
  · exact hcheck.trans ((hconvert _).trans (keepsContent_applyBlock net _ _))

theorem Decides.keepsContent {net : Net D} {allow : Allow} {p q : Plugin D}
    (h : Decides net allow p q) : KeepsContent p q := by
  cases h with
  | none h => exact h.keepsContent
  | winner h => exact h.keepsContent.trans (keepsContent_commitWinner net _ _ _)

/-- The block that `on_new_block` adds. -/
def arrivedBlock (header : Header) (body : Body) (vrfOutput : Bytes) : Block where
  height := header.height
  id := header.id
  header
  body
  votes := []
  vrfOutput
  waitTime := 0
  tempVotes := fun _ => []
  numVotes := fun _ => 0
  downloadingTxns := false

theorem content_transferBlockVotes (votes : List StoredVote) (block : Block) :
    (transferBlockVotes votes block).content = block.content :=
  content_of_fixed (fixed_transferBlockVotes votes block)

/-- A block that arrives is on the list, or it is old, or it is added. -/
theorem addNewBlock_decides (net : Net D) (allow : Allow) (header : Header) (body : Body)
    (vrfOutput : Bytes) (p : Plugin D) :
    addNewBlock net header body vrfOutput p = p ∧
        ((∃ block ∈ p.newBlocks, block.key = (header.height, header.id)) ∨
          header.height ≤ p.currentHeight) ∨
      Decides net allow
        { p with newBlocks := p.newBlocks ++
          [transferBlockVotes p.blockVotes (arrivedBlock header body vrfOutput)] }
        (addNewBlock net header body vrfOutput p) := by
  unfold addNewBlock arrivedBlock
  split_ifs with hknown hold
  · obtain ⟨block, hfind⟩ := Option.isSome_iff_exists.1 hknown
    exact .inl ⟨rfl, .inl ⟨block, List.mem_of_find?_eq_some hfind, (findBlock_split hfind).1⟩⟩
  · exact .inl ⟨rfl, .inr hold⟩
  refine .inr ?_
  dsimp only
  generalize transferBlockVotes p.blockVotes _ = block
  have hcheck : Leads net allow { p with newBlocks := p.newBlocks ++ [block] }
      (checkBlockTransactions { p with newBlocks := p.newBlocks ++ [block] } block).2 :=
    .still (still_checkBlockTransactions _ block) (sameBlocks_checkBlockTransactions _ block)
  generalize checkBlockTransactions { p with newBlocks := p.newBlocks ++ [block] } block = r
    at hcheck ⊢
  split_ifs
  · exact .none (hcheck.trans (requestStateUpdate_leads r.2))
  · exact .none (hcheck.trans (startBlockWaitTimer_leads r.2))
  · exact .head (hcheck.trans (startBlockWaitTimer_leads r.2)) (checkForWinnerBlock_decides 0 _)

/-! ## What a block on the list was checked for -/

section vouched

variable {net : Net D} {key : ℤ → Bytes} {p q : Plugin D}

/-- A block is known by the values of its header, which its creator has signed, and has the
transactions that are named there. -/
structure Vouched (net : Net D) (key : ℤ → Bytes) (block : Block) : Prop where
  named : block.key = (block.header.height, block.header.id)
  signed : aergoliteVerifyRaw net.crypto (net.crypto.sha256 block.header.data)
    (key block.header.nodeId) block.header.sig = .ok
  txns : net.txnsHash block.body.txnIds = block.header.txnsHash

theorem Vouched.congr {block other : Block} (h : Vouched net key other)
    (hcontent : other.content = block.content) : Vouched net key block := by
  obtain ⟨hkey, hrest⟩ := Prod.mk.inj hcontent
  obtain ⟨hheader, hbody⟩ := Prod.mk.inj hrest
  refine ⟨?_, ?_, ?_⟩
  · rw [← hkey, ← hheader]
    exact h.named
  · rw [← hheader]
    exact h.signed
  · rw [← hbody, ← hheader]
    exact h.txns

/-- A signature that verifies has 64 bytes. -/
theorem length_of_verifyRaw_ok {c : Crypto} {hash pubkey signature : Bytes}
    (h : aergoliteVerifyRaw c hash pubkey signature = .ok) : signature.length = 64 := by
  unfold aergoliteVerifyRaw at h
  split_ifs at h with _ hlength
  exact not_not.1 hlength

/-- A block id has 32 bytes. -/
theorem Vouched.length_id {block : Block} (h : Vouched net key block) : block.id.length = 32 := by
  have hid : block.id = block.header.sig.take 32 := congrArg Prod.snd h.named
  rw [hid, List.length_take, length_of_verifyRaw_ok h.signed]
  rfl

/-- What is verified under an id is verified with its key. -/
theorem verifyRaw_of_keys (hkeys : KeysOf key p) {hash sig : Bytes} {nodeId : ℤ}
    (h : p.core.verifyRaw net.toEnv hash nodeId sig = .ok) :
    aergoliteVerifyRaw net.crypto hash (key nodeId) sig = .ok := by
  unfold Aergolite.verifyRaw aergoliteVerifyRawById at h
  split at h
  · simp at h
  · rename_i pubkey hpubkey
    rwa [nodePubkey_of_keys hkeys.list hkeys.table hpubkey] at h

/-- A node that is on the list is verified with its key. -/
theorem verifyRaw_of_listed (hkeys : KeysOf key p) {nodeId : ℤ}
    (hlisted : (aergoliteGetAuthorization p.core.authorizations nodeId).isSome)
    (hash sig : Bytes) : p.core.verifyRaw net.toEnv hash nodeId sig =
      aergoliteVerifyRaw net.crypto hash (key nodeId) sig := by
  obtain ⟨auth, hauth⟩ := Option.isSome_iff_exists.1 hlisted
  have hpubkey : nodePubkey p.core.authorizations p.core.db.worker.nodes nodeId = some auth.pk := by
    unfold nodePubkey
    rw [hauth]
  unfold Aergolite.verifyRaw aergoliteVerifyRawById
  rw [hpubkey, nodePubkey_of_keys hkeys.list hkeys.table hpubkey]

/-- A block that arrives and is verified. -/
theorem vouched_arrivedBlock (hkeys : KeysOf key p) {header : Header} {body : Body}
    {vrfOutput : Bytes} (h : aergoliteVerifyBlockHeader net.toEnv p.core header body = .ok) :
    Vouched net key (arrivedBlock header body vrfOutput) := by
  unfold aergoliteVerifyBlockHeader at h
  split_ifs at h with hsig hhash
  · exact absurd h hsig
  · exact ⟨rfl, verifyRaw_of_keys hkeys (not_not.1 hsig), not_not.1 hhash⟩

/-- A vouched block is verified where its creator is on the list. -/
theorem Vouched.verified {block : Block} (h : Vouched net key block) (hkeys : KeysOf key p)
    (hlisted : (aergoliteGetAuthorization p.core.authorizations block.header.nodeId).isSome) :
    aergoliteVerifyBlockHeader net.toEnv p.core block.header block.body = .ok := by
  have hsig : readBlockHeader net.toEnv p.core block.header = .ok :=
    (verifyRaw_of_listed hkeys hlisted _ _).trans h.signed
  unfold aergoliteVerifyBlockHeader
  rw [if_neg (not_not.2 hsig), if_neg (not_not.2 h.txns)]

/-- `this_node` stays the node it is while a block is created. -/
theorem id_beginBlock (a : Aergolite D) : (aergoliteBeginBlock a).2.id = a.id := by
  unfold aergoliteBeginBlock
  dsimp only
  split_ifs <;> rfl

theorem id_executeTransaction (env : Env D) (a : Aergolite D) (nodeId nonce : ℤ) (log : Log) :
    (aergoliteExecuteTransaction env a nodeId nonce log).2.id = a.id := by
  unfold aergoliteExecuteTransaction
  dsimp only
  split_ifs <;> rfl

theorem id_includeNext (net : Net D) (nonces : List (ℤ × ℤ)) (txns : List Transaction)
    (core : Aergolite D) : (includeNext net nonces txns core).2.id = core.id := by
  induction txns generalizing core with
  | nil => rfl
  | cons txn txns ih =>
      have h := id_executeTransaction net.toEnv core txn.nodeId txn.nonce txn.log
      unfold includeNext
      dsimp only
      split_ifs
      · exact (ih _).trans h
      · exact h
      · exact ih _

theorem id_includeTransactions (net : Net D) (fuel : ℕ) (nonces : List (ℤ × ℤ))
    (mempool : List Transaction) (count : ℕ) (core : Aergolite D) :
    (includeTransactions net fuel nonces mempool count core).2.id = core.id := by
  induction fuel generalizing nonces mempool count core with
  | zero => rfl
  | succ fuel ih =>
      have h := id_includeNext net nonces mempool core
      unfold includeTransactions
      generalize includeNext net nonces mempool core = r at h ⊢
      obtain ⟨txn, core'⟩ := r
      cases txn with
      | none => exact h
      | some txn => exact (ih _ _ _ _).trans h

/-- The header of a block that is created is signed. -/
theorem aergoliteCreateBlock_signed {env : Env D} {timestamp : ℤ} {a b : Aergolite D}
    {header : Header} {body : Body}
    (h : aergoliteCreateBlock env timestamp a = (.ok (header, body), b)) :
    header.nodeId = a.id ∧ env.txnsHash body.txnIds = header.txnsHash ∧
      env.ecdsaSign a.pubkey (env.crypto.sha256 header.data) = some header.sig := by
  unfold aergoliteCreateBlock at h
  split at h
  · dsimp only at h
    split_ifs at h
    · simp at h
    · simp at h
    split at h
    · simp at h
    · rename_i sig hsign
      simp only [Prod.mk.injEq, Except.ok.injEq] at h
      obtain ⟨⟨rfl, rfl⟩, -⟩ := h
      refine ⟨rfl, rfl, ?_⟩
      unfold aergoliteSignRaw at hsign
      split_ifs at hsign
      split at hsign
      · simp at hsign
      · rename_i hsig
        obtain rfl := Except.ok.inj hsign
        exact hsig
  · simp at h

/-- A block that the node creates. -/
theorem vouched_createdBlock
    (hsign : ∀ nodeId hash sig, net.ecdsaSign (key nodeId) hash = some sig →
      aergoliteVerifyRaw net.crypto hash (key nodeId) sig = .ok)
    (hkeys : KeysOf key p) (hid : p.core.id = p.nodeId) {timestamp : ℤ} {block : Block}
    (h : block ∈ createdBlock net p timestamp) : Vouched net key block := by
  have hrollback : (rollbackOpenBlock { p with newBlockTimer := false }).core.id = p.core.id ∧
      (rollbackOpenBlock { p with newBlockTimer := false }).core.pubkey = p.core.pubkey := by
    unfold rollbackOpenBlock
    split_ifs <;> exact ⟨rfl, rfl⟩
  have hcore : (canCreateBlock (rollbackOpenBlock { p with newBlockTimer := false })).2.core =
      (rollbackOpenBlock { p with newBlockTimer := false }).core := rfl
  unfold createdBlock createNewBlock at h
  rw [← hcore] at hrollback
  generalize (canCreateBlock (rollbackOpenBlock { p with newBlockTimer := false })).2 = r
    at h hrollback
  have hincluded := (sameRoster_beginBlock r.core).trans
    (sameRoster_includeTransactions net r.mempool.length (buildLastNonceArray r) r.mempool 0 _)
  have hsame := (id_includeTransactions net r.mempool.length (buildLastNonceArray r) r.mempool 0
    _).trans (id_beginBlock r.core)
  dsimp only at h
  split_ifs at h
  · simp at h
  · simp at h
  split at h
  · simp at h
  rename_i header body core hcreated
  obtain ⟨hnodeId, htxns, hsig⟩ := aergoliteCreateBlock_signed hcreated
  obtain rfl := Option.some.inj h
  refine ⟨rfl, ?_, htxns⟩
  have hcreator : header.nodeId = p.nodeId := by
    rw [hnodeId, hsame, hrollback.1, hid]
  rw [hincluded.pubkey, hrollback.2, hkeys.own] at hsig
  exact hcreator ▸ hsign _ _ _ hsig

/-- **One step** leaves only vouched blocks on the list. -/
theorem vouched_step
    (hsign : ∀ nodeId hash sig, net.ecdsaSign (key nodeId) hash = some sig →
      aergoliteVerifyRaw net.crypto hash (key nodeId) sig = .ok)
    (hkeys : KeysOf key p) (hid : p.core.id = p.nodeId) {e : Event}
    (hp : ∀ block ∈ p.newBlocks, Vouched net key block) (hs : step net p e = some q) :
    ∀ block ∈ q.newBlocks, Vouched net key block := by
  have hkept : ∀ {r : Plugin D}, (∀ block ∈ r.newBlocks, Vouched net key block) →
      KeepsContent r q → ∀ block ∈ q.newBlocks, Vouched net key block := by
    intro r hr hkeeps block hblock
    obtain ⟨other, hother, heq⟩ := hkeeps block hblock
    exact (hr other hother).congr heq
  have hadded : ∀ {r : Plugin D} {block : Block}, (∀ block ∈ r.newBlocks, Vouched net key block) →
      Vouched net key block → ∀ other ∈ r.newBlocks ++ [block], Vouched net key other := by
    intro r block hr hblock other hother
    rcases List.mem_append.1 hother with hother | hother
    · exact hr other hother
    · exact List.mem_singleton.1 hother ▸ hblock
  cases e with
  | newBlock header body proof =>
      have hq := Option.some.inj hs
      unfold onNewBlock at hq
      split_ifs at hq with hverified
      · exact hq ▸ hp
      · exact hq ▸ hp
      split at hq
      · exact hq ▸ hp
      rename_i vrfOutput _
      rcases addNewBlock_decides net (allow net p .blockWaitTimeout) header body vrfOutput p with
        ⟨heq, -⟩ | hdecides
      · exact (heq.symm.trans hq) ▸ hp
      · have hblock := (vouched_arrivedBlock hkeys (not_not.1 hverified)).congr
          (content_transferBlockVotes p.blockVotes (arrivedBlock header body vrfOutput)).symm
        exact hkept (hadded hp hblock) (hq ▸ hdecides.keepsContent)
  | blockVote msg =>
      have hq := Option.some.inj hs
      unfold onBlockVote at hq
      split_ifs at hq
      · subst hq
        cases hfind : findBlock (msg.vote.height, msg.vote.blockId) p.newBlocks with
        | none => exact hkept hp (.of_map (congrArg _ (countVote_none hfind).1))
        | some block =>
            have hcount := @countVote_some _ net (allow net p .blockWaitTimeout) msg.vote p block
              hfind
            split_ifs at hcount
            · exact hcount.symm ▸ hp
            · refine hkept hp (KeepsContent.trans (.of_map ?_) hcount.keepsContent)
              exact map_updateBlock (fun other => content_of_fixed (by simp)) p.newBlocks
      · exact hq ▸ hp
  | newBlockTimeout timestamp =>
      obtain ⟨-, rfl⟩ : p.newBlockTimer = true ∧ onNewBlockTimeout net timestamp p = q := by
        simpa [step] using hs
      rcases @onNewBlockTimeout_cases _ net (allow net p .blockWaitTimeout) timestamp p with
        h | ⟨block, hcreated, r, hlead, -, -, -, hrest⟩
      · exact hkept hp h.keepsContent
      · have hr : ∀ block ∈ r.newBlocks, Vouched net key block := fun other hother => by
          obtain ⟨first, hfirst, heq⟩ := hlead.keepsContent other hother
          exact (hp first hfirst).congr heq
        exact hkept (hadded hr (vouched_createdBlock hsign hkeys hid hcreated)) hrest.keepsContent
  | _ => exact hkept hp (step_decides net hs trivial).keepsContent

/-- **The blocks on the list are vouched** in every state a node reaches. -/
theorem vouched_listed
    (hsign : ∀ nodeId hash sig, net.ecdsaSign (key nodeId) hash = some sig →
      aergoliteVerifyRaw net.crypto hash (key nodeId) sig = .ok)
    (h : (identified net key).Reachable p) : ∀ block ∈ p.newBlocks, Vouched net key block := by
  have hinv : (identified net key).Invariant
      fun p => ∀ block ∈ p.newBlocks, Vouched net key block := by
    refine ⟨fun p hinit => ?_, fun p e q hp hs => ?_⟩
    · have hempty : p.newBlocks = [] := Plugin.Fresh.newBlocks hinit
      simp [hempty]
    · exact vouched_step hsign hs.1.1 hs.1.2 hp hs.2
  exact hinv.reachable h

end vouched

/-! ## The votes a node has -/

section sendable

variable {net : Net D} {key : ℤ → Bytes} {p q : Plugin D}

/-- What is counted or stored is signed, and the block of what is stored has an id. -/
structure Sendable (net : Net D) (key : ℤ → Bytes) (v : View) : Prop where
  tally : Tally (Signed net key) v
  ids : ∀ vote ∈ v.stored, vote.blockId.length = 32

/-- A vote that is accepted is signed. -/
theorem signed_of_accepted (hkeys : KeysOf key p) {msg : VoteMessage}
    (h : msg.accepted net p = true) : Signed net key msg.vote ∧ msg.vote.blockId.length = 32 := by
  simp only [VoteMessage.accepted, Bool.and_eq_true, decide_eq_true_eq] at h
  exact ⟨verifyRaw_of_keys hkeys h.2, h.1.1.1.1⟩

/-- A vote that is signed is accepted where its node is on the list. -/
theorem accepted_of_signed (hkeys : KeysOf key q) {vote : StoredVote}
    (hsigned : Signed net key vote) (hid : vote.blockId.length = 32)
    (hlisted : (aergoliteGetAuthorization q.core.authorizations vote.nodeId).isSome) :
    (sendBlockVote vote.height vote.blockId vote.round vote.nodeId vote.sig).accepted net q =
      true := by
  have hverified := (verifyRaw_of_listed hkeys hlisted vote.blockId vote.sig).trans hsigned
  have hround : (vote.round.val : ℤ) ≤ 1 := by omega
  simp [VoteMessage.accepted, sendBlockVote, hid, length_of_verifyRaw_ok hsigned, hround, hverified]

/-- The message carries the vote. -/
theorem vote_sendBlockVote (vote : StoredVote) :
    (sendBlockVote vote.height vote.blockId vote.round vote.nodeId vote.sig).vote = vote := by
  obtain ⟨nodeId, round, height, blockId, sig⟩ := vote
  obtain rfl | rfl : round = 0 ∨ round = 1 := by omega
  all_goals rfl

/-- **One step** leaves only signed votes. -/
theorem Sendable.step
    (hsign : ∀ nodeId hash sig, net.ecdsaSign (key nodeId) hash = some sig →
      aergoliteVerifyRaw net.crypto hash (key nodeId) sig = .ok)
    (h : Sendable net key p.view) (hkeys : KeysOf key p) {e : Event}
    (hs : NoLeader.step net p e = some q) : Sendable net key q.view := by
  have hreceived : ∀ vote, (allow net p e).received vote →
      Signed net key vote ∧ vote.blockId.length = 32 := by
    rintro _ ⟨msg, rfl, haccepted, rfl, -⟩
    exact signed_of_accepted hkeys haccepted
  have hnode : p.view.pubkey = key p.view.nodeId := hkeys.own
  refine ((step_handled net hs).invariant
    (I := fun v => v.pubkey = key v.nodeId ∧ Sendable net key v) ⟨hnode, h⟩
    (fun v w hv hw => ?_) fun v w hv hw => ?_).2
  · have hown : w.pubkey = key w.nodeId := by
      rw [hw.node.1, hw.node.2]
      exact hv.1
    refine ⟨hown, hv.2.tally.micro hw (fun _ h => h) (fun vote hvote => (hreceived vote hvote).1)
      fun b _ round sig _ _ hsig _ => hsign v.nodeId b.id sig (hv.1 ▸ hsig), ?_⟩
    have hids := hv.2.ids
    cases hw with
    | @store vote hvote =>
        intro other hother
        rcases List.mem_append.1 hother with hother | hother
        · exact hids other hother
        · exact List.mem_singleton.1 hother ▸ (hreceived vote hvote).2
    | _ => exact hids
  · refine ⟨?_, hv.2.tally.commits hw, ?_⟩
    · rw [hw.node.1, hw.node.2]
      exact hv.1
    · have hids := hv.2.ids
      cases hw
      exact fun vote hvote => hids vote (List.mem_of_mem_filter hvote)

/-- **The votes a node knows can be sent**, in every state it reaches. -/
theorem sendable_of_reachable
    (hsign : ∀ nodeId hash sig, net.ecdsaSign (key nodeId) hash = some sig →
      aergoliteVerifyRaw net.crypto hash (key nodeId) sig = .ok)
    (h : (identified net key).Reachable p) : Sendable net key p.view := by
  have hinv : (identified net key).Invariant fun p => Sendable net key p.view := by
    refine ⟨fun p hinit => ?_, fun p e q hp hs => hp.step hsign hs.1.1 hs.2⟩
    have hfresh : p.Fresh := hinit
    refine ⟨⟨?_, ?_, ?_, ?_⟩, ?_⟩
    all_goals simp [Plugin.view, Plugin.viewOf, hfresh.newBlocks, hfresh.blockVotes]
  exact hinv.reachable h

/-- **`send_block_votes`** sends each vote that is known, signed as it was. -/
theorem exists_sendBlockVotes (h : Sendable net key p.view)
    (hblocks : ∀ block ∈ p.newBlocks, Vouched net key block) {k : ℤ × Bytes} {round : Fin 2}
    {nodeId : ℤ} (hknows : p.view.Knows k round nodeId) :
    ∃ vote : StoredVote, vote.On k round nodeId ∧ Signed net key vote ∧
      vote.blockId.length = 32 ∧
      sendBlockVote vote.height vote.blockId vote.round vote.nodeId vote.sig ∈
        sendBlockVotes p := by
  rcases hknows with ⟨b, hb, rfl, vote, hvote, rfl⟩ | ⟨vote, hvote, hon⟩
  · obtain ⟨block, hblock, rfl⟩ := List.mem_map.1 (Multiset.mem_coe.1 hb)
    refine ⟨⟨vote.nodeId, round, block.height, block.id, vote.sig⟩, ⟨rfl, rfl, rfl, rfl⟩,
      h.tally.counted _ hb round vote hvote, (hblocks block hblock).length_id, ?_⟩
    refine List.mem_append_left _ (List.mem_flatMap.2 ⟨block, hblock, ?_⟩)
    refine List.mem_flatMap.2 ⟨round, ?_, List.mem_map.2 ⟨vote, hvote, rfl⟩⟩
    obtain rfl | rfl : round = 0 ∨ round = 1 := by omega
    all_goals simp
  · exact ⟨vote, hon, h.tally.stored vote hvote, h.ids vote hvote,
      List.mem_append_right _ (List.mem_map.2 ⟨vote, hvote, rfl⟩)⟩

end sendable

/-! ## The node that connects -/

section receiver

variable {net : Net D} {key : ℤ → Bytes} {sent : List Event} {p q : Plugin D} {k : ℤ × Bytes}

/-- The block under a key has arrived, or its height is reached. -/
def Arrived (k : ℤ × Bytes) (v : View) : Prop :=
  k.1 ≤ v.current ∨ ∃ b ∈ v.ballots, b.key = k

/-- A vote is added to one of the ballots. -/
theorem Arrived.addVote {v w : View} (h : Arrived k v) {b : Ballot} {rest : Multiset Ballot}
    {round : Fin 2} {nodeId : ℤ} {sig : Bytes} (hballots : v.ballots = b ::ₘ rest)
    (hw : w.ballots = b.add round nodeId sig ::ₘ rest) (hcurrent : w.current = v.current) :
    Arrived k w := by
  refine h.imp (fun hle => hcurrent.symm ▸ hle) ?_
  rintro ⟨other, hother, rfl⟩
  rw [hballots] at hother
  rw [hw]
  rcases Multiset.mem_cons.1 hother with rfl | hother
  · exact ⟨_, Multiset.mem_cons_self _ _, other.key_add round nodeId sig⟩
  · exact ⟨other, Multiset.mem_cons_of_mem hother, rfl⟩

theorem Arrived.micro {sign : Bytes → Bytes → Option Bytes} {allow : Allow} {v w : View}
    (h : Arrived k v) (hs : Micro sign allow v w) : Arrived k w := by
  cases hs with
  | vote hballots | receive hballots => exact h.addVote hballots rfl rfl
  | add => exact h.imp_right fun ⟨b, hb, hkey⟩ => ⟨b, Multiset.mem_cons_of_mem hb, hkey⟩
  | store | stopTimer | startTimer | count | authorize => exact h

/-- **A commit** takes from the list what is not above the new height. -/
theorem Arrived.commits {v w : View} (h : Arrived k v) (hs : Commits v w) : Arrived k w := by
  cases hs with
  | @mk b rest _ _ _ hballots hheight =>
      by_cases hle : k.1 ≤ b.height
      · exact .inl hle
      have hlt : b.height < k.1 := by omega
      rcases h with hcurrent | ⟨other, hother, rfl⟩
      · omega
      · rw [hballots] at hother
        have hne : other ≠ b := fun heq => hlt.ne (congrArg Ballot.height heq).symm
        exact .inr ⟨other, Multiset.mem_filter.2
          ⟨(Multiset.mem_cons.1 hother).resolve_left hne, hlt⟩, rfl⟩

theorem Arrived.handled {sign : Bytes → Bytes → Option Bytes} {allow : Allow} {v w : View}
    (h : Arrived k v) (hs : Handled sign allow v w) : Arrived k w :=
  hs.invariant h (fun _ _ h hs => h.micro hs) fun _ _ h hs => h.commits hs

/-- **The message with a block** brings it to a node that has its creator on the list. -/
theorem arrived_encodeNewBlock {vrfProof : ℤ × Bytes → Bytes} {block : Block}
    (hblock : Vouched net key block) (hproof : (vrfProof block.key).length = 81)
    (hverify : (net.vrfVerify (key block.header.nodeId) block.height (vrfProof block.key)).isSome)
    (hkeys : KeysOf key p)
    (hlisted : (aergoliteGetAuthorization p.core.authorizations block.header.nodeId).isSome)
    (hs : step net p (encodeNewBlock vrfProof block) = some q) : Arrived block.key q.view := by
  have hkey := hblock.named
  obtain ⟨auth, hauth⟩ := Option.isSome_iff_exists.1 hlisted
  obtain ⟨hmem, hid⟩ := aergoliteGetAuthorization_some hauth
  obtain ⟨output, houtput⟩ := Option.isSome_iff_exists.1 hverify
  have hproved : verifyProof net p block.header.height block.header.nodeId (vrfProof block.key) =
      .ok output := by
    have hpk : auth.pk = key block.header.nodeId := hid ▸ hkeys.list auth hmem
    have hheight : block.header.height = block.height := (congrArg Prod.fst hkey).symm
    unfold verifyProof
    rw [hauth]
    dsimp only
    rw [hpk, hheight, houtput]
  have hq := Option.some.inj hs
  unfold onNewBlock at hq
  rw [if_neg (not_not.2 (hblock.verified hkeys hlisted)), if_neg (not_not.2 hproof), hproved] at hq
  dsimp only at hq
  rcases addNewBlock_decides net (allow net p .blockWaitTimeout) block.header block.body output p
    with ⟨heq, hold⟩ | hdecides
  · rw [← hq, heq, hkey]
    refine hold.symm.imp id ?_
    rintro ⟨other, hother, hother'⟩
    exact ⟨other.ballot, Multiset.mem_coe.2 (List.mem_map_of_mem hother), hother'⟩
  · rw [← hq]
    refine Arrived.handled (.inr ?_) hdecides.own.handled
    refine ⟨_, Multiset.mem_coe.2 (List.mem_map_of_mem (List.mem_append_right _
      (List.mem_singleton_self _))), ?_⟩
    have hcontent := congrArg Prod.fst (content_transferBlockVotes p.blockVotes
      (arrivedBlock block.header block.body output))
    exact hcontent.trans hkey.symm

/-- A node that knows the votes another one knows for a block has counted as many. -/
theorem numVotes_le {accepted : Fin 2 → ℤ → Prop} {P P' : StoredVote → Prop}
    (hp : Tally P p.view) (hq : Tally P' q.view) (hrecorded : q.view.Recorded k accepted)
    (hknows : ∀ round nodeId, p.view.Knows k round nodeId → q.view.Knows k round nodeId)
    {block block' : Block} (hblock : block ∈ p.newBlocks) (hblock' : block' ∈ q.newBlocks)
    (hkey : block.key = k) (hkey' : block'.key = k) (round : Fin 2) :
    block.numVotes round ≤ block'.numVotes round := by
  have hmem : block.ballot ∈ p.view.ballots := Multiset.mem_coe.2 (List.mem_map_of_mem hblock)
  have hmem' : block'.ballot ∈ q.view.ballots := Multiset.mem_coe.2 (List.mem_map_of_mem hblock')
  have hvoters : (block.tempVotes round).map BlockVote.nodeId ⊆
      (block'.tempVotes round).map BlockVote.nodeId := by
    intro nodeId hvoter
    obtain ⟨vote, hvote, rfl⟩ := List.mem_map.1 hvoter
    rcases hknows round vote.nodeId (.inl ⟨_, hmem, hkey, vote, hvote, rfl⟩) with
      ⟨b, hb, hb', other, hother, heq⟩ | ⟨other, hother, hon⟩
    · obtain rfl := hrecorded.unique hmem' hkey' hb hb'
      exact List.mem_map.2 ⟨other, hother, heq⟩
    · obtain ⟨counted, hcounted, heq⟩ :=
        hrecorded.complete _ hmem' hkey' other hother hon.height hon.id
      rw [hon.round] at hcounted
      exact List.mem_map.2 ⟨counted, hcounted, heq.trans hon.nodeId⟩
  have hlength := (List.subperm_of_subset (hp.nodup _ hmem round) hvoters).length_le
  rw [List.length_map, List.length_map] at hlength
  calc block.numVotes round = (block.tempVotes round).length := hp.count _ hmem round
    _ ≤ (block'.tempVotes round).length := hlength
    _ = block'.numVotes round := (hq.count _ hmem' round).symm

end receiver

/-- No block is created with what a node sends. -/
theorem creationTime_sent (net : Net D) (vrfProof : ℤ × Bytes → Bytes) (p : Plugin D) :
    ∀ e ∈ (onNewAcceptedNode net vrfProof p).1, e.creationTime = none := by
  intro e he
  rcases List.mem_append.1 he with he | he
  · rcases List.mem_append.1 he with he | he
    all_goals
      obtain ⟨_, -, rfl⟩ := List.mem_map.1 he
      rfl
  · obtain ⟨_, -, rfl⟩ := List.mem_map.1 he
    rfl

/-- What the first node sends once it has the block of the third one and a vote on it. -/
def sentToSecond (p : Plugin Unit) : List Event :=
  (onNewAcceptedNode plainNet (fun _ => List.replicate 81 0) p).1

end NoLeader
end AergoLite
