/-
# What a block id stands for

A block is known by the first 32 bytes of the signature on its header: the nonce the producer
took for it.  If an honest producer takes a nonce for one signature only, and no one else can
sign with it, every message that `on_new_block` accepts under that id has the same header and
the same transactions (`accepted_eq_of_id`), and only the first of them is kept.

Nothing in the header says which pages are modified, though, and a producer may as well take
one nonce for two blocks (`accepted_ne_of_id`).
-/

import AergoLite.Core.BlockHeader
import AergoLite.NoLeader.Handlers

namespace AergoLite
namespace NoLeader

open AergoLite.Core

variable {D : Type}

/-- The message `PLUGIN_NEW_BLOCK`. -/
structure BlockMessage where
  data : Bytes
  sig : Bytes
  body : Body
  proof : Bytes

/-- `on_new_block` of a message, if what it does is defined. -/
def onBlockMessage (net : Net D) (msg : BlockMessage) (p : Plugin D) : Option (Plugin D) :=
  (readBlockHeaderData msg.data msg.sig).map fun read =>
    match read with
    | .error _ => p
    | .ok (_, header) => onNewBlock net header msg.body msg.proof p

/-- A message passes the checks of `on_new_block`: the header is well formed and signed by its
producer, the hash of the transactions is the one in the header, and the proof is accepted. -/
structure Accepted (net : Net D) (p : Plugin D) (msg : BlockMessage) (header : Header) : Prop where
  read : ∃ timestamp, readBlockHeaderData msg.data msg.sig = some (.ok (timestamp, header))
  verified : aergoliteVerifyBlockHeader net.toEnv p.core header msg.body = .ok
  proof : msg.proof.length = 81
  output : ∃ vrfOutput, verifyProof net p header.height header.nodeId msg.proof = .ok vrfOutput

/-- An accepted block is put on the list, unless it is there or it is old. -/
theorem Accepted.onBlockMessage {net : Net D} {p : Plugin D} {msg : BlockMessage}
    {header : Header} (h : Accepted net p msg header) :
    ∃ vrfOutput, onBlockMessage net msg p = some (addNewBlock net header msg.body vrfOutput p) := by
  obtain ⟨timestamp, hread⟩ := h.read
  obtain ⟨vrfOutput, houtput⟩ := h.output
  refine ⟨vrfOutput, ?_⟩
  unfold NoLeader.onBlockMessage onNewBlock
  rw [hread, Option.map_some]
  dsimp only
  rw [if_neg (not_not.2 h.verified), if_neg (not_not.2 h.proof), houtput]

/-- The transactions hash of an accepted block. -/
theorem Accepted.txnsHash {net : Net D} {p : Plugin D} {msg : BlockMessage} {header : Header}
    (h : Accepted net p msg header) : net.txnsHash msg.body.txnIds = header.txnsHash := by
  have hverified := h.verified
  unfold aergoliteVerifyBlockHeader at hverified
  split_ifs at hverified with hsig hhash
  · exact absurd hverified hsig
  · exact not_not.1 hhash

/-- A block that is on the list is not put there again. -/
theorem onNewBlock_listed {net : Net D} {p : Plugin D} {header : Header} (body : Body)
    (proof : Bytes) (h : (findBlock (header.height, header.id) p.newBlocks).isSome) :
    onNewBlock net header body proof p = p := by
  unfold onNewBlock addNewBlock
  split_ifs
  · rfl
  · rfl
  · split <;> rfl

/-- A signature on header data, with the key it was made with. -/
structure Signature where
  key : Bytes
  data : Text
  sig : Bytes

/-- The nonce of a signature: the block id. -/
def Signature.nonce (s : Signature) : Bytes := s.sig.take 32

/-- No nonce was taken for two of the signatures that were made. -/
def NoncesUsedOnce (made : Set Signature) : Prop :=
  ∀ s ∈ made, ∀ s' ∈ made, s.nonce = s'.nonce → s = s'

/-- The signature of a header is not forged with a nonce that belongs to another: if it has the
nonce of a signature that was made, it is one that was made, with the key of its producer. -/
def NotForged (made : Set Signature) (p : Plugin D) (header : Header) : Prop :=
  (∃ s ∈ made, s.nonce = header.id) →
    ∃ key, nodePubkey p.core.authorizations p.core.db.worker.nodes header.nodeId = some key ∧
      (⟨key, header.data, header.sig⟩ : Signature) ∈ made

/-- **What a block id stands for.**  Whichever nodes accept two messages under the id of a
block that an honest producer made, and in whatever states, they have the same header and the
same transactions; and a node that has one of them on its list does not take the other. -/
theorem accepted_eq_of_id {net : Net D} {made : Set Signature} (hmade : NoncesUsedOnce made)
    {p p' : Plugin D} {msg msg' : BlockMessage} {header header' : Header}
    (h : Accepted net p msg header) (h' : Accepted net p' msg' header')
    (hid : header.id = header'.id) (hhonest : ∃ s ∈ made, s.nonce = header.id)
    (hforged : NotForged made p header) (hforged' : NotForged made p' header')
    (hhash : net.txnsHash msg.body.txnIds = net.txnsHash msg'.body.txnIds →
      msg.body.txnIds = msg'.body.txnIds) :
    header = header' ∧ msg.body.txnIds = msg'.body.txnIds ∧
      ∀ q : Plugin D, (findBlock (header.height, header.id) q.newBlocks).isSome →
        onBlockMessage net msg' q = some q := by
  obtain ⟨key, -, hsigned⟩ := hforged hhonest
  obtain ⟨key', -, hsigned'⟩ := hforged' (hid ▸ hhonest)
  have hsame := hmade _ hsigned _ hsigned' hid
  obtain ⟨timestamp, hread⟩ := h.read
  obtain ⟨timestamp', hread'⟩ := h'.read
  obtain ⟨-, rfl⟩ := readBlockHeaderData_unique hread hread'
    (congrArg Signature.data hsame) (congrArg Signature.sig hsame)
  refine ⟨rfl, hhash (h.txnsHash.trans h'.txnsHash.symm), fun q hq => ?_⟩
  unfold onBlockMessage
  rw [hread', Option.map_some]
  exact congrArg some (onNewBlock_listed msg'.body msg'.proof hq)

/-! ## Blocks to evaluate the checks with -/

/-- The hash of a list of transactions is made of the last bytes of their ids. -/
def hashingNet : Net Unit :=
  { plainNet with
    txnsHash := fun tids =>
      (tids.map (fun tid : BitVec 64 => UInt8.ofNat tid.toNat) ++ List.replicate 32 0).take 32 }

/-- The header data of a block of node 1 at height 2, at a time. -/
def dataOfNodeOne (time : UInt8) : Bytes :=
  [1, time] ++ List.replicate 7 0 ++ [2] ++ List.replicate 32 0 ++
    hashingNet.txnsHash [firstTid 1] ++ List.replicate 32 0 ++ [1]

/-- The signature of that node. -/
def sigOfNodeOne (time : UInt8) : Bytes :=
  plainSign (keyOf 1) (plainCrypto.sha256 (textOf (dataOfNodeOne time)))

/-- The header that is read. -/
def headerOfNodeOne (time : UInt8) : Header :=
  ⟨2, List.replicate 32 0, hashingNet.txnsHash [firstTid 1], List.replicate 32 0, 1,
    textOf (dataOfNodeOne time), sigOfNodeOne time⟩

/-- The message, with a list of modified pages. -/
def messageOfNodeOne (time : UInt8) (modPages : Bytes) : BlockMessage :=
  ⟨dataOfNodeOne time, sigOfNodeOne time, ⟨[firstTid 1], modPages⟩, List.replicate 81 0⟩

/-- The message is accepted, whatever pages it lists. -/
theorem accepted_messageOfNodeOne {time : UInt8} (htime : time ∈ [0, 1]) (modPages : Bytes) :
    Accepted hashingNet (startNode 2) (messageOfNodeOne time modPages) (headerOfNodeOne time) := by
  have hread : ∀ time ∈ [0, 1], readBlockHeaderData (dataOfNodeOne time) (sigOfNodeOne time) =
      some (.ok (toInt64 time.toNat, headerOfNodeOne time)) := by decide +kernel
  have hverified : ∀ time ∈ [0, 1], aergoliteVerifyBlockHeader hashingNet.toEnv (startNode 2).core
      (headerOfNodeOne time) ⟨[firstTid 1], []⟩ = .ok := by decide +kernel
  have houtput : ∀ time ∈ [0, 1], verifyProof hashingNet (startNode 2)
      (headerOfNodeOne time).height (headerOfNodeOne time).nodeId (List.replicate 81 0) =
        .ok [1] := by decide +kernel
  exact ⟨⟨_, hread time htime⟩, hverified time htime, rfl, _, houtput time htime⟩

/-- The hypotheses hold of two copies of a block of node 1 with different modified pages. -/
theorem accepted_eq_of_id_copies :
    headerOfNodeOne 0 = headerOfNodeOne 0 ∧ [firstTid 1] = [firstTid 1] ∧
      ∀ q : Plugin Unit, (findBlock (2, (headerOfNodeOne 0).id) q.newBlocks).isSome →
        onBlockMessage hashingNet (messageOfNodeOne 0 [2]) q = some q := by
  let signature : Signature := ⟨keyOf 1, textOf (dataOfNodeOne 0), sigOfNodeOne 0⟩
  have honce : NoncesUsedOnce {signature} := fun s hs s' hs' _ => hs.trans hs'.symm
  have hnode : nodePubkey (startNode 2).core.authorizations (startNode 2).core.db.worker.nodes 1 =
      some (keyOf 1) := by decide +kernel
  have hmade : NotForged {signature} (startNode 2) (headerOfNodeOne 0) := fun _ =>
    ⟨keyOf 1, hnode, rfl⟩
  exact accepted_eq_of_id honce (accepted_messageOfNodeOne (by decide) [1])
    (accepted_messageOfNodeOne (by decide) [2]) rfl ⟨signature, rfl, rfl⟩ hmade hmade fun _ => rfl

/-- **What a block id leaves open.**  Two copies of a block that differ in the modified pages
are accepted, and the one that comes first is kept.  And a producer that takes one nonce for
two blocks has both accepted under one id. -/
theorem accepted_ne_of_id :
    (Accepted hashingNet (startNode 2) (messageOfNodeOne 0 [1]) (headerOfNodeOne 0) ∧
      Accepted hashingNet (startNode 2) (messageOfNodeOne 0 [2]) (headerOfNodeOne 0) ∧
      ((onBlockMessage hashingNet (messageOfNodeOne 0 [2]) (startNode 2)).bind
        (onBlockMessage hashingNet (messageOfNodeOne 0 [1]))).map
          (fun p => p.newBlocks.map fun block => block.body.modPages) = some [[2]]) ∧
    Accepted hashingNet (startNode 2) (messageOfNodeOne 1 [1]) (headerOfNodeOne 1) ∧
      (headerOfNodeOne 1).id = (headerOfNodeOne 0).id ∧
      (headerOfNodeOne 1).data ≠ (headerOfNodeOne 0).data :=
  ⟨⟨accepted_messageOfNodeOne (by decide) [1], accepted_messageOfNodeOne (by decide) [2],
    by decide +kernel⟩, accepted_messageOfNodeOne (by decide) [1], by decide +kernel,
    by decide +kernel⟩

end NoLeader
end AergoLite
