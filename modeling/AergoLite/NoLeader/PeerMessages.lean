/-
# Messages shorter than their `iv`

`worker_thread_on_peer_message` gives what the framing has delivered to `aergolite_msg_decrypt`,
which takes the first 4 bytes as the `iv` and subtracts them from the size.  Nothing on the way
looks whether there are so many: of a message of 0 to 3 bytes, which a peer can declare before it
is identified, the size that is left is negative, and the ciphers take it as an `unsigned int`.

The payload is what is left of the message exactly where it has 4 bytes (`payload_bounded_iff`).
-/

import AergoLite.Common.MsgFraming
import AergoLite.Core.Codec

namespace AergoLite
namespace NoLeader

open AergoLite.Core AergoLite.Common

/-- What `worker_thread_on_peer_message` does before it looks at the command. -/
inductive Receipt
  | disconnected
  | ignored
  /-- The message is looked at, with its size. -/
  | received (msg : Bytes) (size : ℤ)
  /-- Memory outside of the message is used. -/
  | undefined
  deriving DecidableEq, Repr

/-- The begin of `worker_thread_on_peer_message`, of a message in memory of its size. -/
def workerThreadOnPeerMessage (pBlock : Option CryptBlock) (isClosing : Bool) (msg : Bytes)
    (size : ℤ) : Receipt :=
  if size < 0 then .disconnected
  else if isClosing then .ignored
  else match aergoliteMsgDecrypt pBlock msg size 0x4329017E with
    | none => .undefined
    | some (msg, size) => .received msg size

/-- A message that is not rejected is as long as its size says, which is what was received without
the `iv`. -/
def Receipt.Bounded (received : ℕ) : Receipt → Prop
  | .disconnected => True
  | .ignored => True
  | .received msg size => 0 ≤ size ∧ size = received - msgIvlen ∧ (msg.length : ℤ) = size
  | .undefined => False

instance (received : ℕ) : (receipt : Receipt) → Decidable (receipt.Bounded received)
  | .disconnected => .isTrue trivial
  | .ignored => .isTrue trivial
  | .received _ _ => inferInstanceAs (Decidable (_ ∧ _ ∧ _))
  | .undefined => .isFalse id

/-! ## What is delivered -/

theorem length_of_mapM {cells : Memory} {data : Bytes} (h : cells.mapM id = some data) :
    data.length = cells.length := by
  induction cells generalizing data with
  | nil => obtain rfl := Option.some.inj h; rfl
  | cons cell cells ih =>
    rw [List.mapM_cons] at h
    obtain ⟨b, -, h⟩ := Option.bind_eq_some_iff.1 h
    obtain ⟨rest, hrest, h⟩ := Option.bind_eq_some_iff.1 h
    obtain rfl := Option.some.inj h
    rw [List.length_cons, List.length_cons, ih hrest]

theorem length_of_bytes {memory : Memory} {ptr size : ℕ} {data : Bytes}
    (h : memory.bytes ptr size = some data) : data.length = size := by
  unfold Memory.bytes at h
  dsimp only at h
  split_ifs at h with hsize
  rw [length_of_mapM h, hsize]

theorem entireMsg_lt {memory : Memory} {ptr entireMsg : ℕ}
    (h : memory.entireMsg ptr = some entireMsg) : entireMsg < 2 ^ 31 := by
  obtain ⟨size, -, h⟩ := Option.bind_eq_some_iff.1 h
  split_ifs at h with hsize
  have := Option.some.inj h
  omega

theorem delivered_of_readLoop {memory : Memory} (fuel ptr filled : ℕ)
    {r : List Bytes × ℕ × ℕ} (h : readLoop memory fuel ptr filled = some r) :
    ∀ msg ∈ r.1, msg.length < 2 ^ 31 := by
  induction fuel generalizing ptr filled r with
  | zero => cases h
  | succ fuel ih =>
    unfold Common.readLoop at h
    by_cases hfilled : 4 ≤ filled
    · rw [if_pos hfilled] at h
      obtain ⟨entireMsg, hentire, h⟩ := Option.bind_eq_some_iff.1 h
      by_cases hle : entireMsg ≤ filled
      · rw [if_pos hle] at h
        obtain ⟨msg, hmsg, h⟩ := Option.bind_eq_some_iff.1 h
        obtain ⟨rest, hrest, rfl⟩ := Option.map_eq_some_iff.1 h
        intro msg' hmem
        rcases List.mem_cons.1 hmem with rfl | hmem
        · have := entireMsg_lt hentire
          rw [length_of_bytes hmsg]
          omega
        · exact ih _ _ hrest msg' hmem
      · rw [if_neg hle] at h
        obtain rfl := Option.some.inj h
        exact fun msg hmem => absurd hmem List.not_mem_nil
    · rw [if_neg hfilled] at h
      obtain rfl := Option.some.inj h
      exact fun msg hmem => absurd hmem List.not_mem_nil

/-- The size of a message that the framing delivers is an `int`. -/
theorem delivered_of_readAll {reads : List Read} {s : UvMsg} {r : List Bytes × UvMsg}
    (h : readAll reads s = some r) : ∀ msg ∈ r.1, msg.length < 2 ^ 31 := by
  induction reads generalizing s r with
  | nil => obtain rfl := Option.some.inj h; exact nofun
  | cons read reads ih =>
    obtain ⟨⟨len, s'⟩, -, h⟩ := Option.bind_eq_some_iff.1 h
    obtain ⟨⟨msgs, s''⟩, hread, h⟩ := Option.bind_eq_some_iff.1 h
    obtain ⟨rest, hrest, rfl⟩ := Option.map_eq_some_iff.1 h
    intro msg hmem
    rcases List.mem_append.1 hmem with hmem | hmem
    · unfold uvStreamMsgRead at hread
      split_ifs at hread with hnil
      · obtain ⟨rfl, -⟩ := Prod.mk.inj (Option.some.inj hread)
        exact nomatch hmem
      · cases hbuf : s'.buf with
        | none => rw [hbuf] at hread; exact nomatch hread
        | some memory =>
          rw [hbuf] at hread
          obtain ⟨⟨msgs', ptr, filled⟩, hloop, hmsgs⟩ := Option.map_eq_some_iff.1 hread
          obtain ⟨rfl, -⟩ := Prod.mk.inj hmsgs
          exact delivered_of_readLoop _ _ _ hloop msg hmem
    · exact ih hrest msg hmem

/-! ## The payload -/

section message

variable {pBlock : CryptBlock} {hKey : CryptKey} {msg : Bytes}

/-- Of a message without an `iv` the ciphers take 4 GiB. -/
theorem aergoliteMsgDecrypt_short (hcipher : pBlock.iCipher ≠ .unset) (hshort : msg.length < 4)
    (counter : UInt32) :
    aergoliteMsgDecrypt (some pBlock) msg msg.length counter = none := by
  have hiv : msgIvlen = 4 := rfl
  have hrest : (msg.drop msgIvlen).length < (((msg.length : ℤ) - msgIvlen) % 2 ^ 32).toNat := by
    rw [List.length_drop]
    omega
  unfold aergoliteMsgDecrypt
  dsimp only
  rw [if_neg hcipher, if_pos hrest]

theorem aergoliteMsgDecrypt_long (hcipher : pBlock.iCipher ≠ .unset)
    (hkey : pBlock.hReadKey = some hKey) (hlong : 4 ≤ msg.length) (hsize : msg.length < 2 ^ 31)
    (counter : UInt32) :
    ∃ payload, aergoliteMsgDecrypt (some pBlock) msg msg.length counter
      = some (payload, (msg.length : ℤ) - msgIvlen) ∧ payload.length + msgIvlen = msg.length := by
  have hiv : msgIvlen = 4 := rfl
  have hlen : (((msg.length : ℤ) - msgIvlen) % 2 ^ 32).toNat = (msg.drop msgIvlen).length := by
    rw [List.length_drop]
    omega
  unfold aergoliteMsgDecrypt
  dsimp only
  rw [if_neg hcipher, hlen, if_neg (Nat.lt_irrefl _), hkey]
  refine ⟨_, rfl, ?_⟩
  simp only [List.length_append, length_codecCrypt, List.length_take, List.length_drop]
  omega

end message

/-- **A received message is bounded exactly if it has an `iv`**, where the connection is not being
closed already: whatever the reads that the framing has delivered it from. -/
theorem payload_bounded_iff (pBlock : CryptBlock) (hKey : CryptKey) (isClosing : Bool)
    {reads : List Read} {r : List Bytes × UvMsg} {msg : Bytes}
    (hcipher : pBlock.iCipher ≠ .unset) (hkey : pBlock.hReadKey = some hKey)
    (hread : readAll reads uvMsgInit = some r) (hmsg : msg ∈ r.1) :
    (workerThreadOnPeerMessage (some pBlock) isClosing msg msg.length).Bounded msg.length
      ↔ isClosing = true ∨ 4 ≤ msg.length := by
  have hiv : msgIvlen = 4 := rfl
  have hsize := delivered_of_readAll hread msg hmsg
  have hpos : ¬(msg.length : ℤ) < 0 := by omega
  unfold workerThreadOnPeerMessage
  rw [if_neg hpos]
  cases isClosing with
  | true => exact iff_of_true trivial (.inl rfl)
  | false =>
    simp only [Bool.false_eq_true, if_false, false_or]
    by_cases hlong : 4 ≤ msg.length
    · obtain ⟨payload, hdecrypt, hlength⟩ :=
        aergoliteMsgDecrypt_long hcipher hkey hlong hsize 0x4329017E
      rw [hdecrypt]
      refine iff_of_true ?_ hlong
      show 0 ≤ (msg.length : ℤ) - msgIvlen ∧ _ ∧ _
      omega
    · rw [aergoliteMsgDecrypt_short hcipher (by omega)]
      exact iff_of_false id hlong

theorem payload_bounded_iff_five :
    let key : CryptKey := ⟨Vector.replicate 256 0, Vector.replicate 32 7⟩
    (workerThreadOnPeerMessage (some ⟨4096, .xrc4, 0, some key, some key⟩) false [1, 2, 3, 4, 5]
      5).Bounded 5 := by
  intro key
  have hread : readAll [⟨64, some, [0, 0, 0, 5, 1, 2, 3, 4, 5]⟩] uvMsgInit
      = some ([[1, 2, 3, 4, 5]], uvMsgInit) := by decide +kernel
  exact (payload_bounded_iff ⟨4096, .xrc4, 0, some key, some key⟩ key false (by nofun) rfl hread
    (List.mem_singleton_self _)).2 (.inr (by decide))

/-- A peer sends a size of 0: the framing delivers an empty message, and either cipher is run on
what comes after it. -/
theorem empty_message_undefined :
    let key : CryptKey := ⟨Vector.replicate 256 0, Vector.replicate 32 7⟩
    (readAll [⟨64, some, [0, 0, 0, 0]⟩] uvMsgInit).map Prod.fst = some [[]] ∧
      ∀ iCipher ∈ [Cipher.xrc4, Cipher.chacha],
        ¬(workerThreadOnPeerMessage (some ⟨4096, iCipher, 20, some key, some key⟩) false []
          0).Bounded 0 := by
  decide +kernel

end NoLeader
end AergoLite
