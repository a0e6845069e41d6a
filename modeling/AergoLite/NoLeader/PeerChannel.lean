/-
# The channel between two nodes

`send_peer_message` encrypts a message and gives it to the framing, which writes it with its size
in front.  A message can be dropped there: the connection is closing, there is no memory for it, or
`libuv` does not take it.  The stream then goes on with the next message, since `set_conn_lost`
does nothing.  On the other side the framing puts the messages together from what is read, and
`worker_thread_on_peer_message` decrypts each.

So the handlers are called with the messages that `send_peer_message` accepted, each once, in order
and as they were (`received_eq_accepted`); when the connection breaks, with those at the begin.
-/

import AergoLite.NoLeader.PeerMessages

namespace AergoLite
namespace NoLeader

open AergoLite.Core AergoLite.Common

/-- `STATE_CONN_NONE`, `STATE_CONN_LOST` and `STATE_ERROR`. -/
def noConnStates : List ℤ := [0, 4, 7]

/-- A call of `send_peer_message`: the state of the node, the message, and what happens on the way.
`available`, `fresh` and `iv` are those of the codec; `request` and `copy` tell whether there is
memory for the request and for a copy of the message, and `uvWrite` whether `uv_write` succeeds. -/
structure PeerSend where
  connState : ℤ
  isClosing : Bool
  msg : Bytes
  available : ℕ → Bool
  fresh : Bytes
  iv : Vector UInt8 msgIvlen
  request : Bool
  copy : Bool
  uvWrite : Bool

/-- `memdup` -/
def memdup (copy : Bool) (source : Option Bytes) : Option Bytes :=
  source.bind fun data => if data.length ≤ 0 then none else if copy then some data else none

/-- `send_message`: the bytes that are written, unless there is an error.  The message is a null
pointer when there was no memory to encrypt it. -/
def sendMessage (a : PeerSend) (transient : Bool) (msg : Option Bytes) : Option Bytes :=
  if !a.request then none
  else
    ((if transient then memdup a.copy msg else msg).bind uvMsgSend).bind fun bytes =>
      if a.uvWrite then some bytes else none

/-- `send_peer_message`: the bytes that are written when it returns `TRUE`.  It is not defined
where the key of the codec is a null pointer.  The message that was not encrypted is the one of the
caller, and is copied. -/
def sendPeerMessage (pBlock : Option CryptBlock) (a : PeerSend) : Option (Option Bytes) :=
  if a.isClosing then some none
  else if a.connState ∈ noConnStates then some none
  else
    (aergoliteMsgEncrypt a.available a.fresh a.iv pBlock a.msg 0x4329017E).map fun data2 =>
      sendMessage a pBlock.isNone data2

/-- Some calls, one after the other: the messages that are accepted, and what is written. -/
def sendAll (pBlock : Option CryptBlock) : List PeerSend → Option (List Bytes × List Bytes)
  | [] => some ([], [])
  | a :: attempts =>
    (sendPeerMessage pBlock a).bind fun sent =>
      (sendAll pBlock attempts).map fun (accepted, written) =>
        match sent with
        | none => (accepted, written)
        | some bytes => (a.msg :: accepted, bytes :: written)

/-- The two sides have the same codec: none, or one with a cipher and the same key. -/
def SameCodec : Option CryptBlock → Option CryptBlock → Prop
  | none, none => True
  | some enc, some dec =>
    enc.Agree dec ∧ enc.iCipher ≠ .unset ∧
      ∃ hKey, enc.hReadKey = some hKey ∧ dec.hReadKey = some hKey
  | _, _ => False

/-! ## One message -/

section message

variable {enc dec : Option CryptBlock} {a : PeerSend}

/-- The messages that are written as some bytes are received as the message `msg`. -/
def SealsMsg (dec : Option CryptBlock) (bytes msg : Bytes) : Prop :=
  ∃ sealed, bytes = frame sealed ∧ sealed.length + 4 < 2 ^ 31 ∧
    workerThreadOnPeerMessage dec false sealed sealed.length = .received msg msg.length

theorem memdup_eq_some {copy : Bool} {source : Option Bytes} {data : Bytes}
    (h : memdup copy source = some data) : source = some data := by
  obtain ⟨source, rfl, hcopy⟩ := Option.bind_eq_some_iff.1 h
  split_ifs at hcopy
  exact hcopy

theorem frame_of_sendMessage {transient : Bool} {msg : Option Bytes} {bytes : Bytes}
    (h : sendMessage a transient msg = some bytes) : ∃ data, msg = some data ∧ bytes = frame data := by
  unfold sendMessage at h
  by_cases hrequest : (!a.request) = true
  · rw [if_pos hrequest] at h
    cases h
  rw [if_neg hrequest] at h
  obtain ⟨sent, hsent, h⟩ := Option.bind_eq_some_iff.1 h
  obtain ⟨data, hdata, hsent⟩ := Option.bind_eq_some_iff.1 hsent
  unfold uvMsgSend at hsent
  split_ifs at hsent
  obtain rfl := Option.some.inj hsent
  have hmsg : msg = some data := by
    cases transient with
    | true => exact memdup_eq_some hdata
    | false => exact hdata
  refine ⟨data, hmsg, ?_⟩
  split_ifs at h
  exact (Option.some.inj h).symm

/-- What the codec makes of a message. -/
theorem eq_of_encrypt {enc : CryptBlock} {hKey : CryptKey} {data : Bytes}
    (hcipher : enc.iCipher ≠ .unset) (hkey : enc.hReadKey = some hKey)
    (h : aergoliteMsgEncrypt a.available a.fresh a.iv (some enc) a.msg 0x4329017E =
      some (some data)) :
    data = a.iv.toList ++
      codecCrypt enc.iCipher enc.iRounds hKey a.iv.toList a.msg 0x4329017E := by
  rw [aergoliteMsgEncrypt_of_available hcipher hkey] at h
  have hsealed := Option.some.inj h
  split_ifs at hsealed
  exact (Option.some.inj hsealed).symm

/-- **A message that is accepted arrives as it was.** -/
theorem carries_of_send (hcodec : SameCodec enc dec) (hsize : a.msg.length < 2 ^ 31 - 8)
    {bytes : Bytes} (h : sendPeerMessage enc a = some (some bytes)) : SealsMsg dec bytes a.msg := by
  unfold sendPeerMessage at h
  split_ifs at h
  · exact absurd (Option.some.inj h).symm (Option.some_ne_none _)
  · exact absurd (Option.some.inj h).symm (Option.some_ne_none _)
  obtain ⟨data2, hencrypt, hsend⟩ := Option.map_eq_some_iff.1 h
  obtain ⟨data, rfl, rfl⟩ := frame_of_sendMessage hsend
  refine ⟨data, rfl, ?_⟩
  have hnonneg : ¬((data.length : ℤ) < 0) := by omega
  unfold workerThreadOnPeerMessage
  rw [if_neg hnonneg, if_neg Bool.false_ne_true]
  cases enc with
  | none =>
      cases dec with
      | some dec => exact absurd hcodec id
      | none =>
          obtain rfl := Option.some.inj (Option.some.inj hencrypt)
          exact ⟨by omega, rfl⟩
  | some enc =>
      cases dec with
      | none => exact absurd hcodec id
      | some dec =>
          obtain ⟨hagree, hcipher, hKey, henc, hdec⟩ := hcodec
          obtain rfl := eq_of_encrypt hcipher henc hencrypt
          have hmsgIvlen : msgIvlen = 4 := rfl
          have hcrypt := length_codecCrypt enc.iCipher enc.iRounds hKey a.iv.toList a.msg 0x4329017E
          have hlength := congrArg (· + msgIvlen) hcrypt
          rw [List.length_append, Vector.length_toList, Nat.add_comm msgIvlen,
            aergoliteMsgDecrypt_append (by rw [hagree.iCipher]; exact hcipher) hdec (by omega),
            hagree.iCipher, hagree.iRounds, codecCrypt_codecCrypt, hcrypt]
          exact ⟨by omega, rfl⟩

/-- With a key the encryption is defined. -/
theorem sendPeerMessage_defined (hcodec : SameCodec enc dec) (a : PeerSend) :
    ∃ sent, sendPeerMessage enc a = some sent := by
  unfold sendPeerMessage
  split_ifs
  · exact ⟨_, rfl⟩
  · exact ⟨_, rfl⟩
  cases enc with
  | none => exact ⟨_, rfl⟩
  | some enc =>
      cases dec with
      | none => exact absurd hcodec id
      | some dec =>
          obtain ⟨-, hcipher, hKey, henc, -⟩ := hcodec
          rw [aergoliteMsgEncrypt_of_available hcipher henc]
          exact ⟨_, rfl⟩

end message

/-! ## The stream -/

section stream

variable {enc dec : Option CryptBlock}

/-- **What is written carries the messages that were accepted**, some of those of the calls. -/
theorem sendAll_spec (hcodec : SameCodec enc dec) {attempts : List PeerSend}
    (hsizes : ∀ a ∈ attempts, a.msg.length < 2 ^ 31 - 8) :
    ∃ accepted written, sendAll enc attempts = some (accepted, written) ∧
      accepted.Sublist (attempts.map PeerSend.msg) ∧
      List.Forall₂ (SealsMsg dec) written accepted := by
  induction attempts with
  | nil => exact ⟨[], [], rfl, List.Sublist.slnil, List.Forall₂.nil⟩
  | cons a attempts ih =>
      obtain ⟨accepted, written, hrest, hsub, hseals⟩ := ih fun a' ha' =>
        hsizes a' (List.mem_cons_of_mem _ ha')
      obtain ⟨sent, hsent⟩ := sendPeerMessage_defined hcodec a
      unfold sendAll
      rw [hsent, Option.bind_some, hrest, Option.map_some]
      cases sent with
      | none => exact ⟨accepted, written, rfl, hsub.cons _, hseals⟩
      | some bytes =>
          have hone := carries_of_send hcodec (hsizes a List.mem_cons_self) hsent
          exact ⟨_, _, rfl, hsub.cons_cons _, List.Forall₂.cons hone hseals⟩

/-- The messages of the framing under what is written. -/
theorem sealed_of_seals {written accepted : List Bytes}
    (h : List.Forall₂ (SealsMsg dec) written accepted) :
    ∃ sealed : List Bytes, written.flatten = sealed.flatMap frame ∧
      (∀ msg ∈ sealed, msg.length + 4 < 2 ^ 31) ∧
      sealed.map (fun msg => workerThreadOnPeerMessage dec false msg msg.length) =
        accepted.map fun msg => Receipt.received msg msg.length := by
  induction h with
  | nil => exact ⟨[], rfl, fun _ h => absurd h List.not_mem_nil, rfl⟩
  | cons hone _ ih =>
      obtain ⟨sealed, rfl, hsize, hreceived⟩ := hone
      obtain ⟨rest, hflatten, hsizes, hmap⟩ := ih
      refine ⟨sealed :: rest, ?_, ?_, ?_⟩
      · rw [List.flatten_cons, hflatten, List.flatMap_cons]
      · intro msg hmsg
        rcases List.mem_cons.1 hmsg with rfl | hmsg
        · exact hsize
        · exact hsizes msg hmsg
      · rw [List.map_cons, List.map_cons, hreceived, hmap]

/-- A reader of a part of the stream calls the callback with the messages that are complete. -/
theorem readAll_prefix {msgs : List Bytes} {reads : List Read} {data later : Bytes} {s : UvMsg}
    (hsizes : ∀ msg ∈ msgs, msg.length + 4 < 2 ^ 31) (hkeeps : Keeps s data)
    (hbegins : Begins data msgs)
    (hstream : data ++ (reads.flatMap Read.bytes ++ later) = msgs.flatMap frame)
    (hfits : Fits reads s) :
    ∃ done todo left s', msgs = done ++ todo ∧ left ++ later = todo.flatMap frame ∧
      Begins left todo ∧ readAll reads s = some (done, s') := by
  induction reads generalizing msgs data s with
  | nil => exact ⟨[], msgs, data, s, rfl, hstream, hbegins, rfl⟩
  | cons read reads ih =>
      obtain ⟨len, s₁, halloc, hlen, hrest⟩ := hfits
      have hheader : Unfinished data := fun m hm hfour => entireMsg_of_begins hm hbegins hsizes hfour
      obtain ⟨hkeeps₁, ⟨memory, hbuf⟩, hroom⟩ := uvStreamMsgAlloc_spec hkeeps hheader halloc
      rw [List.flatMap_cons, List.append_assoc] at hstream
      obtain ⟨done, todo, left, s₂, rfl, hlater, hleft, hread, hkeeps₂⟩ :=
        uvStreamMsgRead_spec hkeeps₁ hbuf (by omega) hsizes hbegins hstream
      obtain ⟨done', todo', left', s', rfl, hlater', hleft', hall⟩ :=
        ih (fun msg hmsg => hsizes msg (List.mem_append_right _ hmsg)) hkeeps₂ hleft hlater
          (hrest done s₂ hread)
      refine ⟨done ++ done', todo', left', s', (List.append_assoc ..).symm, hlater', hleft', ?_⟩
      unfold readAll
      rw [halloc, Option.bind_some]
      dsimp only
      rw [hread, Option.bind_some]
      dsimp only
      rw [hall, Option.map_some]

/-- **The handlers are called with the messages that were accepted**, each once, in order and as
they were, however the stream is cut into reads; and with those at the begin when it breaks. -/
theorem received_eq_accepted (hcodec : SameCodec enc dec) {attempts : List PeerSend}
    (hsizes : ∀ a ∈ attempts, a.msg.length < 2 ^ 31 - 8) :
    ∃ accepted written, sendAll enc attempts = some (accepted, written) ∧
      accepted.Sublist (attempts.map PeerSend.msg) ∧
      ∀ reads : List Read, reads.flatMap Read.bytes <+: written.flatten → Fits reads uvMsgInit →
        ∃ delivered s received, readAll reads uvMsgInit = some (delivered, s) ∧
          received <+: accepted ∧
          delivered.map (fun msg => workerThreadOnPeerMessage dec false msg msg.length) =
            received.map (fun msg => Receipt.received msg msg.length) ∧
          (reads.flatMap Read.bytes = written.flatten → received = accepted) := by
  obtain ⟨accepted, written, hrun, hsub, hseals⟩ := sendAll_spec hcodec hsizes
  refine ⟨accepted, written, hrun, hsub, fun reads hprefix hfits => ?_⟩
  obtain ⟨sealed, hflatten, hsealed, hmap⟩ := sealed_of_seals hseals
  obtain ⟨later, hlater⟩ := hprefix
  obtain ⟨done, todo, left, s, rfl, hrest, hleft, hread⟩ :=
    readAll_prefix hsealed keeps_init (begins_nil sealed)
      (by rw [List.nil_append, hlater, hflatten]) hfits
  rw [List.map_append] at hmap
  obtain ⟨received, missing, rfl, hreceived, hmissing⟩ := List.map_eq_append_iff.1 hmap.symm
  refine ⟨done, s, received, hread, List.prefix_append _ _, hreceived.symm, fun hall => ?_⟩
  have hempty : later = [] := by
    rw [hall] at hlater
    exact List.append_right_eq_self.1 hlater
  have htodo : todo = [] := by
    cases todo with
    | nil => rfl
    | cons msg todo =>
        have hshort := hleft.2
        rw [hempty, List.append_nil] at hrest
        rw [hrest, List.flatMap_cons, List.length_append] at hshort
        omega
  subst htodo
  rw [List.map_eq_nil_iff.1 hmissing, List.append_nil]

/-- Of three messages the second is not accepted, and the stream breaks in the third: one message
arrives. -/
theorem received_eq_accepted_broken :
    let block : CryptBlock :=
      ⟨512, .chacha, 20, some ⟨Vector.replicate 256 0, Vector.replicate 32 7⟩, none⟩
    let attempts : List PeerSend :=
      [⟨2, false, [1, 2, 3], fun _ => true, [], #v[1, 2, 3, 4], true, true, true⟩,
        ⟨2, true, [5], fun _ => true, [], #v[1, 2, 3, 4], true, true, true⟩,
        ⟨2, false, [4], fun _ => true, [], #v[9, 2, 3, 4], true, true, true⟩]
    ∃ accepted written, sendAll (some block) attempts = some (accepted, written) ∧
      ∃ delivered s received,
        readAll [⟨64, some, [0, 0, 0, 7, 1, 2, 3, 4, 147, 235, 183, 0, 0]⟩] uvMsgInit =
          some (delivered, s) ∧
        received <+: accepted ∧
        delivered.map (fun msg => workerThreadOnPeerMessage (some block) false msg msg.length) =
          received.map (fun msg => Receipt.received msg msg.length) := by
  intro block attempts
  have hcodec : SameCodec (some block) (some block) :=
    ⟨⟨rfl, rfl⟩, fun h => Cipher.noConfusion h, _, rfl, rfl⟩
  obtain ⟨accepted, written, hrun, -, hreads⟩ := received_eq_accepted hcodec
    (show ∀ a ∈ attempts, a.msg.length < 2 ^ 31 - 8 by decide)
  have hwritten : sendAll (some block) attempts = some ([[1, 2, 3], [4]],
      [[0, 0, 0, 7, 1, 2, 3, 4, 147, 235, 183], [0, 0, 0, 5, 9, 2, 3, 4, 182]]) := by
    decide +kernel
  obtain ⟨rfl, rfl⟩ := Prod.mk.inj (Option.some.inj (hrun.symm.trans hwritten))
  obtain ⟨delivered, s, received, hread, hprefix, hmap, -⟩ :=
    hreads [⟨64, some, [0, 0, 0, 7, 1, 2, 3, 4, 147, 235, 183, 0, 0]⟩] (by decide)
      ⟨64, ⟨some (List.replicate 64 none), 64, 0⟩, rfl, by decide, fun _ _ _ => trivial⟩
  exact ⟨_, _, hrun, delivered, s, received, hread, hprefix, hmap⟩

end stream

end NoLeader
end AergoLite
