/-
# The identification of a connection

Both ends of a connection send an identification with the message `PLUGIN_CMD_ID`
(`send_node_identification`, `on_node_identification` of `allowed_nodes.c`): the node id, the
port, what the device is, the public key and a random number.  The signature is on a text with
the node id, the port and the device only (`identificationText`): neither the random number nor
anything the other end has sent is signed.

A connection whose identification is verified is compared with the other connections.  Of two
connections to one node the one with the smaller number is closed, where the number is the one
that the node with the smaller id has chosen for it.

A pointer to a `struct node` is modelled by a number, and a call with which the source leaves the
bounds of an array, or that reads a text that is not there, has no result.
-/

import AergoLite.Core.Authorizations
import AergoLite.Core.SignedText
import Mathlib.Data.List.Forall2

namespace AergoLite
namespace NoLeader

open AergoLite.Core

/-- `PLUGIN_VERSION_NUMBER`. -/
def pluginVersionNumber : ℤ := 1

/-- What `get_this_device_info` reads. -/
structure DeviceInfo where
  cpu : Text
  os : Text
  hostname : Text
  app : Text
  deriving DecidableEq, Repr

/-- The texts fit into the arrays of `struct node`. -/
def DeviceInfo.Fits (device : DeviceInfo) : Prop :=
  device.cpu.length < 256 ∧ device.os.length < 256 ∧ device.hostname.length < 256 ∧
    device.app.length < 256

instance (device : DeviceInfo) : Decidable device.Fits :=
  inferInstanceAs (Decidable (_ ∧ _ ∧ _ ∧ _))

/-- The message `PLUGIN_CMD_ID`.  A number that is not there is read as zero. -/
structure IdMessage where
  version : ℤ
  pubkey : Option Bytes
  nodeId : ℤ
  port : ℤ
  cpu : Option Text
  os : Option Text
  hostname : Option Text
  app : Option Text
  info : Option Text
  signature : Option Bytes
  random : BitVec 64
  deriving DecidableEq, Repr

/-- The texts of the message, if all are there. -/
def IdMessage.device (msg : IdMessage) : Option DeviceInfo :=
  match msg.cpu, msg.os, msg.hostname, msg.app with
  | some cpu, some os, some hostname, some app => some ⟨cpu, os, hostname, app⟩
  | _, _, _, _ => none

/-- The text that is signed, `"%d:%d:%s:%s:%s:%s"`. -/
def identificationText (nodeId port : ℤ) (device : DeviceInfo) : Text :=
  int64Text nodeId ++ ':' :: (int64Text port ++ ':' :: (device.cpu ++ ':' :: (device.os ++
    ':' :: (device.hostname ++ ':' :: device.app))))

/-- The text that the signature of a message is checked on. -/
def IdMessage.text (msg : IdMessage) : Option Text :=
  msg.device.map (identificationText msg.nodeId msg.port)

/-- `struct node`, under the number that stands for its address.  `closing` is
`uv_is_closing` of its socket, and `connected` that its `conn_state` is
`CONN_STATE_CONNECTED`. -/
structure Connection where
  conn : ℕ
  id : ℤ := 0
  connId : List (ℤ × BitVec 64) := []
  idConflict : Option (ℕ × ℕ) := none
  bindPort : ℤ := 0
  device : DeviceInfo := ⟨[], [], [], []⟩
  info : Option Text := none
  pubkey : Bytes := List.replicate 36 0
  pklen : ℕ := 0
  connected : Bool := false
  closing : Bool := false
  isAuthorized : Bool := false
  authorizationSent : Bool := false
  isFullNode : Bool := false
  deriving DecidableEq, Repr

/-- The key that is stored. -/
def Connection.key (node : Connection) : Bytes := node.pubkey.take node.pklen

/-- The text of the identification that is stored. -/
def Connection.text (node : Connection) : Text :=
  identificationText node.id node.bindPort node.device

/-- `struct plugin`, and of its core the list of authorizations.  `validNodes` is not in the
source: it lists the connections on which `on_valid_node_id` has run. -/
structure Peering where
  nodeId : ℤ
  pubkey : Bytes
  authorizations : List NodeAuth
  peers : List Connection
  validNodes : List ℕ
  deriving DecidableEq, Repr

namespace Peering

/-- The connection under a number. -/
def peer (p : Peering) (conn : ℕ) : Option Connection :=
  p.peers.find? fun node => node.conn == conn

/-- The fields of a connection are set. -/
def set (node : Connection) (p : Peering) : Peering :=
  { p with peers := p.peers.map fun other => if other.conn = node.conn then node else other }

/-- The connection under a number is changed. -/
def modify (conn : ℕ) (change : Connection → Connection) (p : Peering) : Peering :=
  { p with peers := p.peers.map fun other => if other.conn = conn then change other else other }

end Peering

/-- `disconnect_peer`. -/
def disconnectPeer (conn : ℕ) (p : Peering) : Peering :=
  p.modify conn fun node => { node with closing := true }

/-- `add_node_connection_identifier`: a map keeps the first value under a key. -/
def addNodeConnectionIdentifier (node : Connection) (nodeId : ℤ) (randomNo : BitVec 64) :
    Connection :=
  if (node.connId.lookup nodeId).isSome then node
  else { node with connId := node.connId ++ [(nodeId, randomNo)] }

/-- The number of a connection: the one under the smaller of the two node ids. -/
def connectionNumber (p : Peering) (node : Connection) : BitVec 64 :=
  (node.connId.lookup (min p.nodeId node.id)).getD 0

/-- `choose_duplicate_connection`. -/
def chooseDuplicateConnection (p : Peering) (node1 node2 : Connection) : Connection :=
  if connectionNumber p node1 < connectionNumber p node2 then node1 else node2

/-- `on_valid_node_id`: an authorized node is sent all the authorizations. -/
def onValidNodeId (node : Connection) (p : Peering) : Peering :=
  let p := { p with validNodes := p.validNodes ++ [node.conn] }
  if node.isAuthorized then p.modify node.conn fun node => { node with authorizationSent := true }
  else p

/-- `on_new_node_with_same_id`: the existing node is asked whether it is there, or is
disconnected where it cannot be sent the message. -/
def onNewNodeWithSameId (existing new : Connection) (p : Peering) : Peering :=
  if existing.connected && !existing.closing then
    let conflict := some (existing.conn, new.conn)
    (p.modify existing.conn fun node => { node with idConflict := conflict }).modify new.conn
      fun node => { node with idConflict := conflict }
  else disconnectPeer existing.conn p

/-- `memcmp(node1->pubkey,node2->pubkey,33)==0`. -/
def sameKey (key key' : Bytes) : Bool := key.take 33 == key'.take 33

/-- A connection on the list of peers with the key of this one. -/
def previousConnection (p : Peering) (new : Connection) : Option Connection :=
  p.peers.find? fun node => node.conn != new.conn && sameKey node.pubkey new.pubkey

/-- `check_new_identified_node`. -/
def checkNewIdentifiedNode (new : Connection) (p : Peering) : Peering :=
  if sameKey new.pubkey p.pubkey then disconnectPeer new.conn p
  else if new.id = p.nodeId then disconnectPeer new.conn p
  else match previousConnection p new with
    | some node => disconnectPeer (chooseDuplicateConnection p node new).conn p
    | none =>
      match p.peers.find? fun node => node.conn != new.conn && node.id == new.id with
      | some node => onNewNodeWithSameId node new p
      | none => onValidNodeId new p

/-- The key that checks the signature: that of the authorization, which has to be the one of
the message, or else that of the message. -/
def identificationKey (auth : Option NodeAuth) (pubkeyExt : Option Bytes) : Option Bytes :=
  match auth with
  | some auth =>
    if (pubkeyExt.any fun pubkey => pubkey != auth.pk) || auth.pk.isEmpty then none
    else some auth.pk
  | none => pubkeyExt.filter fun pubkey => !pubkey.isEmpty

/-- What is stored before the first check. -/
def Connection.announced (node : Connection) (msg : IdMessage) : Connection :=
  { node with id := msg.nodeId, info := msg.info, bindPort := msg.port }

/-- What is stored of an identification that is verified. -/
def Connection.identified (node : Connection) (msg : IdMessage) (auth : Option NodeAuth)
    (pubkey : Bytes) (device : DeviceInfo) : Connection :=
  let isAuthorized := auth.any fun auth => !auth.pk.isEmpty
  let node := { node.announced msg with
    device
    pubkey := pubkey ++ node.pubkey.drop pubkey.length
    pklen := pubkey.length
    isAuthorized
    isFullNode := if isAuthorized then auth.any NodeAuth.isFullNode else node.isFullNode
    authorizationSent := node.authorizationSent || (msg.pubkey.getD []).isEmpty }
  addNodeConnectionIdentifier node node.id msg.random

/-- `on_node_identification`. -/
def onNodeIdentification (c : Crypto) (node : Connection) (msg : IdMessage) (p : Peering) :
    Option Peering :=
  let failed := some (disconnectPeer node.conn (p.set (node.announced msg)))
  if msg.version ≠ pluginVersionNumber then some (disconnectPeer node.conn p)
  else if p.nodeId = 0 ∨ msg.nodeId < 0 then failed
  else match msg.signature with
    | none => failed
    | some signature =>
      let auth := aergoliteGetAuthorization p.authorizations msg.nodeId
      match identificationKey auth msg.pubkey with
      | none => failed
      | some pubkey =>
        match msg.device with
        | none => none
        | some device =>
          let text := identificationText msg.nodeId msg.port device
          if 2048 ≤ text.length then none
          else if aergoliteVerify c text pubkey signature ≠ .ok then failed
          else if ¬device.Fits ∨ 36 < pubkey.length then none
          else
            let node := node.identified msg auth pubkey device
            some (checkNewIdentifiedNode node (p.set node))

/-- What a node says of itself, and its signature of a text. -/
structure Sender where
  port : ℤ
  device : DeviceInfo
  info : Option Text
  sign : Text → Bytes

/-- The message of `send_node_identification`. -/
def sendNodeIdentification (self : Sender) (randomNo : BitVec 64) (p : Peering) : IdMessage where
  version := pluginVersionNumber
  pubkey := some p.pubkey
  nodeId := p.nodeId
  port := self.port
  cpu := some self.device.cpu
  os := some self.device.os
  hostname := some self.device.hostname
  app := some self.device.app
  info := self.info
  -- `snprintf` writes at most 2047 characters
  signature := some (self.sign ((identificationText p.nodeId self.port self.device).take 2047))
  random := randomNo

/-- `new_node`: the connection is put at the end of the list of peers. -/
def newNode (conn : ℕ) (p : Peering) : Peering := { p with peers := p.peers ++ [{ conn }] }

/-- `on_new_node_connected`, with the random number of the identification that is sent. -/
def onNewNodeConnected (conn : ℕ) (randomNo : BitVec 64) (p : Peering) : Peering :=
  p.modify conn fun node =>
    addNodeConnectionIdentifier { node with connected := true } p.nodeId randomNo

/-- `stop_id_conflict_timer`. -/
def stopIdConflictTimer (conflict : ℕ × ℕ) (p : Peering) : Peering :=
  (p.modify conflict.1 fun node => { node with idConflict := none }).modify conflict.2
    fun node => { node with idConflict := none }

/-- `id_conflict_timer_cb`: the existing node has not answered. -/
def idConflictTimerCb (conflict : ℕ × ℕ) (p : Peering) : Peering :=
  let p := disconnectPeer conflict.1 (stopIdConflictTimer conflict p)
  match p.peer conflict.2 with
  | some new => onValidNodeId new p
  | none => p

/-- `on_ping_response`: the existing node has answered, and the new one is told. -/
def onPingResponse (node : Connection) (p : Peering) : Peering :=
  match node.idConflict with
  | some conflict => stopIdConflictTimer conflict p
  | none => p

/-- `worker_thread_on_close`, of the socket of a connection. -/
def workerThreadOnClose (node : Connection) (p : Peering) : Peering :=
  let p := { p with peers := p.peers.filter fun other => other.conn != node.conn }
  match node.idConflict with
  | some conflict => stopIdConflictTimer conflict p
  | none => p

/-- **The node id is signed**: two identifications with one text are of one node id. -/
theorem nodeId_eq_of_text_eq {nodeId nodeId' port port' : ℤ} {device device' : DeviceInfo}
    (h : identificationText nodeId port device = identificationText nodeId' port' device') :
    nodeId = nodeId' :=
  int64Text_injective (field_inj (notMem_int64Text (by decide) (by decide) _)
    (notMem_int64Text (by decide) (by decide) _) h).1

/-- The key of an authorization is the one that checks. -/
theorem identificationKey_some {auth : NodeAuth} {pubkeyExt : Option Bytes} {pubkey : Bytes}
    (h : identificationKey (some auth) pubkeyExt = some pubkey) : pubkey = auth.pk := by
  unfold identificationKey at h
  dsimp only at h
  split_ifs at h
  exact (Option.some.inj h).symm

/-- Only the numbers of the connection change. -/
theorem addNodeConnectionIdentifier_eq (node : Connection) (nodeId : ℤ) (randomNo : BitVec 64) :
    addNodeConnectionIdentifier node nodeId randomNo =
      { node with connId := (addNodeConnectionIdentifier node nodeId randomNo).connId } := by
  unfold addNodeConnectionIdentifier
  split_ifs <;> rfl

/-- What is stored of an identification, the numbers of the connection apart. -/
theorem Connection.identified_eq (node : Connection) (msg : IdMessage) (auth : Option NodeAuth)
    (pubkey : Bytes) (device : DeviceInfo) :
    let new := node.identified msg auth pubkey device
    new.conn = node.conn ∧ new.key = pubkey ∧
      new.text = identificationText msg.nodeId msg.port device ∧ new.id = msg.nodeId ∧
      new.isAuthorized = auth.any fun auth => !auth.pk.isEmpty := by
  unfold identified
  dsimp only
  rw [addNodeConnectionIdentifier_eq]
  refine ⟨rfl, ?_, rfl, rfl, rfl⟩
  exact List.take_left' rfl

/-- **What an identification leads to.**  It is refused before or after the announced fields are
stored, or its signature is verified, it is stored and the connection compared with the others. -/
theorem onNodeIdentification_cases {c : Crypto} {node : Connection} {msg : IdMessage}
    {p q : Peering} (h : onNodeIdentification c node msg p = some q) :
    q = disconnectPeer node.conn p ∨ q = disconnectPeer node.conn (p.set (node.announced msg)) ∨
      ∃ signature pubkey device, msg.signature = some signature ∧
        identificationKey (aergoliteGetAuthorization p.authorizations msg.nodeId) msg.pubkey =
          some pubkey ∧ msg.device = some device ∧
        aergoliteVerify c (identificationText msg.nodeId msg.port device) pubkey signature = .ok ∧
        pubkey.length ≤ 36 ∧
        let new := node.identified msg (aergoliteGetAuthorization p.authorizations msg.nodeId)
          pubkey device
        q = checkNewIdentifiedNode new (p.set new) := by
  unfold onNodeIdentification at h
  dsimp only at h
  by_cases hversion : msg.version ≠ pluginVersionNumber
  · rw [if_pos hversion] at h
    exact .inl (Option.some.inj h).symm
  rw [if_neg hversion] at h
  right
  by_cases hid : p.nodeId = 0 ∨ msg.nodeId < 0
  · rw [if_pos hid] at h
    exact .inl (Option.some.inj h).symm
  rw [if_neg hid] at h
  cases hsignature : msg.signature with
  | none =>
      rw [hsignature] at h
      exact .inl (Option.some.inj h).symm
  | some signature =>
      rw [hsignature] at h
      dsimp only at h
      cases hkey : identificationKey (aergoliteGetAuthorization p.authorizations msg.nodeId)
          msg.pubkey with
      | none =>
          rw [hkey] at h
          exact .inl (Option.some.inj h).symm
      | some pubkey =>
          rw [hkey] at h
          dsimp only at h
          cases hdevice : msg.device with
          | none =>
              rw [hdevice] at h
              cases h
          | some device =>
              rw [hdevice] at h
              dsimp only at h
              by_cases hlength : 2048 ≤ (identificationText msg.nodeId msg.port device).length
              · rw [if_pos hlength] at h
                cases h
              rw [if_neg hlength] at h
              by_cases hverify : aergoliteVerify c (identificationText msg.nodeId msg.port device)
                  pubkey signature ≠ .ok
              · rw [if_pos hverify] at h
                exact .inl (Option.some.inj h).symm
              rw [if_neg hverify] at h
              by_cases hfits : ¬device.Fits ∨ 36 < pubkey.length
              · rw [if_pos hfits] at h
                cases h
              rw [if_neg hfits] at h
              exact .inr ⟨signature, pubkey, device, rfl, rfl, rfl, not_not.1 hverify,
                not_lt.1 fun hlt => hfits (.inr hlt), (Option.some.inj h).symm⟩

/-- A connection on which nothing changed but that it may be closed, be in conflict with
another one and be sent the authorizations. -/
structure Connection.KeptFrom (new old : Connection) : Prop where
  same : new = { old with
    idConflict := new.idConflict
    closing := new.closing
    authorizationSent := new.authorizationSent }
  closing : old.closing = true → new.closing = true

namespace Connection.KeptFrom

instance : Std.Refl KeptFrom := ⟨fun _ => ⟨rfl, fun h => h⟩⟩

instance : IsTrans Connection KeptFrom where
  trans a b c h h' := by
    refine ⟨?_, fun hclosing => h.closing (h'.closing hclosing)⟩
    rw [h.same, h'.same]

theorem conn {new old : Connection} (h : new.KeptFrom old) : new.conn = old.conn := by
  rw [h.same]

end Connection.KeptFrom

namespace Peering

/-- Every connection is one that was there before. -/
def Keeps (p q : Peering) : Prop := List.SublistForall₂ Connection.KeptFrom q.peers p.peers

theorem Keeps.refl (p : Peering) : p.Keeps p := Std.Refl.refl p.peers

theorem Keeps.trans {p q r : Peering} (h : p.Keeps q) (h' : q.Keeps r) : p.Keeps r :=
  IsTrans.trans r.peers q.peers p.peers h' h

theorem Keeps.exists_old {p q : Peering} (h : p.Keeps q) :
    ∀ new ∈ q.peers, ∃ old ∈ p.peers, new.KeptFrom old := by
  unfold Keeps at h
  generalize q.peers = new at h ⊢
  generalize p.peers = old at h ⊢
  intro node hnew
  induction h with
  | nil => cases hnew
  | @cons a b l l' hkept _ ih =>
      rcases List.mem_cons.1 hnew with rfl | hmem
      · exact ⟨b, List.mem_cons_self, hkept⟩
      · obtain ⟨old, hold, hkept'⟩ := ih hmem
        exact ⟨old, List.mem_cons_of_mem _ hold, hkept'⟩
  | cons_right _ ih =>
      obtain ⟨old, hold, hkept⟩ := ih hnew
      exact ⟨old, List.mem_cons_of_mem _ hold, hkept⟩

/-- The numbers of the connections are among those of before. -/
theorem Keeps.conns {p q : Peering} (h : p.Keeps q) :
    (q.peers.map Connection.conn).Sublist (p.peers.map Connection.conn) := by
  unfold Keeps at h
  generalize q.peers = new at h ⊢
  generalize p.peers = old at h ⊢
  induction h with
  | nil => exact List.nil_sublist _
  | cons hkept _ ih =>
      rw [List.map_cons, List.map_cons, hkept.conn]
      exact ih.cons_cons _
  | cons_right _ ih => exact ih.cons _

theorem keeps_modify {conn : ℕ} {change : Connection → Connection}
    (h : ∀ node, (change node).KeptFrom node) (p : Peering) : p.Keeps (p.modify conn change) := by
  refine List.sublistForall₂_map_left_iff.2 (List.sublistForall₂_iff.2
    ⟨p.peers, List.forall₂_same.2 fun node _ => ?_, .refl _⟩)
  split_ifs
  · exact h node
  · exact Std.Refl.refl node

end Peering

theorem keeps_disconnectPeer (conn : ℕ) (p : Peering) : p.Keeps (disconnectPeer conn p) :=
  Peering.keeps_modify (fun _ => ⟨rfl, fun _ => rfl⟩) p

/-- A connection that is disconnected is being closed. -/
theorem closing_of_disconnectPeer {conn : ℕ} {p : Peering} {node : Connection}
    (h : node ∈ (disconnectPeer conn p).peers) (hconn : node.conn = conn) :
    node.closing = true := by
  obtain ⟨old, -, rfl⟩ := List.mem_map.1 h
  split_ifs at hconn ⊢ with heq
  · rfl
  · exact absurd hconn heq

theorem keeps_stopIdConflictTimer (conflict : ℕ × ℕ) (p : Peering) :
    p.Keeps (stopIdConflictTimer conflict p) := by
  refine (Peering.keeps_modify ?_ p).trans (Peering.keeps_modify ?_ _) <;>
    exact fun _ => ⟨rfl, fun h => h⟩

theorem keeps_onValidNodeId (node : Connection) (p : Peering) :
    p.Keeps (onValidNodeId node p) := by
  dsimp only [onValidNodeId]
  split_ifs
  · change Peering.Keeps { p with validNodes := p.validNodes ++ [node.conn] } _
    refine Peering.keeps_modify ?_ _
    exact fun _ => ⟨rfl, fun h => h⟩
  · exact .refl p

theorem keeps_onNewNodeWithSameId (existing new : Connection) (p : Peering) :
    p.Keeps (onNewNodeWithSameId existing new p) := by
  unfold onNewNodeWithSameId
  split_ifs
  · refine (Peering.keeps_modify ?_ p).trans (Peering.keeps_modify ?_ _) <;>
      exact fun _ => ⟨rfl, fun h => h⟩
  · exact keeps_disconnectPeer _ p

/-- **The comparison with the other connections** closes some and leaves the rest as it is. -/
theorem keeps_checkNewIdentifiedNode (new : Connection) (p : Peering) :
    p.Keeps (checkNewIdentifiedNode new p) := by
  unfold checkNewIdentifiedNode
  split_ifs
  · exact keeps_disconnectPeer _ p
  · exact keeps_disconnectPeer _ p
  cases previousConnection p new with
  | some node => exact keeps_disconnectPeer _ p
  | none =>
      dsimp only
      cases p.peers.find? fun node => node.conn != new.conn && node.id == new.id with
      | some node => exact keeps_onNewNodeWithSameId node new p
      | none => exact keeps_onValidNodeId new p

theorem keeps_onPingResponse (node : Connection) (p : Peering) :
    p.Keeps (onPingResponse node p) := by
  unfold onPingResponse
  cases node.idConflict with
  | some conflict => exact keeps_stopIdConflictTimer conflict p
  | none => exact .refl p

theorem keeps_idConflictTimerCb (conflict : ℕ × ℕ) (p : Peering) :
    p.Keeps (idConflictTimerCb conflict p) := by
  have hkeeps : p.Keeps (disconnectPeer conflict.1 (stopIdConflictTimer conflict p)) :=
    (keeps_stopIdConflictTimer conflict p).trans (keeps_disconnectPeer _ _)
  dsimp only [idConflictTimerCb]
  cases (disconnectPeer conflict.1 (stopIdConflictTimer conflict p)).peer conflict.2 with
  | some new => exact hkeeps.trans (keeps_onValidNodeId new _)
  | none => exact hkeeps

theorem keeps_workerThreadOnClose (node : Connection) (p : Peering) :
    p.Keeps (workerThreadOnClose node p) := by
  have hfilter : p.Keeps { p with peers := p.peers.filter fun other => other.conn != node.conn } :=
    List.filter_sublist.sublistForall₂
  dsimp only [workerThreadOnClose]
  cases node.idConflict with
  | some conflict => exact hfilter.trans (keeps_stopIdConflictTimer conflict _)
  | none => exact hfilter

end NoLeader
end AergoLite
