/-
# Several connections between two nodes

Two nodes may connect to each other more than once.  Each node decides alone which connections
it closes: when a connection is identified it is compared with the first other one on the list
of peers that has the same key, also one that is being closed, and of the two the one with the
smaller number is closed (`check_new_identified_node`).

The node returns there, and it is only for the first identified connection that
`on_valid_node_id` runs.  So a later connection with a greater number is kept without it
(`survivor_not_valid`).  As long as no connection that is identified has a greater number than
the one it is compared with, both nodes keep the connection with the greatest number, and have
run `on_valid_node_id` on it, in whatever order the messages are handled (`agreed_of_settled`).
-/

import AergoLite.NoLeader.Identification
import AergoLite.Library.Transition
import Mathlib.Data.Finset.Max

namespace AergoLite
namespace NoLeader

open AergoLite.Core
open Transition

/-- One of two nodes. -/
inductive Side
  | one | two
  deriving DecidableEq, Repr

/-- The other one. -/
def Side.other : Side → Side
  | .one => .two
  | .two => .one

@[simp] theorem Side.other_other (x : Side) : x.other.other = x := by cases x <;> rfl

theorem Side.other_ne (x : Side) : x.other ≠ x := by cases x <;> nofun

theorem Side.eq_or (x y : Side) : y = x ∨ y = x.other := by cases x <;> cases y <;> decide

/-- Two nodes with different ids and keys, each of which verifies what the other one signs. -/
structure Pair where
  crypto : Crypto
  nodeId : Side → ℤ
  pubkey : Side → Bytes
  self : Side → Sender
  nodeId_pos : ∀ x, 0 < nodeId x
  nodeId_ne : nodeId .one ≠ nodeId .two
  pubkey_length : ∀ x, (pubkey x).length = 33
  pubkey_ne : pubkey .one ≠ pubkey .two
  pubkey_ne_zero : ∀ x, pubkey x ≠ List.replicate 33 0
  device_fits : ∀ x, (self x).device.Fits
  text_length : ∀ x, (identificationText (nodeId x) (self x).port (self x).device).length ≤ 2047
  verified : ∀ x, aergoliteVerify crypto
    (identificationText (nodeId x) (self x).port (self x).device) (pubkey x)
    ((self x).sign (identificationText (nodeId x) (self x).port (self x).device)) = .ok

/-- The node with the smaller id, whose random numbers decide. -/
def Pair.smaller (pair : Pair) : Side :=
  if pair.nodeId .one < pair.nodeId .two then .one else .two

/-- The key that a node has of the other one: its list of authorizations has no other. -/
def Pair.Knows (pair : Pair) (x : Side) (auths : List NodeAuth) : Prop :=
  identificationKey (aergoliteGetAuthorization auths (pair.nodeId x.other))
    (some (pair.pubkey x.other)) = some (pair.pubkey x.other)

/-- A connection has been identified as one to the other node. -/
def Pair.identifies (pair : Pair) (x : Side) (node : Connection) : Bool :=
  sameKey node.pubkey (pair.pubkey x.other)

/-- The number of a connection: the random number of the node with the smaller id. -/
def Pair.number (pair : Pair) (numbers : Side → ℕ → Option (BitVec 64)) (conn : ℕ) : ℕ :=
  ((numbers pair.smaller conn).getD 0).toNat

/-- The connection that one which is identified is compared with. -/
def Pair.previous (pair : Pair) (p : Peering) (x : Side) (conn : ℕ) : Option Connection :=
  p.peers.find? fun node => node.conn != conn && pair.identifies x node

/-- A connection is on the list of peers, and not being closed. -/
def IsOpen (p : Peering) (conn : ℕ) : Prop :=
  ∃ node ∈ p.peers, node.conn = conn ∧ node.closing = false

instance (p : Peering) (conn : ℕ) : Decidable (IsOpen p conn) :=
  inferInstanceAs (Decidable (∃ node ∈ p.peers, _))

/-- Two nodes, the connections they have opened to each other, the identifications that have
not arrived, and the random number each has sent on a connection, with all random numbers
there are. -/
structure Link where
  side : Side → Peering
  opened : Side → List ℕ
  sent : Side → List (ℕ × IdMessage)
  numbers : Side → ℕ → Option (BitVec 64)
  drawn : List (BitVec 64)

/-- Something happens at one of the nodes.  With `others` its connections to further nodes
change. -/
inductive Link.Action
  | newNode (x : Side) (conn : ℕ)
  | connected (x : Side) (conn : ℕ) (randomNo : BitVec 64)
  | identified (x : Side) (conn : ℕ)
  | hangup (x : Side) (conn : ℕ)
  | closed (x : Side) (conn : ℕ)
  | authorizations (x : Side) (auths : List NodeAuth)
  | others (x : Side) (peers : List Connection)

namespace Link

/-- A node has closed a connection, or is closing it. -/
def Closed (s : Link) (x : Side) (conn : ℕ) : Prop :=
  conn ∈ s.opened x ∧ ¬IsOpen (s.side x) conn

/-- A connection to a further node: it has neither the key nor the id of the other one. -/
def Further (pair : Pair) (x : Side) (node : Connection) : Prop :=
  sameKey node.pubkey (pair.pubkey x.other) = false ∧ node.id ≠ pair.nodeId x.other

instance (s : Link) (x : Side) (conn : ℕ) : Decidable (s.Closed x conn) :=
  inferInstanceAs (Decidable (_ ∧ _))

instance (pair : Pair) (x : Side) (node : Connection) : Decidable (Further pair x node) :=
  inferInstanceAs (Decidable (_ ∧ _))

instance (pair : Pair) (x : Side) (auths : List NodeAuth) : Decidable (pair.Knows x auths) :=
  inferInstanceAs (Decidable (_ = _))

/-- The step of two nodes.  Random numbers are distinct, a message is handled once and not on a
connection that is being closed, and a node sees that the other one has closed a connection. -/
def step (pair : Pair) (s : Link) : Action → Option Link
  | .newNode x conn =>
    if conn ∈ s.opened x ∨ conn ∈ (s.side x).peers.map Connection.conn then none
    else some { s with
      side := Function.update s.side x (newNode conn (s.side x))
      opened := Function.update s.opened x (s.opened x ++ [conn]) }
  | .connected x conn randomNo =>
    if conn ∈ s.opened x ∧ ¬s.Closed x conn ∧ s.numbers x conn = none ∧ randomNo ∉ s.drawn then
      some { s with
        side := Function.update s.side x (onNewNodeConnected conn randomNo (s.side x))
        sent := Function.update s.sent x (s.sent x ++
          [(conn, sendNodeIdentification (pair.self x) randomNo (s.side x))])
        numbers := Function.update s.numbers x (Function.update (s.numbers x) conn (some randomNo))
        drawn := s.drawn ++ [randomNo] }
    else none
  | .identified x conn =>
    ((s.side x).peer conn).bind fun node => ((s.sent x.other).lookup conn).bind fun msg =>
      if conn ∉ s.opened x ∨ node.closing ∨ !node.connected then none
      else (onNodeIdentification pair.crypto node msg (s.side x)).map fun peering => { s with
        side := Function.update s.side x peering
        sent := Function.update s.sent x.other
          ((s.sent x.other).filter fun entry => entry.1 != conn) }
  | .hangup x conn =>
    if conn ∈ s.opened x ∧ s.Closed x.other conn then
      some { s with side := Function.update s.side x (disconnectPeer conn (s.side x)) }
    else none
  | .closed x conn =>
    ((s.side x).peer conn).bind fun node =>
      if conn ∈ s.opened x ∧ node.closing then
        some { s with side := Function.update s.side x (workerThreadOnClose node (s.side x)) }
      else none
  | .authorizations x auths =>
    if pair.Knows x auths then
      some { s with side := Function.update s.side x { s.side x with authorizations := auths } }
    else none
  | .others x peers =>
    if (peers.map Connection.conn).Nodup ∧
        peers.filter (fun node => node.conn ∈ s.opened x) =
          (s.side x).peers.filter (fun node => node.conn ∈ s.opened x) ∧
        ∀ node ∈ peers, node.conn ∉ s.opened x → Further pair x node then
      some { s with side := Function.update s.side x { s.side x with peers } }
    else none

/-- Two nodes that have opened no connections yet. -/
structure Fresh (pair : Pair) (s : Link) : Prop where
  nodeId : ∀ x, (s.side x).nodeId = pair.nodeId x
  pubkey : ∀ x, (s.side x).pubkey = pair.pubkey x
  knows : ∀ x, pair.Knows x (s.side x).authorizations
  peers : ∀ x, (s.side x).peers = []
  opened : ∀ x, s.opened x = []
  sent : ∀ x, s.sent x = []
  numbers : ∀ x conn, s.numbers x conn = none

/-- Two nodes that connect to each other any number of times. -/
def system (pair : Pair) : System Link Action := System.ofStep (Fresh pair) (step pair)

/-- The connection that is identified. -/
def Action.identifies : Action → Option (Side × ℕ)
  | .identified x conn => some (x, conn)
  | _ => none

/-- A connection that is identified has no greater number than the one it is compared with. -/
def Ordered (pair : Pair) (s : Link) (a : Action) : Prop :=
  ∀ i ∈ a.identifies, ∀ node ∈ pair.previous (s.side i.1) i.1 i.2,
    pair.number s.numbers i.2 ≤ pair.number s.numbers node.conn

instance (pair : Pair) (s : Link) (a : Action) : Decidable (s.Ordered pair a) :=
  inferInstanceAs (Decidable (∀ i ∈ a.identifies, ∀ node ∈ _, _))

/-- All identifications have been handled: on both sides every connection has been identified,
or it is closed. -/
def Settled (pair : Pair) (s : Link) : Prop :=
  ∀ x, ∀ conn ∈ s.opened x, s.Closed x conn ∨
    ∃ node ∈ (s.side x).peers, node.conn = conn ∧ pair.identifies x node = true

/-- One connection is open on both sides, where `on_valid_node_id` has run for it, and both
nodes have closed all others. -/
def Agreed (s : Link) : Prop :=
  ∃ conn, (∀ x, conn ∈ s.opened x ∧ ¬s.Closed x conn ∧ conn ∈ (s.side x).validNodes) ∧
    ∀ x, ∀ other ∈ s.opened x, other ≠ conn → ∀ y, s.Closed y other


end Link

/-! ## The two nodes -/

variable {pair : Pair} {x : Side} {numbers numbers' : Side → ℕ → Option (BitVec 64)}
  {p q : Peering} {opened : List ℕ} {s : Link}

theorem Pair.nodeId_ne_other (pair : Pair) (x : Side) :
    pair.nodeId x ≠ pair.nodeId x.other := by
  cases x
  · exact pair.nodeId_ne
  · exact pair.nodeId_ne.symm

theorem Pair.pubkey_ne_other (pair : Pair) (x : Side) :
    pair.pubkey x ≠ pair.pubkey x.other := by
  cases x
  · exact pair.pubkey_ne
  · exact pair.pubkey_ne.symm

/-- The smaller id, seen from one of the two. -/
theorem Pair.smaller_cases (pair : Pair) (x : Side) :
    (pair.smaller = x ∧ min (pair.nodeId x) (pair.nodeId x.other) = pair.nodeId x) ∨
      (pair.smaller = x.other ∧
        min (pair.nodeId x) (pair.nodeId x.other) = pair.nodeId x.other) := by
  unfold Pair.smaller
  have hne := pair.nodeId_ne
  cases x
  · show _ ∧ min (pair.nodeId .one) (pair.nodeId .two) = _ ∨
      _ ∧ min (pair.nodeId .one) (pair.nodeId .two) = pair.nodeId .two
    split_ifs with hlt
    · exact .inl ⟨rfl, by omega⟩
    · exact .inr ⟨rfl, by omega⟩
  · show _ ∧ min (pair.nodeId .two) (pair.nodeId .one) = _ ∨
      _ ∧ min (pair.nodeId .two) (pair.nodeId .one) = pair.nodeId .one
    split_ifs with hlt
    · exact .inr ⟨rfl, by omega⟩
    · exact .inl ⟨rfl, by omega⟩

/-- A key that is stored in a larger array. -/
theorem Pair.sameKey_append (pair : Pair) (x : Side) (rest key : Bytes) :
    sameKey (pair.pubkey x ++ rest) key = (pair.pubkey x == key.take 33) := by
  unfold sameKey
  rw [List.take_append_of_le_length (Nat.le_of_eq (pair.pubkey_length x).symm),
    List.take_of_length_le (Nat.le_of_eq (pair.pubkey_length x))]

/-! ## One side -/

/-- A connection to the other node: it has the number that this node has sent, and once it is
identified also the one that has arrived. -/
structure Shared (pair : Pair) (x : Side) (numbers : Side → ℕ → Option (BitVec 64))
    (node : Connection) : Prop where
  sent : node.connId.lookup (pair.nodeId x) = numbers x node.conn
  connected : node.connected = true → (numbers x node.conn).isSome
  fresh : pair.identifies x node = false →
    node.id = 0 ∧ node.connId.lookup (pair.nodeId x.other) = none
  identified : pair.identifies x node = true →
    node.id = pair.nodeId x.other ∧ (numbers x node.conn).isSome ∧
      (numbers x.other node.conn).isSome ∧
      node.connId.lookup (pair.nodeId x.other) = numbers x.other node.conn

/-- One of the nodes: its connections have different numbers, and each is one to the other node or
to a further one. -/
structure Sided (pair : Pair) (x : Side) (p : Peering) (opened : List ℕ)
    (numbers : Side → ℕ → Option (BitVec 64)) : Prop where
  nodeId : p.nodeId = pair.nodeId x
  pubkey : p.pubkey = pair.pubkey x
  knows : pair.Knows x p.authorizations
  nodup : (p.peers.map Connection.conn).Nodup
  further : ∀ node ∈ p.peers, node.conn ∉ opened → Link.Further pair x node
  own : ∀ node ∈ p.peers, node.conn ∈ opened → Shared pair x numbers node

/-- **The connection that is open is the best one**: `on_valid_node_id` has run for it, and no
identified connection on the list has a greater number. -/
def Best (pair : Pair) (x : Side) (p : Peering)
    (numbers : Side → ℕ → Option (BitVec 64)) : Prop :=
  ∀ node ∈ p.peers, pair.identifies x node = true → node.closing = false →
    node.conn ∈ p.validNodes ∧ ∀ other ∈ p.peers, pair.identifies x other = true →
      pair.number numbers other.conn ≤ pair.number numbers node.conn

/-- Only more numbers have been sent. -/
def Extends (numbers numbers' : Side → ℕ → Option (BitVec 64)) : Prop :=
  ∀ x conn randomNo, numbers x conn = some randomNo → numbers' x conn = some randomNo

theorem Extends.isSome (h : Extends numbers numbers') {conn : ℕ} (hsome : (numbers x conn).isSome) :
    numbers' x conn = numbers x conn := by
  obtain ⟨randomNo, hrandom⟩ := Option.isSome_iff_exists.1 hsome
  rw [h x conn randomNo hrandom, hrandom]

theorem Extends.number (h : Extends numbers numbers') {conn : ℕ}
    (hsome : ∀ x, (numbers x conn).isSome) :
    pair.number numbers' conn = pair.number numbers conn := by
  unfold Pair.number
  rw [h.isSome (hsome _)]

theorem Shared.extends {node : Connection} (h : Shared pair x numbers node)
    (hself : numbers' x node.conn = numbers x node.conn) (hextends : Extends numbers numbers') :
    Shared pair x numbers' node := by
  refine ⟨hself ▸ h.sent, hself ▸ h.connected, h.fresh, fun hkey => ?_⟩
  obtain ⟨hid, hsent, harrived, hlookup⟩ := h.identified hkey
  rw [hself, hextends.isSome harrived]
  exact ⟨hid, hsent, harrived, hlookup⟩

theorem Shared.kept {new old : Connection} (h : Shared pair x numbers old)
    (hkept : new.KeptFrom old) : Shared pair x numbers new := by
  rw [hkept.same]
  exact ⟨h.sent, h.connected, h.fresh, h.identified⟩

theorem identifies_kept {new old : Connection} (hkept : new.KeptFrom old) :
    pair.identifies x new = pair.identifies x old := by
  rw [hkept.same]
  rfl

theorem further_kept {new old : Connection} (h : Link.Further pair x old)
    (hkept : new.KeptFrom old) : Link.Further pair x new := by
  rw [hkept.same]
  exact h

/-- An identified connection is one to the other node. -/
theorem Sided.mem_opened (h : Sided pair x p opened numbers) {node : Connection}
    (hnode : node ∈ p.peers) (hkey : pair.identifies x node = true) : node.conn ∈ opened := by
  by_contra hnot
  exact Bool.false_ne_true ((h.further node hnode hnot).1.symm.trans hkey)

/-- Both nodes have sent a number on an identified connection. -/
theorem Sided.numbers_isSome (h : Sided pair x p opened numbers) {node : Connection}
    (hnode : node ∈ p.peers) (hkey : pair.identifies x node = true) (z : Side) :
    (numbers z node.conn).isSome := by
  obtain ⟨-, hsent, harrived, -⟩ := (h.own node hnode (h.mem_opened hnode hkey)).identified hkey
  rcases Side.eq_or x z with rfl | rfl
  · exact hsent
  · exact harrived

/-- Connections have different numbers. -/
theorem Sided.eq_of_conn_eq (h : Sided pair x p opened numbers) {node other : Connection}
    (hnode : node ∈ p.peers) (hother : other ∈ p.peers) (heq : node.conn = other.conn) :
    node = other :=
  List.inj_on_of_nodup_map h.nodup hnode hother heq

/-- Connections that are only closed or marked stay as they are. -/
theorem Sided.keeps (h : Sided pair x p opened numbers) (hkeeps : p.Keeps q)
    (hnodeId : q.nodeId = p.nodeId) (hpubkey : q.pubkey = p.pubkey)
    (hauths : q.authorizations = p.authorizations) : Sided pair x q opened numbers := by
  refine ⟨hnodeId.trans h.nodeId, hpubkey.trans h.pubkey, hauths ▸ h.knows,
    h.nodup.sublist hkeeps.conns, fun new hnew hnot => ?_, fun new hnew hmem => ?_⟩
  · obtain ⟨old, hold, hkept⟩ := hkeeps.exists_old new hnew
    exact further_kept (h.further old hold (hkept.conn ▸ hnot)) hkept
  · obtain ⟨old, hold, hkept⟩ := hkeeps.exists_old new hnew
    exact (h.own old hold (hkept.conn ▸ hmem)).kept hkept

theorem Best.keeps (h : Best pair x p numbers) (hkeeps : p.Keeps q)
    (hvalid : p.validNodes ⊆ q.validNodes) : Best pair x q numbers := by
  intro new hnew hkey hopen
  obtain ⟨old, hold, hkept⟩ := hkeeps.exists_old new hnew
  have hopen' : old.closing = false := by
    cases hclosing : old.closing with
    | true => exact (hkept.closing hclosing).symm.trans hopen
    | false => rfl
  obtain ⟨hmem, hbest⟩ := h old hold ((identifies_kept hkept).symm.trans hkey) hopen'
  rw [hkept.conn]
  refine ⟨hvalid hmem, fun other hother hkey' => ?_⟩
  obtain ⟨old', hold', hkept'⟩ := hkeeps.exists_old other hother
  rw [hkept'.conn]
  exact hbest old' hold' ((identifies_kept hkept').symm.trans hkey')

theorem Best.extends (h : Best pair x p numbers) (hsided : Sided pair x p opened numbers)
    (hextends : Extends numbers numbers') : Best pair x p numbers' := by
  intro node hnode hkey hopen
  obtain ⟨hmem, hbest⟩ := h node hnode hkey hopen
  refine ⟨hmem, fun other hother hkey' => ?_⟩
  rw [hextends.number (hsided.numbers_isSome hnode hkey),
    hextends.number (hsided.numbers_isSome hother hkey')]
  exact hbest other hother hkey'

/-- The number that decides is the one both nodes take. -/
theorem Shared.connectionNumber {node : Connection} (h : Shared pair x numbers node)
    (hkey : pair.identifies x node = true) (hnodeId : p.nodeId = pair.nodeId x) :
    (connectionNumber p node).toNat = pair.number numbers node.conn := by
  obtain ⟨hid, -, -, hlookup⟩ := h.identified hkey
  unfold NoLeader.connectionNumber Pair.number
  rw [hnodeId, hid]
  rcases pair.smaller_cases x with ⟨hsmaller, hmin⟩ | ⟨hsmaller, hmin⟩
  · rw [hmin, hsmaller, h.sent]
  · rw [hmin, hsmaller, hlookup]

/-! ## A connection is identified -/

/-- A connection has lost: another one has a greater number. -/
def Beaten (pair : Pair) (numbers : Side → ℕ → Option (BitVec 64)) (conn : ℕ) : Prop :=
  (∀ x, (numbers x conn).isSome) ∧ ∃ other, (∀ x, (numbers x other).isSome) ∧
    pair.number numbers conn < pair.number numbers other

/-- What a node stores of an identification of the other one. -/
def Pair.received (pair : Pair) (x : Side) (p : Peering) (node : Connection) (msg : IdMessage) :
    Connection :=
  node.identified msg (aergoliteGetAuthorization p.authorizations msg.nodeId)
    (pair.pubkey x.other) (pair.self x.other).device

/-- A message of the other node. -/
structure FromOther (pair : Pair) (x : Side) (randomNo : BitVec 64) (msg : IdMessage) : Prop where
  sent : ∃ q : Peering, q.nodeId = pair.nodeId x.other ∧ q.pubkey = pair.pubkey x.other ∧
    msg = sendNodeIdentification (pair.self x.other) randomNo q

/-- An identification that passes every check is stored, and the connection compared. -/
theorem onNodeIdentification_of_checks {c : Crypto} {node : Connection} {msg : IdMessage}
    {signature pubkey : Bytes} {device : DeviceInfo} (hversion : msg.version = pluginVersionNumber)
    (hid : ¬(p.nodeId = 0 ∨ msg.nodeId < 0)) (hsignature : msg.signature = some signature)
    (hkey : identificationKey (aergoliteGetAuthorization p.authorizations msg.nodeId) msg.pubkey =
      some pubkey) (hdevice : msg.device = some device)
    (hlength : (identificationText msg.nodeId msg.port device).length ≤ 2047)
    (hverify : aergoliteVerify c (identificationText msg.nodeId msg.port device) pubkey signature =
      .ok) (hfits : device.Fits) (hpubkey : pubkey.length ≤ 36) :
    let new := node.identified msg (aergoliteGetAuthorization p.authorizations msg.nodeId) pubkey
      device
    onNodeIdentification c node msg p = some (checkNewIdentifiedNode new (p.set new)) := by
  unfold onNodeIdentification
  rw [if_neg (not_not.2 hversion), if_neg hid, hsignature]
  dsimp only
  rw [hkey]
  dsimp only
  rw [hdevice]
  dsimp only
  rw [if_neg (by omega), if_neg (not_not.2 hverify),
    if_neg (not_or.2 ⟨not_not.2 hfits, by omega⟩)]

/-- **The identification of the other node is accepted.** -/
theorem Sided.onNodeIdentification_eq (h : Sided pair x p opened numbers) {randomNo : BitVec 64}
    {msg : IdMessage} (hmsg : FromOther pair x randomNo msg) (node : Connection) :
    onNodeIdentification pair.crypto node msg p =
      some (checkNewIdentifiedNode (pair.received x p node msg)
        (p.set (pair.received x p node msg))) := by
  obtain ⟨q, hnodeId, hpubkey, rfl⟩ := hmsg.sent
  have hlength := pair.text_length x.other
  refine onNodeIdentification_of_checks rfl ?_ rfl ?_ rfl ?_ ?_ (pair.device_fits _) ?_
  · have hpos := pair.nodeId_pos x
    have hpos' := pair.nodeId_pos x.other
    show ¬(p.nodeId = 0 ∨ q.nodeId < 0)
    rw [h.nodeId, hnodeId]
    omega
  · show identificationKey (aergoliteGetAuthorization p.authorizations q.nodeId) (some q.pubkey) = _
    rw [hnodeId, hpubkey]
    exact h.knows
  · show (identificationText q.nodeId _ _).length ≤ 2047
    rw [hnodeId]
    exact hlength
  · show aergoliteVerify _ (identificationText q.nodeId _ _) _
      ((pair.self x.other).sign ((identificationText q.nodeId _ _).take 2047)) = _
    rw [hnodeId, List.take_of_length_le hlength]
    exact pair.verified x.other
  · rw [pair.pubkey_length]
    decide

theorem connId_addNodeConnectionIdentifier (node : Connection) (nodeId : ℤ)
    (randomNo : BitVec 64) : (addNodeConnectionIdentifier node nodeId randomNo).connId =
      if (node.connId.lookup nodeId).isSome then node.connId
      else node.connId ++ [(nodeId, randomNo)] := by
  unfold addNodeConnectionIdentifier
  split_ifs <;> rfl

/-- What is the same in a connection that is identified, and what is stored. -/
theorem received_eq {randomNo : BitVec 64} {msg : IdMessage}
    (hmsg : FromOther pair x randomNo msg) (node : Connection) :
    let new := pair.received x p node msg
    new.conn = node.conn ∧ new.connected = node.connected ∧ new.closing = node.closing ∧
      new.id = pair.nodeId x.other ∧ new.pubkey = pair.pubkey x.other ++ node.pubkey.drop 33 ∧
      new.connId =
        (addNodeConnectionIdentifier node (pair.nodeId x.other) randomNo).connId := by
  obtain ⟨q, hnodeId, hpubkey, rfl⟩ := hmsg.sent
  unfold Pair.received Connection.identified
  dsimp only
  rw [addNodeConnectionIdentifier_eq]
  refine ⟨rfl, rfl, rfl, hnodeId, ?_, ?_⟩
  · show pair.pubkey x.other ++ node.pubkey.drop _ = _
    rw [pair.pubkey_length]
  · show (addNodeConnectionIdentifier _ _ _).connId = _
    rw [connId_addNodeConnectionIdentifier, connId_addNodeConnectionIdentifier, ← hnodeId]
    rfl

/-- **The number that has arrived is stored**, beside the one that was sent. -/
theorem Shared.received {node : Connection} (h : Shared pair x numbers node)
    (hconnected : node.connected = true) {randomNo : BitVec 64} {msg : IdMessage}
    (hmsg : FromOther pair x randomNo msg) (harrived : numbers x.other node.conn = some randomNo) :
    Shared pair x numbers (pair.received x p node msg) ∧
      pair.identifies x (pair.received x p node msg) = true := by
  obtain ⟨hconn, hconnected', -, hid, hpubkey, hconnId⟩ := @received_eq _ _ p _ _ hmsg node
  have hsent := h.connected hconnected
  have hkey : pair.identifies x (pair.received x p node msg) = true := by
    unfold Pair.identifies
    rw [hpubkey, pair.sameKey_append,
      List.take_of_length_le (Nat.le_of_eq (pair.pubkey_length _))]
    exact beq_self_eq_true _
  have hlookup : (pair.received x p node msg).connId.lookup (pair.nodeId x) =
      numbers x node.conn ∧
      (pair.received x p node msg).connId.lookup (pair.nodeId x.other) =
        numbers x.other node.conn := by
    rw [hconnId, connId_addNodeConnectionIdentifier]
    cases hfresh : pair.identifies x node with
    | false =>
        rw [(h.fresh hfresh).2]
        simp only [Option.isSome_none, Bool.false_eq_true, if_false]
        rw [List.lookup_append, List.lookup_append, h.sent, (h.fresh hfresh).2, harrived]
        obtain ⟨sentNo, hsentNo⟩ := Option.isSome_iff_exists.1 hsent
        rw [hsentNo]
        simp
    | true =>
        obtain ⟨-, -, hsome, hlookup⟩ := h.identified hfresh
        rw [hlookup, if_pos hsome]
        exact ⟨h.sent, hlookup⟩
  refine ⟨⟨hconn ▸ hlookup.1, fun _ => hconn ▸ hsent, fun hnot => ?_, fun _ => ?_⟩, hkey⟩
  · exact absurd (hkey.symm.trans hnot).symm Bool.false_ne_true
  · rw [hconn]
    exact ⟨hid, hsent, by rw [harrived]; rfl, hlookup.2⟩

theorem mem_set {new node : Connection} (h : node ∈ (p.set new).peers) :
    node = new ∨ node ∈ p.peers ∧ node.conn ≠ new.conn := by
  obtain ⟨old, hold, rfl⟩ := List.mem_map.1 h
  split_ifs with hconn
  · exact .inl rfl
  · exact .inr ⟨hold, hconn⟩

/-- A connection on the list is replaced. -/
theorem Sided.set (h : Sided pair x p opened numbers) {new : Connection} (hmem : new.conn ∈ opened)
    (hown : Shared pair x numbers new) : Sided pair x (p.set new) opened numbers := by
  refine ⟨h.nodeId, h.pubkey, h.knows, ?_, fun node hnode hnot => ?_, fun node hnode hin => ?_⟩
  · have hconns : (p.set new).peers.map Connection.conn = p.peers.map Connection.conn := by
      show (p.peers.map fun other => if other.conn = new.conn then new else other).map _ = _
      rw [List.map_map]
      refine List.map_congr_left fun node _ => ?_
      show Connection.conn (if _ then _ else _) = _
      split_ifs with hconn
      · exact hconn.symm
      · rfl
    rw [hconns]
    exact h.nodup
  · rcases mem_set hnode with rfl | ⟨hold, -⟩
    · exact absurd hmem hnot
    · exact h.further node hold hnot
  · rcases mem_set hnode with rfl | ⟨hold, -⟩
    · exact hown
    · exact h.own node hold hin

/-- The connection that the new one is compared with was on the list before. -/
theorem previousConnection_set {new : Connection}
    (hpubkey : new.pubkey.take 33 = pair.pubkey x.other) :
    previousConnection (p.set new) new = pair.previous p x new.conn := by
  have hlength : (pair.pubkey x.other).take 33 = pair.pubkey x.other :=
    List.take_of_length_le (Nat.le_of_eq (pair.pubkey_length _))
  have hkey : ∀ node : Connection, sameKey node.pubkey new.pubkey = pair.identifies x node :=
    fun node => by
      unfold Pair.identifies sameKey
      rw [hpubkey, hlength]
  unfold previousConnection Pair.previous Peering.set
  simp only [hkey]
  induction p.peers with
  | nil => rfl
  | cons node nodes ih =>
      rw [List.map_cons, List.find?_cons, List.find?_cons]
      by_cases hconn : node.conn = new.conn
      · rw [if_pos hconn, hconn]
        simp only [bne_self_eq_false, Bool.false_and]
        exact ih
      · rw [if_neg hconn, ih]

/-- No connection to a further node has the id of the other one. -/
theorem Sided.sameId_eq_none (h : Sided pair x p opened numbers) {new : Connection}
    (hid : new.id = pair.nodeId x.other) (hprevious : pair.previous p x new.conn = none) :
    (p.set new).peers.find? (fun node => node.conn != new.conn && node.id == new.id) = none := by
  refine List.find?_eq_none.2 fun node hnode hsame => ?_
  rw [Bool.and_eq_true, bne_iff_ne, beq_iff_eq, hid] at hsame
  rcases mem_set hnode with rfl | ⟨hold, hconn⟩
  · exact hsame.1 rfl
  · by_cases hmem : node.conn ∈ opened
    · cases hkey : pair.identifies x node with
      | false =>
          have hpos := pair.nodeId_pos x.other
          have hzero := ((h.own node hold hmem).fresh hkey).1
          omega
      | true =>
          refine List.find?_eq_none.1 hprevious node hold ?_
          rw [Bool.and_eq_true, bne_iff_ne]
          exact ⟨hconn, hkey⟩
    · exact (h.further node hold hmem).2 hsame.2

theorem isOpen_set {new node : Connection} {conn : ℕ} (h : IsOpen p conn)
    (hnode : node ∈ p.peers) (hnodup : (p.peers.map Connection.conn).Nodup)
    (hconn : new.conn = node.conn) (hclosing : new.closing = node.closing) :
    IsOpen (p.set new) conn := by
  obtain ⟨old, hold, rfl, hopen⟩ := h
  have hmem : (if old.conn = new.conn then new else old) ∈ (p.set new).peers :=
    List.mem_map_of_mem hold
  split_ifs at hmem with heq
  · obtain rfl : old = node := List.inj_on_of_nodup_map hnodup hold hnode (heq.trans hconn)
    exact ⟨new, hmem, hconn, hclosing.trans hopen⟩
  · exact ⟨old, hmem, rfl, hopen⟩

theorem isOpen_onValidNodeId {conn : ℕ} (h : IsOpen p conn) (new : Connection) :
    IsOpen (onValidNodeId new p) conn := by
  obtain ⟨old, hold, hconn, hopen⟩ := h
  unfold onValidNodeId
  dsimp only
  split_ifs
  · refine ⟨_, List.mem_map_of_mem hold, ?_⟩
    dsimp only
    split_ifs
    · exact ⟨hconn, hopen⟩
    · exact ⟨hconn, hopen⟩
  · exact ⟨old, hold, hconn, hopen⟩

theorem isOpen_disconnectPeer {conn other : ℕ} (h : IsOpen p conn) (hne : conn ≠ other) :
    IsOpen (disconnectPeer other p) conn := by
  obtain ⟨old, hold, rfl, hopen⟩ := h
  refine ⟨_, List.mem_map_of_mem hold, ?_⟩
  rw [if_neg hne]
  exact ⟨rfl, hopen⟩

/-- The first identified connection: `on_valid_node_id` runs for it. -/
theorem best_of_first {new : Connection}
    (hprevious : pair.previous p x new.conn = none) :
    Best pair x (onValidNodeId new (p.set new)) numbers := by
  have hvalid : new.conn ∈ (onValidNodeId new (p.set new)).validNodes := by
    have hlast : new.conn ∈ p.validNodes ++ [new.conn] :=
      List.mem_append_right _ List.mem_cons_self
    unfold onValidNodeId
    dsimp only
    split_ifs
    · exact hlast
    · exact hlast
  have honly : ∀ node ∈ (onValidNodeId new (p.set new)).peers,
      pair.identifies x node = true → node.conn = new.conn := by
    intro node hnode hkey
    obtain ⟨old, hold, hkept⟩ := (keeps_onValidNodeId new (p.set new)).exists_old node hnode
    rw [hkept.conn]
    rcases mem_set hold with rfl | ⟨hold, hconn⟩
    · rfl
    · refine absurd ?_ (List.find?_eq_none.1 hprevious old hold)
      rw [Bool.and_eq_true, bne_iff_ne, ← identifies_kept hkept]
      exact ⟨hconn, hkey⟩
  intro node hnode hkey hopen
  rw [honly node hnode hkey]
  refine ⟨hvalid, fun other hother hkey' => ?_⟩
  rw [honly other hother hkey']

/-- Any other one is closed, if its number is not greater. -/
theorem Best.second (h : Best pair x p numbers) {new d : Connection}
    (hprevious : pair.previous p x new.conn = some d)
    (hordered : pair.number numbers new.conn ≤ pair.number numbers d.conn) :
    Best pair x (disconnectPeer new.conn (p.set new)) numbers := by
  have hd : d ∈ p.peers := List.mem_of_find?_eq_some hprevious
  have hkeyd : pair.identifies x d = true := by
    have hfound := List.find?_some hprevious
    rw [Bool.and_eq_true] at hfound
    exact hfound.2
  have hold : ∀ node ∈ (disconnectPeer new.conn (p.set new)).peers,
      node.conn = new.conn ∧ node.closing = true ∨ node ∈ p.peers := by
    intro node hnode
    obtain ⟨old, hset, rfl⟩ := List.mem_map.1 hnode
    by_cases hconn : old.conn = new.conn
    · rw [if_pos hconn]
      exact .inl ⟨hconn, rfl⟩
    · rw [if_neg hconn]
      rcases mem_set hset with rfl | ⟨hmem, -⟩
      · exact absurd rfl hconn
      · exact .inr hmem
  intro node hnode hkey hopen
  rcases hold node hnode with ⟨-, hclosing⟩ | hmem
  · exact absurd (hopen.symm.trans hclosing) Bool.false_ne_true
  · obtain ⟨hvalid, hbest⟩ := h node hmem hkey hopen
    refine ⟨hvalid, fun other hother hkey' => ?_⟩
    rcases hold other hother with ⟨hconn, -⟩ | hmem'
    · rw [hconn]
      exact Nat.le_trans hordered (hbest d hd hkeyd)
    · exact hbest other hmem' hkey'

/-- The new connection has lost against the one that was on the list before. -/
theorem beaten_of_previous (h : Sided pair x p opened numbers) {new d : Connection}
    (hnew : ∀ z, (numbers z new.conn).isSome)
    (hprevious : pair.previous p x new.conn = some d)
    (hordered : pair.number numbers new.conn ≤ pair.number numbers d.conn)
    (hdistinct : ∀ conn conn' randomNo, numbers pair.smaller conn = some randomNo →
      numbers pair.smaller conn' = some randomNo → conn = conn') :
    Beaten pair numbers new.conn := by
  have hfound := List.find?_some hprevious
  rw [Bool.and_eq_true, bne_iff_ne] at hfound
  have hdnumbers := h.numbers_isSome (List.mem_of_find?_eq_some hprevious) hfound.2
  refine ⟨hnew, d.conn, hdnumbers, lt_of_le_of_ne hordered fun hsame => ?_⟩
  obtain ⟨newNo, hnewNo⟩ := Option.isSome_iff_exists.1 (hnew pair.smaller)
  obtain ⟨dNo, hdNo⟩ := Option.isSome_iff_exists.1 (hdnumbers pair.smaller)
  unfold Pair.number at hsame
  rw [hnewNo, hdNo] at hsame
  obtain rfl : newNo = dNo := BitVec.eq_of_toNat_eq hsame
  exact hfound.1 (hdistinct _ _ _ hdNo hnewNo)

/-- The comparison picks the new connection for closing, if its number is not greater. -/
theorem chooseDuplicateConnection_new (h : Sided pair x p opened numbers) {new d : Connection}
    (hown : Shared pair x numbers new) (hkey : pair.identifies x new = true)
    (hprevious : pair.previous p x new.conn = some d)
    (hordered : pair.number numbers new.conn ≤ pair.number numbers d.conn)
    (hnodeId : q.nodeId = pair.nodeId x) : chooseDuplicateConnection q d new = new := by
  have hfound := List.find?_some hprevious
  rw [Bool.and_eq_true] at hfound
  have hd : d ∈ p.peers := List.mem_of_find?_eq_some hprevious
  unfold chooseDuplicateConnection
  rw [if_neg]
  rw [BitVec.lt_def, (h.own d hd (h.mem_opened hd hfound.2)).connectionNumber hfound.2 hnodeId,
    hown.connectionNumber hkey hnodeId]
  omega

/-- **A connection is identified**: it is the first one and valid, or it is closed. -/
theorem Sided.identify (h : Sided pair x p opened numbers) (hbest : Best pair x p numbers)
    {node : Connection} (hnode : node ∈ p.peers) (hmem : node.conn ∈ opened)
    (hconnected : node.connected = true) {randomNo : BitVec 64} {msg : IdMessage}
    (hmsg : FromOther pair x randomNo msg) (harrived : numbers x.other node.conn = some randomNo)
    (hordered : ∀ other ∈ pair.previous p x node.conn,
      pair.number numbers node.conn ≤ pair.number numbers other.conn)
    (hdistinct : ∀ conn conn' randomNo, numbers pair.smaller conn = some randomNo →
      numbers pair.smaller conn' = some randomNo → conn = conn')
    (hq : onNodeIdentification pair.crypto node msg p = some q) :
    Sided pair x q opened numbers ∧ Best pair x q numbers ∧
      ∀ conn, IsOpen p conn → IsOpen q conn ∨ Beaten pair numbers conn := by
  obtain ⟨hconn, -, hclosing, hid, hpubkey, -⟩ := @received_eq _ _ p _ _ hmsg node
  obtain ⟨hown, hkey⟩ :=
    @Shared.received _ _ _ p _ (h.own node hnode hmem) hconnected _ _ hmsg harrived
  rw [h.onNodeIdentification_eq hmsg node] at hq
  have hq := Option.some.inj hq
  generalize pair.received x p node msg = new at hconn hclosing hid hpubkey hown hkey hq
  have hset := h.set (hconn.symm ▸ hmem) hown
  have hkey33 : new.pubkey.take 33 = pair.pubkey x.other := by
    rw [hpubkey, List.take_append_of_le_length (Nat.le_of_eq (pair.pubkey_length _).symm),
      List.take_of_length_le (Nat.le_of_eq (pair.pubkey_length _))]
  have hself : sameKey new.pubkey (p.set new).pubkey = false := by
    rw [hset.pubkey, hpubkey, pair.sameKey_append,
      List.take_of_length_le (Nat.le_of_eq (pair.pubkey_length x))]
    exact beq_eq_false_iff_ne.2 (pair.pubkey_ne_other x).symm
  have hother : new.id ≠ (p.set new).nodeId := by
    rw [hset.nodeId, hid]
    exact (pair.nodeId_ne_other x).symm
  have hopened : ∀ conn, IsOpen p conn → IsOpen (p.set new) conn := fun conn hopen =>
    isOpen_set hopen hnode h.nodup hconn hclosing
  unfold checkNewIdentifiedNode at hq
  rw [if_neg (by rw [hself]; exact Bool.false_ne_true), if_neg hother,
    previousConnection_set hkey33] at hq
  cases hprevious : pair.previous p x new.conn with
  | none =>
      rw [hprevious, h.sameId_eq_none hid hprevious] at hq
      subst hq
      refine ⟨hset.keeps (keeps_onValidNodeId _ _) ?_ ?_ ?_, best_of_first hprevious,
        fun conn hopen => .inl (isOpen_onValidNodeId (hopened conn hopen) new)⟩
      all_goals
        unfold onValidNodeId
        dsimp only
        split_ifs <;> rfl
  | some d =>
      have hordered := hordered d (hconn ▸ hprevious)
      rw [← hconn] at hordered
      have hchosen : chooseDuplicateConnection (p.set new) d new = new :=
        chooseDuplicateConnection_new h hown hkey hprevious hordered hset.nodeId
      rw [hprevious] at hq
      dsimp only at hq
      rw [hchosen] at hq
      subst hq
      refine ⟨hset.keeps (keeps_disconnectPeer _ _) rfl rfl rfl,
        hbest.second hprevious hordered, fun conn hopen => ?_⟩
      by_cases heq : conn = new.conn
      · have hnumbers := hown.identified hkey
        have hnew : ∀ z, (numbers z new.conn).isSome := fun z => by
          rcases Side.eq_or x z with rfl | rfl
          · exact hnumbers.2.1
          · exact hnumbers.2.2.1
        exact .inr (heq ▸ beaten_of_previous h hnew hprevious hordered hdistinct)
      · exact .inl (isOpen_disconnectPeer (hopened conn hopen) heq)

/-! ## The other steps -/

theorem map_conn {change : Connection → Connection} (h : ∀ node, (change node).conn = node.conn)
    (nodes : List Connection) :
    (nodes.map change).map Connection.conn = nodes.map Connection.conn := by
  rw [List.map_map]
  exact List.map_congr_left fun node _ => h node

theorem isOpen_map {change : Connection → Connection} (hpeers : q.peers = p.peers.map change)
    (h : ∀ node, (change node).conn = node.conn ∧ (change node).closing = node.closing)
    {conn : ℕ} (hopen : IsOpen p conn) : IsOpen q conn := by
  obtain ⟨node, hnode, rfl, hclosing⟩ := hopen
  exact ⟨change node, hpeers ▸ List.mem_map_of_mem hnode, (h node).1, (h node).2.trans hclosing⟩

theorem Best.map (h : Best pair x p numbers) {change : Connection → Connection}
    (hpeers : q.peers = p.peers.map change) (hvalid : q.validNodes = p.validNodes)
    (hchange : ∀ node, (change node).conn = node.conn ∧ (change node).closing = node.closing ∧
      (change node).pubkey = node.pubkey) : Best pair x q numbers := by
  intro node hnode hkey hopen
  rw [hpeers] at hnode
  obtain ⟨old, hold, rfl⟩ := List.mem_map.1 hnode
  obtain ⟨hconn, hclosing, hpubkey⟩ := hchange old
  have hkey' : pair.identifies x old = true := by
    unfold Pair.identifies at hkey ⊢
    rwa [hpubkey] at hkey
  obtain ⟨hmem, hbest⟩ := h old hold hkey' (hclosing ▸ hopen)
  rw [hconn, hvalid]
  refine ⟨hmem, fun other hother hkeyOther => ?_⟩
  rw [hpeers] at hother
  obtain ⟨old', hold', rfl⟩ := List.mem_map.1 hother
  unfold Pair.identifies at hkeyOther
  rw [(hchange old').2.2] at hkeyOther
  rw [(hchange old').1]
  exact hbest old' hold' hkeyOther

/-- A connection that has just been made has no key yet. -/
theorem identifies_new (pair : Pair) (x : Side) (conn : ℕ) :
    pair.identifies x { conn } = false := by
  unfold Pair.identifies sameKey
  rw [List.take_of_length_le (Nat.le_of_eq (pair.pubkey_length x.other))]
  exact beq_eq_false_iff_ne.2 (pair.pubkey_ne_zero x.other).symm

/-- `new_node`. -/
theorem Sided.newNode (h : Sided pair x p opened numbers) {conn : ℕ}
    (hnot : conn ∉ p.peers.map Connection.conn) (hnone : numbers x conn = none) :
    Sided pair x (NoLeader.newNode conn p) (opened ++ [conn]) numbers := by
  refine ⟨h.nodeId, h.pubkey, h.knows, ?_, fun node hnode hout => ?_, fun node hnode hin => ?_⟩
  · unfold NoLeader.newNode
    rw [List.map_append]
    refine List.nodup_append'.2 ⟨h.nodup, List.nodup_singleton _, ?_⟩
    exact List.disjoint_singleton.2 hnot
  · rw [List.mem_append, not_or] at hout
    rcases List.mem_append.1 hnode with hold | hnew
    · exact h.further node hold hout.1
    · rw [List.mem_singleton.1 hnew] at hout
      exact absurd List.mem_cons_self hout.2
  · rcases List.mem_append.1 hnode with hold | hnew
    · rcases List.mem_append.1 hin with hmem | hconn
      · exact h.own node hold hmem
      · exact absurd (List.mem_singleton.1 hconn ▸ List.mem_map_of_mem hold) hnot
    · rw [List.mem_singleton.1 hnew]
      refine ⟨hnone.symm, nofun, fun _ => ⟨rfl, rfl⟩, fun hkey => ?_⟩
      exact absurd ((identifies_new pair x conn).symm.trans hkey) Bool.false_ne_true

theorem Best.newNode (h : Best pair x p numbers) (conn : ℕ) :
    Best pair x (NoLeader.newNode conn p) numbers := by
  have hold : ∀ node ∈ (NoLeader.newNode conn p).peers, pair.identifies x node = true →
      node ∈ p.peers := fun node hnode hkey => by
    rcases List.mem_append.1 hnode with hold | hnew
    · exact hold
    · rw [List.mem_singleton.1 hnew, identifies_new] at hkey
      exact absurd hkey Bool.false_ne_true
  intro node hnode hkey hopen
  obtain ⟨hvalid, hbest⟩ := h node (hold node hnode hkey) hkey hopen
  exact ⟨hvalid, fun other hother hkey' => hbest other (hold other hother hkey') hkey'⟩

/-- A number is sent on a connection. -/
def sendNumber (numbers : Side → ℕ → Option (BitVec 64)) (x : Side) (conn : ℕ)
    (randomNo : BitVec 64) : Side → ℕ → Option (BitVec 64) :=
  Function.update numbers x (Function.update (numbers x) conn (some randomNo))

theorem sendNumber_self (conn : ℕ) (randomNo : BitVec 64) :
    sendNumber numbers x conn randomNo x conn = some randomNo := by
  rw [sendNumber, Function.update_self, Function.update_self]

theorem sendNumber_of_ne {z : Side} {conn other : ℕ} (randomNo : BitVec 64)
    (h : z ≠ x ∨ other ≠ conn) : sendNumber numbers x conn randomNo z other = numbers z other := by
  unfold sendNumber
  by_cases hz : z = x
  · subst hz
    rw [Function.update_self, Function.update_of_ne (h.resolve_left (not_not.2 rfl))]
  · rw [Function.update_of_ne hz]

theorem extends_sendNumber {conn : ℕ} (h : numbers x conn = none) (randomNo : BitVec 64) :
    Extends numbers (sendNumber numbers x conn randomNo) := by
  intro z other otherNo hsome
  rw [sendNumber_of_ne randomNo, hsome]
  by_contra hboth
  obtain ⟨hz, hother⟩ := not_or.1 hboth
  rw [not_not.1 hz, not_not.1 hother, h] at hsome
  exact nomatch hsome

/-- `on_new_node_connected` changes no connection but one, and leaves its key. -/
theorem onNewNodeConnected_eq (conn : ℕ) (randomNo : BitVec 64) (p : Peering) :
    ∃ change : Connection → Connection,
      (onNewNodeConnected conn randomNo p).peers = p.peers.map change ∧
        (∀ node, (change node).conn = node.conn ∧ (change node).closing = node.closing ∧
          (change node).pubkey = node.pubkey) ∧
        (∀ node, node.conn ≠ conn → change node = node) ∧
        ∀ node, node.conn = conn → change node =
          { node with
            connected := true
            connId := (addNodeConnectionIdentifier node p.nodeId randomNo).connId } := by
  refine ⟨_, rfl, fun node => ?_, fun node hne => if_neg hne, fun node heq => ?_⟩
  · dsimp only
    split_ifs with heq
    · rw [addNodeConnectionIdentifier_eq]
      exact ⟨rfl, rfl, rfl⟩
    · exact ⟨rfl, rfl, rfl⟩
  · rw [if_pos heq]
    dsimp only
    unfold addNodeConnectionIdentifier
    split_ifs <;> rfl

/-- The number that a node sends is the first one of the connection. -/
theorem Shared.connected_new {node : Connection} (h : Shared pair x numbers node)
    (hnone : numbers x node.conn = none) (hnodeId : p.nodeId = pair.nodeId x)
    (randomNo : BitVec 64) : Shared pair x (sendNumber numbers x node.conn randomNo)
      { node with
        connected := true
        connId := (addNodeConnectionIdentifier node p.nodeId randomNo).connId } := by
  have hfresh : pair.identifies x node = false := by
    cases hkey : pair.identifies x node with
    | false => rfl
    | true =>
        have hsome := (h.identified hkey).2.1
        rw [hnone] at hsome
        exact nomatch hsome
  obtain ⟨hid, hlookup⟩ := h.fresh hfresh
  have hconnId : (addNodeConnectionIdentifier node p.nodeId randomNo).connId =
      node.connId ++ [(pair.nodeId x, randomNo)] := by
    rw [connId_addNodeConnectionIdentifier, hnodeId, h.sent, hnone]
    rfl
  rw [hconnId]
  refine ⟨?_, fun _ => ?_, fun _ => ⟨hid, ?_⟩, fun hkey => ?_⟩
  · show (node.connId ++ [(pair.nodeId x, randomNo)]).lookup _ =
      sendNumber numbers x node.conn randomNo x node.conn
    rw [sendNumber_self, List.lookup_append, h.sent, hnone]
    simp
  · show (sendNumber numbers x node.conn randomNo x node.conn).isSome
    rw [sendNumber_self]
    rfl
  · show (node.connId ++ [(pair.nodeId x, randomNo)]).lookup _ = none
    rw [List.lookup_append, hlookup]
    have hne := (pair.nodeId_ne_other x).symm
    simp [hne]
  · exact absurd (hfresh.symm.trans hkey) Bool.false_ne_true

/-- `on_new_node_connected`. -/
theorem Sided.connected (h : Sided pair x p opened numbers) {conn : ℕ}
    (hnone : numbers x conn = none) (hmem : conn ∈ opened) (randomNo : BitVec 64) :
    Sided pair x (onNewNodeConnected conn randomNo p) opened
      (sendNumber numbers x conn randomNo) := by
  obtain ⟨change, hpeers, hsame, hother, hconn⟩ := onNewNodeConnected_eq conn randomNo p
  refine ⟨h.nodeId, h.pubkey, h.knows, ?_, fun node hnode hout => ?_, fun node hnode hin => ?_⟩
  · rw [hpeers, map_conn fun node => (hsame node).1]
    exact h.nodup
  · rw [hpeers] at hnode
    obtain ⟨old, hold, rfl⟩ := List.mem_map.1 hnode
    rw [(hsame old).1] at hout
    rw [hother old fun heq => hout (heq ▸ hmem)]
    exact h.further old hold hout
  · rw [hpeers] at hnode
    obtain ⟨old, hold, rfl⟩ := List.mem_map.1 hnode
    rw [(hsame old).1] at hin
    have hown := h.own old hold hin
    by_cases heq : old.conn = conn
    · subst heq
      rw [hconn old rfl]
      exact hown.connected_new hnone h.nodeId randomNo
    · rw [hother old heq]
      exact hown.extends (sendNumber_of_ne randomNo (.inr heq)) (extends_sendNumber hnone randomNo)

/-- The connections to further nodes change. -/
theorem Sided.others (h : Sided pair x p opened numbers) {peers : List Connection}
    (hnodup : (peers.map Connection.conn).Nodup)
    (hsame : peers.filter (fun node => node.conn ∈ opened) =
      p.peers.filter fun node => node.conn ∈ opened)
    (hfurther : ∀ node ∈ peers, node.conn ∉ opened → Link.Further pair x node) :
    Sided pair x { p with peers } opened numbers :=
  ⟨h.nodeId, h.pubkey, h.knows, hnodup, hfurther, fun node hnode hin => by
    have hmem : node ∈ p.peers.filter fun node => node.conn ∈ opened :=
      hsame ▸ List.mem_filter.2 ⟨hnode, decide_eq_true hin⟩
    exact h.own node (List.mem_filter.1 hmem).1 hin⟩

theorem Best.others (h : Best pair x p numbers) {peers : List Connection}
    (hsame : peers.filter (fun node => node.conn ∈ opened) =
      p.peers.filter fun node => node.conn ∈ opened)
    (hfurther : ∀ node ∈ peers, node.conn ∉ opened → Link.Further pair x node) :
    Best pair x { p with peers } numbers := by
  have hold : ∀ node ∈ peers, pair.identifies x node = true → node ∈ p.peers := by
    intro node hnode hkey
    by_cases hin : node.conn ∈ opened
    · have hmem : node ∈ p.peers.filter fun node => node.conn ∈ opened :=
        hsame ▸ List.mem_filter.2 ⟨hnode, decide_eq_true hin⟩
      exact (List.mem_filter.1 hmem).1
    · exact absurd ((hfurther node hnode hin).1.symm.trans hkey) Bool.false_ne_true
  intro node hnode hkey hopen
  obtain ⟨hvalid, hbest⟩ := h node (hold node hnode hkey) hkey hopen
  exact ⟨hvalid, fun other hother hkey' => hbest other (hold other hother hkey') hkey'⟩

/-- A connection that is closed is taken off the list. -/
theorem isOpen_workerThreadOnClose (h : Sided pair x p opened numbers) {node : Connection}
    (hnode : node ∈ p.peers) (hclosing : node.closing = true) {conn : ℕ} (hopen : IsOpen p conn) :
    IsOpen (workerThreadOnClose node p) conn := by
  obtain ⟨other, hother, rfl, hotherOpen⟩ := hopen
  have hne : other.conn ≠ node.conn := fun heq => by
    rw [h.eq_of_conn_eq hother hnode heq, hclosing] at hotherOpen
    exact Bool.false_ne_true hotherOpen.symm
  have hfilter : IsOpen
      { p with peers := p.peers.filter fun other => other.conn != node.conn } other.conn :=
    ⟨other, List.mem_filter.2 ⟨hother, bne_iff_ne.2 hne⟩, rfl, hotherOpen⟩
  unfold workerThreadOnClose
  dsimp only
  cases node.idConflict with
  | none => exact hfilter
  | some conflict =>
      refine isOpen_map rfl (fun node => ?_) (isOpen_map rfl (fun node => ?_) hfilter) <;>
        · dsimp only
          split_ifs <;> exact ⟨rfl, rfl⟩

/-! ## In every run -/

namespace Link

/-- What holds of two nodes: a connection that one of them has closed has lost. -/
structure Linked (pair : Pair) (s : Link) : Prop where
  sided : ∀ x, Sided pair x (s.side x) (s.opened x) s.numbers
  best : ∀ x, Best pair x (s.side x) s.numbers
  opened : ∀ x conn, (s.numbers x conn).isSome → conn ∈ s.opened x
  drawn : ∀ x conn randomNo, s.numbers x conn = some randomNo → randomNo ∈ s.drawn
  distinct : ∀ x conn conn' randomNo, s.numbers x conn = some randomNo →
    s.numbers x conn' = some randomNo → conn = conn'
  sent : ∀ x, ∀ entry ∈ s.sent x.other, ∃ randomNo, s.numbers x.other entry.1 = some randomNo ∧
    FromOther pair x randomNo entry.2
  lost : ∀ x, ∀ conn ∈ s.opened x, IsOpen (s.side x) conn ∨ Beaten pair s.numbers conn

namespace Linked

theorem none_of_notMem (h : s.Linked pair) {conn : ℕ} (hnot : conn ∉ s.opened x) :
    s.numbers x conn = none := by
  cases hsome : s.numbers x conn with
  | none => rfl
  | some randomNo => exact absurd (h.opened x conn (hsome ▸ rfl)) hnot

/-- A step in which a node only handles or closes connections. -/
theorem update (h : s.Linked pair) {sent : Side → List (ℕ × IdMessage)}
    (hsided : Sided pair x p (s.opened x) s.numbers) (hbest : Best pair x p s.numbers)
    (hsent : ∀ z, sent z ⊆ s.sent z)
    (hlost : ∀ conn ∈ s.opened x, IsOpen p conn ∨ Beaten pair s.numbers conn) :
    Linked pair { s with side := Function.update s.side x p, sent } := by
  refine ⟨fun z => ?_, fun z => ?_, h.opened, h.drawn, h.distinct,
    fun z entry hentry => h.sent z entry (hsent _ hentry), fun z => ?_⟩
  all_goals
    dsimp only
    rcases eq_or_ne z x with rfl | hne
  · rw [Function.update_self]
    exact hsided
  · rw [Function.update_of_ne hne]
    exact h.sided z
  · rw [Function.update_self]
    exact hbest
  · rw [Function.update_of_ne hne]
    exact h.best z
  · rw [Function.update_self]
    exact hlost
  · rw [Function.update_of_ne hne]
    exact h.lost z

theorem newNode (h : s.Linked pair) {conn : ℕ} (hopened : conn ∉ s.opened x)
    (hpeers : conn ∉ (s.side x).peers.map Connection.conn) :
    Linked pair { s with
      side := Function.update s.side x (NoLeader.newNode conn (s.side x))
      opened := Function.update s.opened x (s.opened x ++ [conn]) } := by
  refine ⟨fun z => ?_, fun z => ?_, fun z other hsome => ?_, h.drawn, h.distinct, h.sent,
    fun z => ?_⟩
  all_goals
    dsimp only
    rcases eq_or_ne z x with rfl | hne
  · rw [Function.update_self, Function.update_self]
    exact (h.sided z).newNode hpeers (h.none_of_notMem hopened)
  · rw [Function.update_of_ne hne, Function.update_of_ne hne]
    exact h.sided z
  · rw [Function.update_self]
    exact (h.best z).newNode conn
  · rw [Function.update_of_ne hne]
    exact h.best z
  · rw [Function.update_self]
    exact List.mem_append_left _ (h.opened z other hsome)
  · rw [Function.update_of_ne hne]
    exact h.opened z other hsome
  · rw [Function.update_self, Function.update_self]
    intro other hother
    rcases List.mem_append.1 hother with hold | hnew
    · refine (h.lost z other hold).imp_left fun hopen => ?_
      obtain ⟨node, hnode, hconn, hclosing⟩ := hopen
      exact ⟨node, List.mem_append_left _ hnode, hconn, hclosing⟩
    · rw [List.mem_singleton.1 hnew]
      exact .inl ⟨_, List.mem_append_right _ List.mem_cons_self, rfl, rfl⟩
  · rw [Function.update_of_ne hne, Function.update_of_ne hne]
    exact h.lost z

theorem connected (h : s.Linked pair) {conn : ℕ} {randomNo : BitVec 64}
    (hmem : conn ∈ s.opened x) (hnone : s.numbers x conn = none) (hdrawn : randomNo ∉ s.drawn) :
    Linked pair { s with
      side := Function.update s.side x (onNewNodeConnected conn randomNo (s.side x))
      sent := Function.update s.sent x (s.sent x ++
        [(conn, sendNodeIdentification (pair.self x) randomNo (s.side x))])
      numbers := sendNumber s.numbers x conn randomNo
      drawn := s.drawn ++ [randomNo] } := by
  have hextends := extends_sendNumber hnone randomNo
  obtain ⟨change, hpeers, hsame, -, -⟩ := onNewNodeConnected_eq conn randomNo (s.side x)
  have hnumber : ∀ z other otherNo, sendNumber s.numbers x conn randomNo z other = some otherNo →
      s.numbers z other = some otherNo ∨ (z = x ∧ other = conn ∧ otherNo = randomNo) := by
    intro z other otherNo hsome
    by_cases hboth : z = x ∧ other = conn
    · obtain ⟨rfl, rfl⟩ := hboth
      rw [sendNumber_self] at hsome
      exact .inr ⟨rfl, rfl, (Option.some.inj hsome).symm⟩
    · rw [sendNumber_of_ne randomNo (not_and_or.1 hboth)] at hsome
      exact .inl hsome
  refine ⟨fun z => ?_, fun z => ?_, fun z other hsome => ?_, fun z other otherNo hsome => ?_,
    fun z other other' otherNo hsome hsome' => ?_, fun z entry hentry => ?_,
    fun z other hother => ?_⟩
  · dsimp only
    rcases eq_or_ne z x with rfl | hne
    · rw [Function.update_self]
      exact (h.sided z).connected hnone hmem randomNo
    · rw [Function.update_of_ne hne]
      obtain ⟨hnodeId, hpubkey, hknows, hnodup, hfurther, hown⟩ := h.sided z
      refine ⟨hnodeId, hpubkey, hknows, hnodup, hfurther, fun node hnode hin => ?_⟩
      exact (hown node hnode hin).extends (sendNumber_of_ne randomNo (.inl hne)) hextends
  · dsimp only
    rcases eq_or_ne z x with rfl | hne
    · rw [Function.update_self]
      exact ((h.best z).extends (h.sided z) hextends).map hpeers rfl hsame
    · rw [Function.update_of_ne hne]
      exact (h.best z).extends (h.sided z) hextends
  · obtain ⟨otherNo, hotherNo⟩ := Option.isSome_iff_exists.1 hsome
    rcases hnumber z other otherNo hotherNo with hold | ⟨rfl, rfl, -⟩
    · exact h.opened z other (hold ▸ rfl)
    · exact hmem
  · rcases hnumber z other otherNo hsome with hold | ⟨-, -, rfl⟩
    · exact List.mem_append_left _ (h.drawn z other otherNo hold)
    · exact List.mem_append_right _ List.mem_cons_self
  · rcases hnumber z other otherNo hsome with hold | ⟨rfl, rfl, rfl⟩
    · rcases hnumber z other' otherNo hsome' with hold' | ⟨rfl, rfl, rfl⟩
      · exact h.distinct z other other' otherNo hold hold'
      · exact absurd (h.drawn _ _ _ hold) hdrawn
    · rcases hnumber _ other' _ hsome' with hold' | ⟨-, rfl, -⟩
      · exact absurd (h.drawn _ _ _ hold') hdrawn
      · rfl
  · have hsent : entry ∈ s.sent z.other ∨ z.other = x ∧
        entry = (conn, sendNodeIdentification (pair.self x) randomNo (s.side x)) := by
      dsimp only at hentry
      rcases eq_or_ne z.other x with heq | hne
      · rw [heq, Function.update_self] at hentry
        rcases List.mem_append.1 hentry with hold | hnew
        · exact .inl (heq ▸ hold)
        · exact .inr ⟨heq, List.mem_singleton.1 hnew⟩
      · rw [Function.update_of_ne hne] at hentry
        exact .inl hentry
    rcases hsent with hold | ⟨rfl, rfl⟩
    · obtain ⟨otherNo, hotherNo, hfrom⟩ := h.sent z entry hold
      exact ⟨otherNo, hextends _ _ _ hotherNo, hfrom⟩
    · exact ⟨randomNo, sendNumber_self conn randomNo, ⟨s.side z.other, (h.sided _).nodeId,
        (h.sided _).pubkey, rfl⟩⟩
  · refine (h.lost z other hother).imp (fun hopen => ?_) fun hbeaten => ?_
    · dsimp only
      rcases eq_or_ne z x with rfl | hne
      · rw [Function.update_self]
        exact isOpen_map hpeers (fun node => ⟨(hsame node).1, (hsame node).2.1⟩) hopen
      · rw [Function.update_of_ne hne]
        exact hopen
    · obtain ⟨hsome, best, hbest, hless⟩ := hbeaten
      refine ⟨fun z => ?_, best, fun z => ?_, ?_⟩
      · show (sendNumber s.numbers x conn randomNo z other).isSome
        rw [hextends.isSome (hsome z)]
        exact hsome z
      · show (sendNumber s.numbers x conn randomNo z best).isSome
        rw [hextends.isSome (hbest z)]
        exact hbest z
      · show pair.number (sendNumber s.numbers x conn randomNo) other <
          pair.number (sendNumber s.numbers x conn randomNo) best
        rw [hextends.number hsome, hextends.number hbest]
        exact hless

theorem fresh (h : Fresh pair s) : s.Linked pair := by
  have hnone : ∀ x conn randomNo, s.numbers x conn ≠ some randomNo := fun x conn randomNo => by
    rw [h.numbers]
    nofun
  refine ⟨fun x => ⟨h.nodeId x, h.pubkey x, h.knows x, ?_, ?_, ?_⟩, fun x => ?_,
    fun x conn hsome => ?_, fun x conn randomNo hsome => absurd hsome (hnone _ _ _),
    fun x conn _ randomNo hsome => absurd hsome (hnone _ _ _), fun x entry hentry => ?_,
    fun x conn hconn => ?_⟩
  · rw [h.peers]
    exact List.nodup_nil
  · rw [h.peers]
    nofun
  · rw [h.peers]
    nofun
  · unfold Best
    rw [h.peers]
    nofun
  · rw [h.numbers] at hsome
    exact nomatch hsome
  · rw [h.sent] at hentry
    exact absurd hentry List.not_mem_nil
  · rw [h.opened] at hconn
    exact absurd hconn List.not_mem_nil

/-- A message that has been sent on the connection is handled. -/
theorem identified (h : s.Linked pair) {node : Connection} {msg : IdMessage} {sent : Side → _}
    (hnode : node ∈ (s.side x).peers) (hmem : node.conn ∈ s.opened x)
    (hconnected : node.connected = true) (hmsg : (node.conn, msg) ∈ s.sent x.other)
    (hordered : ∀ other ∈ pair.previous (s.side x) x node.conn,
      pair.number s.numbers node.conn ≤ pair.number s.numbers other.conn)
    (hsent : ∀ z, sent z ⊆ s.sent z)
    (hpeering : onNodeIdentification pair.crypto node msg (s.side x) = some p) :
    Linked pair { s with side := Function.update s.side x p, sent } := by
  obtain ⟨randomNo, harrived, hfrom⟩ := h.sent x _ hmsg
  obtain ⟨hsided, hbest, hopen⟩ := (h.sided x).identify (h.best x) hnode hmem hconnected hfrom
    harrived hordered (h.distinct pair.smaller) hpeering
  exact h.update hsided hbest hsent fun other hother =>
    (h.lost x other hother).elim (hopen other) .inr

/-- The other node has closed the connection, which had lost. -/
theorem hangup (h : s.Linked pair) {conn : ℕ} (hmem : conn ∈ s.opened x.other)
    (hclosed : ¬IsOpen (s.side x.other) conn) :
    Linked pair { s with side := Function.update s.side x (disconnectPeer conn (s.side x)) } := by
  have hbeaten := (h.lost x.other conn hmem).resolve_left hclosed
  refine h.update ((h.sided x).keeps (keeps_disconnectPeer _ _) rfl rfl rfl)
    ((h.best x).keeps (keeps_disconnectPeer _ _) (List.Subset.refl _))
    (fun _ => List.Subset.refl _) fun other hother => ?_
  by_cases heq : other = conn
  · exact .inr (heq ▸ hbeaten)
  · exact (h.lost x other hother).imp_left fun hopen => isOpen_disconnectPeer hopen heq

theorem closed (h : s.Linked pair) {node : Connection} (hnode : node ∈ (s.side x).peers)
    (hclosing : node.closing = true) : Linked pair
      { s with side := Function.update s.side x (workerThreadOnClose node (s.side x)) } := by
  refine h.update ((h.sided x).keeps (keeps_workerThreadOnClose node _) ?_ ?_ ?_)
    ((h.best x).keeps (keeps_workerThreadOnClose node _) ?_)
    (fun _ => List.Subset.refl _) fun other hother => (h.lost x other hother).imp_left
      (isOpen_workerThreadOnClose (h.sided x) hnode hclosing)
  all_goals
    unfold workerThreadOnClose
    cases node.idConflict <;> first | rfl | exact List.Subset.refl _

theorem others (h : s.Linked pair) {peers : List Connection}
    (hnodup : (peers.map Connection.conn).Nodup)
    (hsame : peers.filter (fun node => node.conn ∈ s.opened x) =
      (s.side x).peers.filter fun node => node.conn ∈ s.opened x)
    (hfurther : ∀ node ∈ peers, node.conn ∉ s.opened x → Further pair x node) :
    Linked pair { s with side := Function.update s.side x { s.side x with peers } } := by
  refine h.update ((h.sided x).others hnodup hsame hfurther) ((h.best x).others hsame hfurther)
    (fun _ => List.Subset.refl _) fun conn hconn => (h.lost x conn hconn).imp_left fun hopen => ?_
  obtain ⟨node, hnode, rfl, hclosing⟩ := hopen
  have hmem : node ∈ peers.filter fun node => node.conn ∈ s.opened x :=
    hsame ▸ List.mem_filter.2 ⟨hnode, decide_eq_true hconn⟩
  exact ⟨node, (List.mem_filter.1 hmem).1, rfl, hclosing⟩

end Linked

/-- **Two nodes are linked in every run whose identifications are ordered.** -/
theorem invariant_linked (pair : Pair) :
    ((system pair).restrict (Ordered pair)).Invariant (Linked pair) where
  init s h := Linked.fresh h
  step s a t h hs := by
    obtain ⟨hordered, hstep⟩ := hs
    cases a with
    | newNode x conn =>
        by_cases hlisted : conn ∈ s.opened x ∨ conn ∈ (s.side x).peers.map Connection.conn
        · cases (if_pos hlisted).symm.trans hstep
        · cases (if_neg hlisted).symm.trans hstep
          exact h.newNode (fun hmem => hlisted (.inl hmem)) fun hmem => hlisted (.inr hmem)
    | connected x conn randomNo =>
        by_cases hguard : conn ∈ s.opened x ∧ ¬s.Closed x conn ∧ s.numbers x conn = none ∧
            randomNo ∉ s.drawn
        · cases (if_pos hguard).symm.trans hstep
          exact h.connected hguard.1 hguard.2.2.1 hguard.2.2.2
        · cases (if_neg hguard).symm.trans hstep
    | identified x conn =>
        obtain ⟨node, hnode, hstep⟩ := Option.bind_eq_some_iff.1 hstep
        obtain ⟨msg, hmsg, hstep⟩ := Option.bind_eq_some_iff.1 hstep
        by_cases hguard : conn ∉ s.opened x ∨ node.closing = true ∨ (!node.connected) = true
        · cases (if_pos hguard).symm.trans hstep
        · obtain ⟨peering, hpeering, rfl⟩ :=
            Option.map_eq_some_iff.1 ((if_neg hguard).symm.trans hstep)
          rw [not_or, not_or, not_not] at hguard
          obtain ⟨hmem, -, hconnected⟩ := hguard
          obtain rfl : node.conn = conn := by
            have hfound := List.find?_some hnode
            exact beq_iff_eq.1 hfound
          have hentry : (node.conn, msg) ∈ s.sent x.other := by
            obtain ⟨before, after, heq, -⟩ := List.lookup_eq_some_iff.1 hmsg
            rw [heq]
            exact List.mem_append_right _ List.mem_cons_self
          refine h.identified (List.mem_of_find?_eq_some hnode) hmem (by simpa using hconnected)
            hentry (hordered (x, node.conn) rfl) (fun z => ?_) hpeering
          rcases eq_or_ne z x.other with rfl | hne
          · rw [Function.update_self]
            exact List.filter_subset_self _
          · rw [Function.update_of_ne hne]
            exact List.Subset.refl _
    | hangup x conn =>
        by_cases hguard : conn ∈ s.opened x ∧ s.Closed x.other conn
        · cases (if_pos hguard).symm.trans hstep
          exact h.hangup hguard.2.1 hguard.2.2
        · cases (if_neg hguard).symm.trans hstep
    | closed x conn =>
        obtain ⟨node, hnode, hstep⟩ := Option.bind_eq_some_iff.1 hstep
        by_cases hguard : conn ∈ s.opened x ∧ node.closing = true
        · cases (if_pos hguard).symm.trans hstep
          exact h.closed (List.mem_of_find?_eq_some hnode) hguard.2
        · cases (if_neg hguard).symm.trans hstep
    | authorizations x auths =>
        by_cases hknows : pair.Knows x auths
        · cases (if_pos hknows).symm.trans hstep
          obtain ⟨hnodeId, hpubkey, -, hnodup, hfurther, hown⟩ := h.sided x
          exact h.update ⟨hnodeId, hpubkey, hknows, hnodup, hfurther, hown⟩ (h.best x)
            (fun _ => List.Subset.refl _) (h.lost x)
        · cases (if_neg hknows).symm.trans hstep
    | others x peers =>
        by_cases hguard : (peers.map Connection.conn).Nodup ∧
            peers.filter (fun node => node.conn ∈ s.opened x) =
              (s.side x).peers.filter (fun node => node.conn ∈ s.opened x) ∧
            ∀ node ∈ peers, node.conn ∉ s.opened x → Further pair x node
        · cases (if_pos hguard).symm.trans hstep
          exact h.others hguard.1 hguard.2.1 hguard.2.2
        · cases (if_neg hguard).symm.trans hstep

/-- A listed connection that is identified, where everything is settled. -/
theorem Linked.exists_identified (h : s.Linked pair) (hsettled : s.Settled pair) {conn : ℕ}
    (hmem : conn ∈ s.opened x) (hopen : IsOpen (s.side x) conn) :
    ∃ node ∈ (s.side x).peers, node.conn = conn ∧ pair.identifies x node = true ∧
      node.closing = false := by
  rcases hsettled x conn hmem with ⟨-, hclosed⟩ | ⟨node, hnode, hconn, hkey⟩
  · exact absurd hopen hclosed
  · obtain ⟨other, hother, hotherConn, hclosing⟩ := hopen
    obtain rfl := (h.sided x).eq_of_conn_eq hnode hother (hconn.trans hotherConn.symm)
    exact ⟨node, hnode, hconn, hkey, hclosing⟩

/-- Both nodes have sent a number on every connection, where everything is settled. -/
theorem Linked.numbers_isSome (h : s.Linked pair) (hsettled : s.Settled pair) {conn : ℕ}
    (hmem : conn ∈ s.opened x) (z : Side) : (s.numbers z conn).isSome := by
  rcases hsettled x conn hmem with ⟨-, hclosed⟩ | ⟨node, hnode, rfl, hkey⟩
  · exact ((h.lost x conn hmem).resolve_left hclosed).1 z
  · exact (h.sided x).numbers_isSome hnode hkey z

/-- **The connection with the greatest number is the one that is left.** -/
theorem Linked.agreed (h : s.Linked pair) (hsettled : s.Settled pair)
    (hopened : ∃ x, s.opened x ≠ []) : s.Agreed := by
  obtain ⟨first, hfirst⟩ := hopened
  have hboth : ∀ x, ∀ conn ∈ s.opened x, ∀ z, conn ∈ s.opened z := fun x conn hmem z =>
    h.opened z conn (h.numbers_isSome hsettled hmem z)
  obtain ⟨best, hbest, hmax⟩ := Finset.exists_max_image (s.opened first).toFinset
    (pair.number s.numbers) (List.toFinset_nonempty_iff _ |>.2 hfirst)
  rw [List.mem_toFinset] at hbest
  have hmax : ∀ x, ∀ conn ∈ s.opened x, pair.number s.numbers conn ≤ pair.number s.numbers best :=
    fun x conn hmem => hmax conn (List.mem_toFinset.2 (hboth x conn hmem first))
  have hopen : ∀ z, IsOpen (s.side z) best := fun z => by
    refine (h.lost z best (hboth first best hbest z)).resolve_right fun hbeaten => ?_
    obtain ⟨-, other, hother, hless⟩ := hbeaten
    have := hmax first other (h.opened first other (hother first))
    omega
  refine ⟨best, fun z => ?_,
    fun x other hother hne z => ⟨hboth x other hother z, fun hopened => ?_⟩⟩
  · obtain ⟨node, hnode, rfl, hkey, hclosing⟩ :=
      h.exists_identified hsettled (hboth first best hbest z) (hopen z)
    exact ⟨hboth first _ hbest z, fun hclosed => hclosed.2 (hopen z),
      (h.best z node hnode hkey hclosing).1⟩
  · obtain ⟨node, hnode, rfl, hkey, hclosing⟩ :=
      h.exists_identified hsettled (hboth x other hother z) hopened
    obtain ⟨winner, hwinner, rfl, hwinnerKey, -⟩ :=
      h.exists_identified hsettled (hboth first best hbest z) (hopen z)
    have hle := (h.best z node hnode hkey hclosing).2 winner hwinner hwinnerKey
    have heq := Nat.le_antisymm (hmax x node.conn hother) hle
    obtain ⟨nodeNo, hnodeNo⟩ :=
      Option.isSome_iff_exists.1 (h.numbers_isSome hsettled hother pair.smaller)
    obtain ⟨bestNo, hbestNo⟩ :=
      Option.isSome_iff_exists.1 (h.numbers_isSome hsettled hbest pair.smaller)
    unfold Pair.number at heq
    rw [hnodeNo, hbestNo] at heq
    obtain rfl : nodeNo = bestNo := BitVec.eq_of_toNat_eq heq
    exact hne (h.distinct _ _ _ _ hnodeNo hbestNo)

/-- **In every run whose identifications are ordered, both nodes agree on one connection** once
all identifications have been handled, and have run `on_valid_node_id` on it. -/
theorem agreed_of_settled (pair : Pair) {s : Link}
    (h : ((system pair).restrict (Ordered pair)).Reachable s) (hsettled : s.Settled pair)
    (hopened : ∃ x, s.opened x ≠ []) : s.Agreed :=
  ((invariant_linked pair).reachable h).agreed hsettled hopened

/-! ## Two connections -/

/-- Two nodes that know each other's keys. -/
def plainPair : Pair where
  crypto := plainCrypto
  nodeId
    | .one => 1
    | .two => 2
  pubkey
    | .one => List.replicate 33 1
    | .two => List.replicate 33 2
  self x := ⟨7000, ⟨[], [], [], []⟩, none, fun text =>
    plainSign (match x with | .one => List.replicate 33 1 | .two => List.replicate 33 2)
      (plainCrypto.sha256 text)⟩
  nodeId_pos x := by cases x <;> decide
  nodeId_ne := by decide
  pubkey_length x := by cases x <;> rfl
  pubkey_ne := by decide
  pubkey_ne_zero x := by cases x <;> decide
  device_fits x := by cases x <;> decide
  text_length x := by cases x <;> decide
  verified x := by cases x <;> decide +kernel

/-- The two nodes before they connect. -/
def plainLink : Link where
  side x := ⟨plainPair.nodeId x, plainPair.pubkey x,
    [⟨plainPair.pubkey x.other, plainPair.nodeId x.other, true, 1, 0, 0⟩], [], []⟩
  opened _ := []
  sent _ := []
  numbers _ _ := none
  drawn := []

theorem fresh_plainLink : Fresh plainPair plainLink :=
  ⟨fun _ => rfl, fun _ => rfl, fun x => by cases x <;> decide +kernel, fun _ => rfl, fun _ => rfl,
    fun _ => rfl, fun _ _ => rfl⟩

/-- The nodes open connection 0 and connection 1, with these numbers, and both identify connection
0 first. -/
def twoConnections (number number' : BitVec 64) : List Action :=
  [.newNode .one 0, .newNode .two 0, .newNode .one 1, .newNode .two 1,
    .connected .one 0 number, .connected .two 0 1, .connected .one 1 number', .connected .two 1 2,
    .identified .one 0, .identified .two 0, .identified .one 1, .identified .two 1]

instance {P : Side → Prop} [DecidablePred P] : Decidable (∀ x, P x) :=
  decidable_of_iff (P .one ∧ P .two)
    ⟨fun h x => by cases x; exacts [h.1, h.2], fun h => ⟨h .one, h .two⟩⟩

instance (pair : Pair) (s : Link) : Decidable (s.Settled pair) :=
  inferInstanceAs (Decidable (∀ x, ∀ conn ∈ s.opened x, _ ∨ ∃ node ∈ _, _ ∧ _))

/-- With the greater number first. -/
theorem agreed_of_settled_twoConnections : ∃ s,
    ((system plainPair).restrict (Ordered plainPair)).Reachable s ∧ s.Agreed := by
  have hrun : (System.run (System.checked (fun s a => decide (s.Ordered plainPair a))
      (step plainPair)) plainLink (twoConnections 20 10)).any (fun s =>
        decide (s.Settled plainPair) && decide (s.opened .one ≠ [])) = true := by
    decide +kernel
  obtain ⟨s, hs, hsettled⟩ := (Option.any_eq_true _ _).1 hrun
  rw [Bool.and_eq_true, decide_eq_true_iff, decide_eq_true_iff] at hsettled
  have hreachable := System.reachable_restrict_of_run of_decide_eq_true fresh_plainLink hs
  exact ⟨s, hreachable, agreed_of_settled plainPair hreachable hsettled.1 ⟨.one, hsettled.2⟩⟩

/-- **With the smaller number first, `on_valid_node_id` has not run for the connection that is
left**, and none is agreed on. -/
theorem survivor_not_valid : ∃ s, (system plainPair).Reachable s ∧ s.Settled plainPair ∧
    (∀ x, s.Closed x 0 ∧ IsOpen (s.side x) 1 ∧ (s.side x).validNodes = [0]) ∧ ¬s.Agreed := by
  have hrun : (System.run (step plainPair) plainLink (twoConnections 10 20)).any (fun s =>
      decide (s.Settled plainPair) && decide (∀ x, s.Closed x 0 ∧ IsOpen (s.side x) 1 ∧
        (s.side x).validNodes = [0])) = true := by
    decide +kernel
  obtain ⟨s, hs, hlast⟩ := (Option.any_eq_true _ _).1 hrun
  rw [Bool.and_eq_true, decide_eq_true_iff, decide_eq_true_iff] at hlast
  refine ⟨s, System.reachable_of_run fresh_plainLink hs, hlast.1, hlast.2, ?_⟩
  rintro ⟨conn, hconn, -⟩
  obtain ⟨-, hopen, hvalid⟩ := hconn .one
  obtain ⟨hclosed, -, hnodes⟩ := hlast.2 .one
  rw [hnodes] at hvalid
  exact hopen (List.mem_singleton.1 hvalid ▸ hclosed)

end Link

end NoLeader
end AergoLite
