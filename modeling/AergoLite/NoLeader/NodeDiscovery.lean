/-
# Finding the other nodes

`plugins/no-leader/node_discovery.c`: a node that accepts another one tells it the addresses of
those of its peers that have a greater id, and tells its other peers the address of the new one
(`send_peer_list`).  So of two nodes that a third one has accepted the one with the smaller id is
told to connect to the other; it does so unless it has a connection with that address already
(`check_peer_connection` of `no-leader.c`).

A mesh is several nodes with their lists of peers and the lists of addresses on the way.  As long
as connections are only closed between nodes that have another one, or that no third node has
accepted, or as one of the two stops, the lists that are still to arrive or to be followed are
all that is missing (`meshed_reachable`): once nothing is on the way, any two nodes that are
connected over others are connected (`mesh_of_settled`).
-/

import AergoLite.Core.Basic
import AergoLite.Library.Transition
import Mathlib.Logic.Function.Basic
import Mathlib.Logic.Relation

namespace AergoLite
namespace NoLeader

open AergoLite.Core
open Transition

/-! ## A node -/

/-- The values of `conn_state`. -/
inductive ConnState
  | unknown | connecting | connected | connLost | disconnected | failed
  deriving DecidableEq, Repr

/-- A host and a port. -/
abbrev Address := Text × ℤ

/-- `struct node`, as far as it is about the address of a peer; `conn` stands for its socket. -/
structure PeerEntry where
  conn : ℕ
  host : Text
  port : ℤ
  bindPort : ℤ := 0
  id : ℤ := 0
  isAuthorized : Bool := false
  connState : ConnState := .unknown
  deriving DecidableEq, Repr

/-- Where the peer accepts connections. -/
def PeerEntry.address (node : PeerEntry) : Address := (node.host, node.bindPort)

/-- A peer that the node connects to. -/
def outgoing (conn : ℕ) (address : Address) : PeerEntry where
  conn
  host := address.1
  port := address.2
  bindPort := address.2
  connState := .connecting

/-- `check_peer_connection`, with the socket that `new_node` makes if it is called. -/
def checkPeerConnection (isLocal : Text → Bool) (bindPort : ℤ) (conn : ℕ) (address : Address)
    (peers : List PeerEntry) : List PeerEntry :=
  if isLocal address.1 = true ∧ address.2 = bindPort then peers
  else match peers.find? fun node => node.address == address with
  | some node =>
    if node.connState = .connecting ∨ node.connState = .connected then peers
    else peers.map fun other => if other.conn = node.conn then
        { other with bindPort := other.port, connState := .connecting } else other
  | none => peers ++ [outgoing conn address]

/-- `on_peer_list_received`; each address is with the socket for it. -/
def onPeerListReceived (isLocal : Text → Bool) (bindPort : ℤ) (list : List (ℕ × Address))
    (peers : List PeerEntry) : List PeerEntry :=
  list.foldl (fun peers item => checkPeerConnection isLocal bindPort item.1 item.2 peers) peers

/-- `send_peer_list`: the messages, each with the socket it is sent on. -/
def sendPeerList (toNode : PeerEntry) (peers : List PeerEntry) : List (ℕ × List Address) :=
  let others := peers.filter fun node =>
    node.isAuthorized && node.conn != toNode.conn && decide (0 < node.bindPort)
  let list := (others.filter fun node => decide (toNode.id < node.id)).map PeerEntry.address
  let told := (others.filter fun node => decide (node.id ≤ toNode.id)).map fun node =>
    (node.conn, [toNode.address])
  told ++ if list = [] then [] else [(toNode.conn, list)]

/-- What `on_node_identification` notes of a peer whose signature is verified, and what is sent if
it is accepted: a node that has another connection is not (`check_new_identified_node`).  The ids
in `list` are authorized. -/
def onPeerIdentified (list : List ℤ) (conn : ℕ) (id port : ℤ) (peers : List PeerEntry) :
    List PeerEntry × List (ℕ × List Address) :=
  let identified := peers.map fun node => if node.conn = conn then
    { node with id, bindPort := port, isAuthorized := list.contains id } else node
  (identified,
    if (peers.any fun node => node.conn != conn && node.id == id) then []
    else match identified.find? fun node => node.conn == conn && node.isAuthorized with
    | some node => sendPeerList node identified
    | none => [])

/-- What `on_new_authorization` notes of the peers with an id that is added to the list: the last
of them is accepted. -/
def onPeerAuthorized (id : ℤ) (peers : List PeerEntry) :
    List PeerEntry × List (ℕ × List Address) :=
  let marked := peers.map fun node => if node.id = id then { node with isAuthorized := true }
    else node
  (marked,
    match (marked.filter fun node => node.id == id).getLast? with
    | some node => sendPeerList node marked
    | none => [])

/-! ## The nodes -/

/-- A list of addresses on the way, with the socket it is sent on. -/
structure PeerList where
  sender : ℤ
  conn : ℕ
  list : List Address
  deriving DecidableEq, Repr

/-- The nodes, by their ids: what each has as peers, which ids are on its list of authorizations,
and what is on the way. -/
structure Mesh where
  peers : ℤ → List PeerEntry
  lists : ℤ → List ℤ
  inFlight : List PeerList

/-- The addresses of the nodes, which each node tells from its own, and the nodes at the two ends
of a socket; the first is the one that connects. -/
structure MeshNet where
  address : ℤ → Address
  isLocal : ℤ → Text → Bool
  ends : ℕ → ℤ × ℤ
  port_pos : ∀ x, 0 < (address x).2
  isLocal_iff : ∀ x y, isLocal x (address y).1 = true ∧ (address y).2 = (address x).2 ↔ y = x

/-- The nodes have different addresses. -/
theorem MeshNet.address_injective (net : MeshNet) {x y : ℤ} (h : net.address x = net.address y) :
    x = y := by
  have hlocal := (net.isLocal_iff y y).2 rfl
  rw [← h] at hlocal
  exact (net.isLocal_iff y x).1 ⟨hlocal.1, congrArg Prod.snd h⟩

namespace Mesh

/-- The node at the other end. -/
def far (net : MeshNet) (x : ℤ) (conn : ℕ) : ℤ :=
  if (net.ends conn).1 = x then (net.ends conn).2 else (net.ends conn).1

/-- A node has changed its peers, and sends some lists. -/
def send (x : ℤ) (result : List PeerEntry × List (ℕ × List Address)) (s : Mesh) : Mesh :=
  { s with
    peers := Function.update s.peers x result.1
    inFlight := s.inFlight ++ result.2.map fun msg => ⟨x, msg.1, msg.2⟩ }

/-- What can happen. -/
inductive Action
  /-- A node finds the address of another (`start_node_discovery`, `on_find_node_response`). -/
  | found (conn : ℕ)
  /-- A connection is made, from a port. -/
  | connected (conn : ℕ) (port : ℤ)
  | identified (x : ℤ) (conn : ℕ)
  | authorized (x id : ℤ)
  /-- A list arrives, with the sockets for its addresses. -/
  | received (msg : PeerList) (conns : List ℕ)
  | closed (conn : ℕ)
  /-- A node stops, and its connections are closed. -/
  | stopped (x : ℤ)

/-- What the nodes do then. -/
def step (net : MeshNet) (s : Mesh) : Action → Option Mesh
  | .found conn =>
      let (x, y) := net.ends conn
      some { s with peers := Function.update s.peers x (checkPeerConnection (net.isLocal x)
        (net.address x).2 conn (net.address y) (s.peers x)) }
  | .connected conn port =>
      let (x, y) := net.ends conn
      if (s.peers x).any fun node => node.conn == conn && node.connState == .connecting then
        let peers := Function.update s.peers x ((s.peers x).map fun node =>
          if node.conn = conn then { node with connState := .connected } else node)
        some { s with peers := Function.update peers y (peers y ++ [{
          conn
          host := (net.address x).1
          port
          connState := .connected }]) }
      else none
  | .identified x conn =>
      let y := far net x conn
      if 0 < y ∧ ((s.peers x).any fun node => node.conn == conn && node.connState == .connected) ∧
          (s.peers x).all fun node => node.conn != conn || node.id == 0 then
        some (s.send x (onPeerIdentified (s.lists x) conn y (net.address y).2 (s.peers x)))
      else none
  | .authorized x id =>
      if 0 < id then
        some { s.send x (onPeerAuthorized id (s.peers x)) with
          lists := Function.update s.lists x (s.lists x ++ [id]) }
      else none
  | .received msg conns =>
      let x := far net msg.sender msg.conn
      if msg ∈ s.inFlight ∧ ((s.peers x).any fun node => node.conn == msg.conn) ∧
          conns.map (fun conn => (net.ends conn).1) = msg.list.map (fun _ => x) ∧
          conns.map (fun conn => net.address (net.ends conn).2) = msg.list then
        some { s with
          peers := Function.update s.peers x (onPeerListReceived (net.isLocal x) (net.address x).2
            (conns.map fun conn => (conn, net.address (net.ends conn).2)) (s.peers x))
          inFlight := s.inFlight.erase msg }
      else none
  | .closed conn =>
      some { s with
        peers := fun x => (s.peers x).filter fun node => node.conn != conn
        inFlight := s.inFlight.filter fun msg => msg.conn != conn }
  | .stopped x =>
      some { s with
        peers := fun y => if y = x then []
          else (s.peers y).filter fun node => far net y node.conn != x
        inFlight := s.inFlight.filter fun msg =>
          msg.sender != x && far net msg.sender msg.conn != x }

/-- A node has accepted another one. -/
def Accepts (s : Mesh) (x y : ℤ) : Prop :=
  ∃ node ∈ s.peers x, node.isAuthorized = true ∧ node.id = y

/-- A connection is only closed if no list is on the way on it, and the one of the two nodes that
connects has another connection to the other, or no node has accepted both. -/
def Steady (net : MeshNet) (s : Mesh) (a : Action) : Prop :=
  ∀ conn, a = .closed conn → (∀ msg ∈ s.inFlight, msg.conn ≠ conn) ∧
    ∀ x y, x < y → net.ends conn = (x, y) ∨ net.ends conn = (y, x) →
      (∃ node ∈ s.peers x, node.conn ≠ conn ∧ node.address = net.address y) ∨
        ∀ z, ¬(s.Accepts z x ∧ s.Accepts z y)

/-- The nodes as they start. -/
def Fresh (s : Mesh) : Prop := (∀ x, s.peers x = []) ∧ s.inFlight = []

/-- The nodes as a transition system. -/
def system (net : MeshNet) : System Mesh Action := .ofStep Fresh (step net)

/-- Nothing is on the way: all lists have arrived, and every peer is connected and accepted. -/
def Settled (s : Mesh) : Prop :=
  s.inFlight = [] ∧ ∀ x, ∀ node ∈ s.peers x, node.connState = .connected ∧ node.isAuthorized = true

/-! ## What holds of the lists of peers -/

variable {net : MeshNet} {s t : Mesh} {x y z : ℤ}

/-- What is noted of a peer is of the node at the other end. -/
structure Fits (net : MeshNet) (list : List ℤ) (x : ℤ) (node : PeerEntry) : Prop where
  ends : (net.ends node.conn).1 = x ∨ (net.ends node.conn).2 = x
  host : node.host = (net.address (far net x node.conn)).1
  bindPort : node.bindPort = (net.address (far net x node.conn)).2 ∨ node.bindPort = 0 ∧ node.id = 0
  state : node.connState = .connecting ∨ node.connState = .connected
  id : node.id = 0 ∨ 0 < node.id ∧ node.id = far net x node.conn
  authorized : node.isAuthorized = true ↔ node.id ≠ 0 ∧ node.id ∈ list

/-- A node is told the address of another one. -/
def Told (net : MeshNet) (msgs : List PeerList) (z x y : ℤ) : Prop :=
  ∃ msg ∈ msgs, msg.sender = z ∧ far net z msg.conn = x ∧ net.address y ∈ msg.list

/-- What is missing is on the way. -/
structure Meshed (net : MeshNet) (s : Mesh) : Prop where
  fits : ∀ x, ∀ node ∈ s.peers x, Fits net (s.lists x) x node
  both : ∀ x, ∀ node ∈ s.peers x, node.connState = .connected →
    ∃ other ∈ s.peers (far net x node.conn), other.conn = node.conn
  told : ∀ x, ∀ node ∈ s.peers x, ∀ other ∈ s.peers x, node.isAuthorized = true →
    other.isAuthorized = true → node.id < other.id → Told net s.inFlight x node.id other.id ∨
      ∃ known ∈ s.peers node.id, known.address = net.address other.id

theorem ends_far {conn : ℕ} (h : (net.ends conn).1 = x ∨ (net.ends conn).2 = x) :
    net.ends conn = (x, far net x conn) ∨ net.ends conn = (far net x conn, x) := by
  unfold far
  split_ifs with hone
  · exact .inl (Prod.ext hone rfl)
  · exact .inr (Prod.ext rfl (h.resolve_left hone))

theorem far_far {conn : ℕ} (h : (net.ends conn).1 = x ∨ (net.ends conn).2 = x) :
    far net (far net x conn) conn = x := by
  rcases ends_far h with hends | hends
  · generalize far net x conn = y at hends ⊢
    unfold far
    rw [hends]
    dsimp only
    split_ifs with hxy
    · exact hxy.symm
    · rfl
  · generalize far net x conn = y at hends ⊢
    unfold far
    rw [hends, if_pos rfl]

namespace Fits

variable {list : List ℤ} {node : PeerEntry}

theorem far_eq (h : Fits net list x node) (hauth : node.isAuthorized = true) :
    far net x node.conn = node.id :=
  (h.id.resolve_left (h.authorized.1 hauth).1).2.symm

/-- The address of a peer that is accepted. -/
theorem address_eq (h : Fits net list x node) (hauth : node.isAuthorized = true) :
    node.address = net.address node.id := by
  rw [← h.far_eq hauth]
  exact Prod.ext h.host (h.bindPort.resolve_right fun hzero => (h.authorized.1 hauth).1 hzero.2)

/-- A peer that is known under the address of a node is that node. -/
theorem far_of_address (h : Fits net list x node) (haddress : node.address = net.address y) :
    far net x node.conn = y := by
  have hport : node.bindPort = (net.address y).2 := congrArg Prod.snd haddress
  have hpos := net.port_pos y
  refine net.address_injective (Eq.trans (Prod.ext h.host.symm ?_) haddress)
  exact (h.bindPort.resolve_right fun hzero => by omega).symm

/-- A node that is connected to. -/
theorem outgoing (list : List ℤ) {conn : ℕ} (h : (net.ends conn).1 = x) :
    Fits net list x (outgoing conn (net.address (net.ends conn).2)) := by
  have hfar : far net x conn = (net.ends conn).2 := if_pos h
  refine ⟨.inl h, ?_, .inl ?_, .inl rfl, .inl rfl, by simp [NoLeader.outgoing]⟩
  · exact congrArg (fun y => (net.address y).1) hfar.symm
  · exact congrArg (fun y => (net.address y).2) hfar.symm

end Fits

/-- `check_peer_connection` adds a peer, or there is one with the address, or it is the own. -/
theorem checkPeerConnection_cases {isLocal : Text → Bool} {bindPort : ℤ} {conn : ℕ}
    {address : Address} {peers : List PeerEntry}
    (hstate : ∀ node ∈ peers, node.connState = .connecting ∨ node.connState = .connected) :
    checkPeerConnection isLocal bindPort conn address peers = peers ∧
        ((isLocal address.1 = true ∧ address.2 = bindPort) ∨
          ∃ node ∈ peers, node.address = address) ∨
      checkPeerConnection isLocal bindPort conn address peers =
        peers ++ [outgoing conn address] := by
  unfold checkPeerConnection
  by_cases hlocal : isLocal address.1 = true ∧ address.2 = bindPort
  · exact .inl ⟨if_pos hlocal, .inl hlocal⟩
  rw [if_neg hlocal]
  cases hfind : peers.find? fun node => node.address == address with
  | none => exact .inr rfl
  | some node =>
      have hmem := List.mem_of_find?_eq_some hfind
      have haddress := List.find?_some hfind
      exact .inl ⟨if_pos (hstate node hmem), .inr ⟨node, hmem, beq_iff_eq.1 haddress⟩⟩

/-- **`on_peer_list_received`** leaves the peers there are, and connects to each node of the list
that is not this one. -/
theorem onPeerListReceived_spec {conns : List ℕ} {peers : List PeerEntry}
    (hstate : ∀ node ∈ peers, node.connState = .connecting ∨ node.connState = .connected) :
    let q := onPeerListReceived (net.isLocal x) (net.address x).2
      (conns.map fun conn => (conn, net.address (net.ends conn).2)) peers
    (∀ node ∈ peers, node ∈ q) ∧
    (∀ node ∈ q, node ∈ peers ∨
      ∃ conn ∈ conns, node = outgoing conn (net.address (net.ends conn).2)) ∧
    ∀ conn ∈ conns, (net.ends conn).2 ≠ x →
      ∃ node ∈ q, node.address = net.address (net.ends conn).2 := by
  induction conns generalizing peers with
  | nil => exact ⟨fun _ h => h, fun _ h => .inl h, by simp⟩
  | cons conn conns ih =>
      have hcons : onPeerListReceived (net.isLocal x) (net.address x).2
          ((conn :: conns).map fun conn => (conn, net.address (net.ends conn).2)) peers =
          onPeerListReceived (net.isLocal x) (net.address x).2
            (conns.map fun conn => (conn, net.address (net.ends conn).2))
            (checkPeerConnection (net.isLocal x) (net.address x).2 conn
              (net.address (net.ends conn).2) peers) := rfl
      dsimp only
      rw [hcons]
      rcases @checkPeerConnection_cases (net.isLocal x) (net.address x).2 conn
        (net.address (net.ends conn).2) peers hstate with ⟨heq, hknown⟩ | heq
      · rw [heq]
        obtain ⟨hkept, honly, hadded⟩ := ih hstate
        refine ⟨hkept, fun node hnode => (honly node hnode).imp_right ?_, ?_⟩
        · exact fun ⟨c, hc, h⟩ => ⟨c, List.mem_cons_of_mem _ hc, h⟩
        · refine List.forall_mem_cons.2 ⟨fun hne => ?_, hadded⟩
          obtain ⟨node, hnode, haddress⟩ :=
            hknown.resolve_left fun hlocal => hne ((net.isLocal_iff x _).1 hlocal)
          exact ⟨node, hkept node hnode, haddress⟩
      · rw [heq]
        have hstate' : ∀ node ∈ peers ++ [outgoing conn (net.address (net.ends conn).2)],
            node.connState = .connecting ∨ node.connState = .connected := by
          intro node hnode
          rcases List.mem_append.1 hnode with hnode | hnode
          · exact hstate node hnode
          · exact .inl (List.mem_singleton.1 hnode ▸ rfl)
        obtain ⟨hkept, honly, hadded⟩ := ih hstate'
        refine ⟨fun node hnode => hkept node (List.mem_append_left _ hnode),
          fun node hnode => ?_, ?_⟩
        · rcases honly node hnode with hold | ⟨c, hc, h⟩
          · rcases List.mem_append.1 hold with hold | hnew
            · exact .inl hold
            · exact .inr ⟨conn, List.mem_cons_self, List.mem_singleton.1 hnew⟩
          · exact .inr ⟨c, List.mem_cons_of_mem _ hc, h⟩
        · refine List.forall_mem_cons.2 ⟨fun _ => ?_, hadded⟩
          exact ⟨_, hkept _ (List.mem_append_right _ (List.mem_singleton_self _)), rfl⟩

/-- **`send_peer_list`** tells the one of two accepted peers that has the smaller id the address of
the other. -/
theorem told_sendPeerList {list : List ℤ} {peers : List PeerEntry}
    (hfits : ∀ node ∈ peers, Fits net list x node) {toNode other : PeerEntry}
    (hto : toNode ∈ peers) (hother : other ∈ peers) (hauth : toNode.isAuthorized = true)
    (hauth' : other.isAuthorized = true) :
    let msgs := (sendPeerList toNode peers).map fun msg => (⟨x, msg.1, msg.2⟩ : PeerList)
    (other.id < toNode.id → Told net msgs x other.id toNode.id) ∧
      (toNode.id < other.id → Told net msgs x toNode.id other.id) := by
  have hfar := (hfits toNode hto).far_eq hauth
  have hfar' := (hfits other hother).far_eq hauth'
  have haddress := (hfits toNode hto).address_eq hauth
  have haddress' := (hfits other hother).address_eq hauth'
  have hport : 0 < other.bindPort := by
    have hbind : other.bindPort = (net.address other.id).2 := congrArg Prod.snd haddress'
    exact hbind ▸ net.port_pos other.id
  have hmem : toNode.id ≠ other.id → other ∈ peers.filter fun node =>
      node.isAuthorized && node.conn != toNode.conn && decide (0 < node.bindPort) := by
    intro hne
    have hconn : other.conn ≠ toNode.conn := fun heq => hne (by rw [← hfar, ← hfar', heq])
    refine List.mem_filter.2 ⟨hother, ?_⟩
    simp [hauth', hconn, hport]
  refine ⟨fun hlt => ?_, fun hlt => ?_⟩
  · refine ⟨⟨x, other.conn, [toNode.address]⟩,
      List.mem_map.2 ⟨(other.conn, [toNode.address]), ?_, rfl⟩,
      rfl, hfar', haddress ▸ List.mem_singleton_self _⟩
    refine List.mem_append_left _ (List.mem_map.2 ⟨other, List.mem_filter.2 ⟨?_, ?_⟩, rfl⟩)
    · exact hmem (Int.ne_of_gt hlt)
    · exact decide_eq_true (Int.le_of_lt hlt)
  · unfold sendPeerList
    dsimp only
    have hin : other.address ∈ ((peers.filter fun node =>
        node.isAuthorized && node.conn != toNode.conn && decide (0 < node.bindPort)).filter
          fun node => decide (toNode.id < node.id)).map PeerEntry.address :=
      List.mem_map_of_mem (List.mem_filter.2 ⟨hmem (Int.ne_of_lt hlt), decide_eq_true hlt⟩)
    rw [if_neg (List.ne_nil_of_mem hin)]
    exact ⟨_, List.mem_map_of_mem (List.mem_append_right _ (List.mem_singleton_self _)), rfl, hfar,
      haddress' ▸ hin⟩

/-! ## Steps -/

/-- **One node changes its peers**: the sockets and the addresses of those it had are kept, and
whoever it accepts newly is told of. -/
theorem Meshed.update (h : s.Meshed net) {q : List PeerEntry}
    (hpeers : t.peers = Function.update s.peers x q)
    (hlists : ∀ y, y ≠ x → t.lists y = s.lists y)
    (hfits : ∀ node ∈ q, Fits net (t.lists x) x node)
    (hconn : ∀ node ∈ s.peers x, ∃ other ∈ q, other.conn = node.conn)
    (hstate : ∀ node ∈ q, node.connState = .connected →
      ∃ old ∈ s.peers x, old.conn = node.conn ∧ old.connState = .connected)
    (hknown : ∀ node ∈ s.peers x, ∀ y, node.address = net.address y →
      ∃ other ∈ q, other.address = net.address y)
    (hmsgs : ∀ z a b, a ≠ b → Told net s.inFlight z a b → Told net t.inFlight z a b ∨
      a = x ∧ ∃ node ∈ q, node.address = net.address b)
    (htold : ∀ node ∈ q, ∀ other ∈ q, node.isAuthorized = true → other.isAuthorized = true →
      node.id < other.id → s.Accepts x node.id ∧ s.Accepts x other.id ∨
        Told net t.inFlight x node.id other.id) : t.Meshed net := by
  have hself : t.peers x = q := by rw [hpeers, Function.update_self]
  have hother : ∀ {y}, y ≠ x → t.peers y = s.peers y := by
    intro y hne
    rw [hpeers, Function.update_of_ne hne]
  -- the sockets and the addresses of the peers are kept at every node
  have hconns : ∀ y, ∀ node ∈ s.peers y, ∃ other ∈ t.peers y, other.conn = node.conn := by
    intro y node hnode
    by_cases hy : y = x
    · subst hy
      exact hself.symm ▸ hconn node hnode
    · exact ⟨node, (hother hy).symm ▸ hnode, rfl⟩
  have hknowns : ∀ y b, (∃ node ∈ s.peers y, node.address = net.address b) →
      ∃ node ∈ t.peers y, node.address = net.address b := by
    rintro y b ⟨node, hnode, haddress⟩
    by_cases hy : y = x
    · subst hy
      exact hself.symm ▸ hknown node hnode b haddress
    · exact ⟨node, (hother hy).symm ▸ hnode, haddress⟩
  have hmissing : ∀ z a b, a < b → (Told net s.inFlight z a b ∨
      ∃ node ∈ s.peers a, node.address = net.address b) → Told net t.inFlight z a b ∨
        ∃ node ∈ t.peers a, node.address = net.address b := by
    rintro z a b hlt (hmsg | hmem)
    · refine (hmsgs z a b (Int.ne_of_lt hlt) hmsg).imp_right ?_
      rintro ⟨rfl, hmem⟩
      exact hself.symm ▸ hmem
    · exact .inr (hknowns a b hmem)
  have haccepted : ∀ z a b, a < b → s.Accepts z a → s.Accepts z b → Told net t.inFlight z a b ∨
      ∃ node ∈ t.peers a, node.address = net.address b := by
    rintro z _ _ hlt ⟨node, hnode, hauth, rfl⟩ ⟨other, hother, hauth', rfl⟩
    exact hmissing z _ _ hlt (h.told z node hnode other hother hauth hauth' hlt)
  refine ⟨fun y node hnode => ?_, fun y node hnode hconnected => ?_,
    fun y node hnode other hin hauth hauth' hlt => ?_⟩
  · by_cases hy : y = x
    · subst hy
      exact hfits node (hself ▸ hnode)
    · exact hlists y hy ▸ h.fits y node (hother hy ▸ hnode)
  · have hold : ∃ old ∈ s.peers y, old.conn = node.conn ∧ old.connState = .connected := by
      by_cases hy : y = x
      · subst hy
        exact hstate node (hself ▸ hnode) hconnected
      · exact ⟨node, hother hy ▸ hnode, rfl, hconnected⟩
    obtain ⟨old, hold, hconn, hconnected⟩ := hold
    obtain ⟨mate, hmate, heq⟩ := h.both y old hold hconnected
    rw [hconn] at hmate heq
    obtain ⟨mate', hmate', heq'⟩ := hconns _ mate hmate
    exact ⟨mate', hmate', heq'.trans heq⟩
  · by_cases hy : y = x
    · subst hy
      rw [hself] at hnode hin
      rcases htold node hnode other hin hauth hauth' hlt with hold | hmsg
      · exact haccepted y _ _ hlt hold.1 hold.2
      · exact .inl hmsg
    · rw [hother hy] at hnode hin
      exact haccepted y _ _ hlt ⟨node, hnode, hauth, rfl⟩ ⟨other, hin, hauth', rfl⟩

/-- Addresses are found or arrive. -/
theorem Meshed.listReceived (h : s.Meshed net) {conns : List ℕ}
    (hpeers : t.peers = Function.update s.peers x (onPeerListReceived (net.isLocal x)
      (net.address x).2 (conns.map fun conn => (conn, net.address (net.ends conn).2)) (s.peers x)))
    (hlists : t.lists = s.lists) (hconns : ∀ conn ∈ conns, (net.ends conn).1 = x)
    (hmsgs : ∀ z a b, a ≠ b → Told net s.inFlight z a b → Told net t.inFlight z a b ∨
      a = x ∧ ∃ conn ∈ conns, net.address (net.ends conn).2 = net.address b) : t.Meshed net := by
  obtain ⟨hkept, honly, hadded⟩ :=
    @onPeerListReceived_spec net x conns (s.peers x) fun node hnode => (h.fits x node hnode).state
  have hauth : ∀ node ∈ onPeerListReceived (net.isLocal x) (net.address x).2
      (conns.map fun conn => (conn, net.address (net.ends conn).2)) (s.peers x),
      node.isAuthorized = true → node ∈ s.peers x := by
    intro node hnode hauth
    refine (honly node hnode).resolve_right ?_
    rintro ⟨conn, -, rfl⟩
    simp [outgoing] at hauth
  refine h.update hpeers (fun y _ => congrFun hlists y) (fun node hnode => ?_)
    (fun node hnode => ⟨node, hkept node hnode, rfl⟩) (fun node hnode hconnected => ?_)
    (fun node hnode y haddress => ⟨node, hkept node hnode, haddress⟩)
    (fun z a b hne hmsg => ?_) fun node hnode other hother hnodeAuth hotherAuth _ => .inl
      ⟨⟨node, hauth node hnode hnodeAuth, hnodeAuth, rfl⟩,
        ⟨other, hauth other hother hotherAuth, hotherAuth, rfl⟩⟩
  · rw [hlists]
    rcases honly node hnode with hold | ⟨conn, hconn, rfl⟩
    · exact h.fits x node hold
    · exact Fits.outgoing _ (hconns conn hconn)
  · rcases honly node hnode with hold | ⟨conn, hconn, rfl⟩
    · exact ⟨node, hold, rfl, hconnected⟩
    · simp [outgoing] at hconnected
  · refine (hmsgs z a b hne hmsg).imp_right ?_
    rintro ⟨rfl, conn, hconn, haddress⟩
    obtain rfl := net.address_injective haddress
    exact ⟨rfl, hadded conn hconn hne.symm⟩

/-- Messages are sent. -/
theorem told_append {msgs : List PeerList} (more : List PeerList) {a b : ℤ}
    (h : Told net msgs z a b) : Told net (msgs ++ more) z a b := by
  obtain ⟨msg, hmsg, hrest⟩ := h
  exact ⟨msg, List.mem_append_left _ hmsg, hrest⟩

theorem told_append_right (msgs : List PeerList) {more : List PeerList} {a b : ℤ}
    (h : Told net more z a b) : Told net (msgs ++ more) z a b := by
  obtain ⟨msg, hmsg, hrest⟩ := h
  exact ⟨msg, List.mem_append_right _ hmsg, hrest⟩

section identified

variable {list : List ℤ} {peers : List PeerEntry} {conn : ℕ}

/-- What is noted of the node at the other end fits, and nothing else changes. -/
theorem onPeerIdentified_peers (hfits : ∀ node ∈ peers, Fits net list x node)
    (hpos : 0 < far net x conn) :
    ∀ node ∈ (onPeerIdentified list conn (far net x conn) (net.address (far net x conn)).2 peers).1,
      ∃ old ∈ peers, old.conn = node.conn ∧ old.connState = node.connState ∧
        Fits net list x node ∧
        (node.conn ≠ conn ∧ node = old ∨ node.conn = conn ∧ node.id = far net x conn) := by
  intro node hnode
  obtain ⟨old, hold, rfl⟩ := List.mem_map.1 hnode
  have hold' := hfits old hold
  refine ⟨old, hold, ?_⟩
  split_ifs with hconn
  · refine ⟨rfl, rfl, ⟨hold'.ends, hold'.host, .inl ?_, hold'.state, .inr ⟨hpos, ?_⟩, ?_⟩,
      .inr ⟨hconn, rfl⟩⟩
    · exact congrArg (fun c => (net.address (far net x c)).2) hconn.symm
    · exact congrArg (far net x) hconn.symm
    · have hne : far net x conn ≠ 0 := by omega
      simp [hne]
  · exact ⟨rfl, rfl, hold', .inl ⟨hconn, rfl⟩⟩

/-- If a node that is authorized has no other connection, its list is sent. -/
theorem onPeerIdentified_sends {id port : ℤ} (hdup : ¬ (peers.any fun node =>
    node.conn != conn && node.id == id) = true) {new : PeerEntry}
    (hnew : new ∈ (onPeerIdentified list conn id port peers).1) (hconn : new.conn = conn)
    (hauth : new.isAuthorized = true) :
    ∃ toNode ∈ (onPeerIdentified list conn id port peers).1, toNode.conn = conn ∧
      toNode.isAuthorized = true ∧ (onPeerIdentified list conn id port peers).2 =
        sendPeerList toNode (onPeerIdentified list conn id port peers).1 := by
  have hsome : ((onPeerIdentified list conn id port peers).1.find?
      fun node => node.conn == conn && node.isAuthorized).isSome := by
    rw [List.find?_isSome]
    exact ⟨new, hnew, by simp [hconn, hauth]⟩
  obtain ⟨toNode, hto⟩ := Option.isSome_iff_exists.1 hsome
  have hcheck := List.find?_some hto
  simp only [Bool.and_eq_true, beq_iff_eq] at hcheck
  refine ⟨toNode, List.mem_of_find?_eq_some hto, hcheck.1, hcheck.2, ?_⟩
  unfold onPeerIdentified at hto ⊢
  dsimp only at hto ⊢
  rw [if_neg hdup, hto]

/-- **A peer is identified.** -/
theorem Meshed.identified (h : s.Meshed net) (hpos : 0 < far net x conn) :
    (s.send x (onPeerIdentified (s.lists x) conn (far net x conn)
      (net.address (far net x conn)).2 (s.peers x))).Meshed net := by
  have hchanged := onPeerIdentified_peers (h.fits x) hpos
  have hfits : ∀ node ∈ (onPeerIdentified (s.lists x) conn (far net x conn)
      (net.address (far net x conn)).2 (s.peers x)).1, Fits net (s.lists x) x node := by
    intro node hnode
    obtain ⟨-, -, -, -, hfits, -⟩ := hchanged node hnode
    exact hfits
  refine h.update rfl (fun _ _ => rfl) hfits (fun node hnode => ?_)
    (fun node hnode hconnected => ?_) (fun node hnode y haddress => ?_)
    (fun z a b _ hmsg => .inl (told_append _ hmsg))
    fun node hnode other hother hauth hauth' hlt => ?_
  · refine ⟨_, List.mem_map_of_mem hnode, ?_⟩
    split_ifs <;> rfl
  · obtain ⟨old, hold, hconn, hstate, -⟩ := hchanged node hnode
    exact ⟨old, hold, hconn, hstate.trans hconnected⟩
  · refine ⟨_, List.mem_map_of_mem hnode, ?_⟩
    split_ifs with hconn
    · have hhost : node.host = (net.address y).1 := congrArg Prod.fst haddress
      have hfar := (h.fits x node hnode).far_of_address haddress
      rw [hconn] at hfar
      rw [hfar]
      exact Prod.ext hhost rfl
    · exact haddress
  · obtain ⟨old, hold, -, -, -, hcase⟩ := hchanged node hnode
    obtain ⟨old', hold', -, -, -, hcase'⟩ := hchanged other hother
    have hin := ((hfits node hnode).authorized.1 hauth).2
    have hin' := ((hfits other hother).authorized.1 hauth').2
    by_cases hdup : (s.peers x).any (fun node => node.conn != conn && node.id == far net x conn)
    · -- the node has another connection, which has been accepted before
      obtain ⟨dup, hdup, heq⟩ := List.any_eq_true.1 hdup
      simp only [Bool.and_eq_true, bne_iff_ne, ne_eq, beq_iff_eq] at heq
      have haccepted : far net x conn ∈ s.lists x → s.Accepts x (far net x conn) := by
        intro hin
        refine ⟨dup, hdup, (h.fits x dup hdup).authorized.2 ?_, heq.2⟩
        rw [heq.2]
        exact ⟨by omega, hin⟩
      refine .inl ⟨?_, ?_⟩
      · rcases hcase with ⟨-, rfl⟩ | ⟨-, hid⟩
        · exact ⟨node, hold, hauth, rfl⟩
        · exact hid ▸ haccepted (hid ▸ hin)
      · rcases hcase' with ⟨-, rfl⟩ | ⟨-, hid⟩
        · exact ⟨other, hold', hauth', rfl⟩
        · exact hid ▸ haccepted (hid ▸ hin')
    rcases hcase with ⟨-, rfl⟩ | ⟨hconn, -⟩
    · rcases hcase' with ⟨-, rfl⟩ | ⟨hconn, -⟩
      · exact .inl ⟨⟨node, hold, hauth, rfl⟩, ⟨other, hold', hauth', rfl⟩⟩
      · -- the other one is new
        obtain ⟨toNode, hto, htoConn, htoAuth, hsent⟩ :=
          onPeerIdentified_sends hdup hother hconn hauth'
        have hid : toNode.id = other.id := by
          rw [← (hfits toNode hto).far_eq htoAuth, ← (hfits other hother).far_eq hauth', htoConn,
            hconn]
        refine .inr (told_append_right _ ?_)
        rw [hsent, ← hid]
        exact (told_sendPeerList hfits hto hnode htoAuth hauth).1 (hid ▸ hlt)
    · obtain ⟨toNode, hto, htoConn, htoAuth, hsent⟩ := onPeerIdentified_sends hdup hnode hconn hauth
      have hid : toNode.id = node.id := by
        rw [← (hfits toNode hto).far_eq htoAuth, ← (hfits node hnode).far_eq hauth, htoConn, hconn]
      refine .inr (told_append_right _ ?_)
      rw [hsent, ← hid]
      exact (told_sendPeerList hfits hto hother htoAuth hauth').2 (hid ▸ hlt)

end identified

/-- **A node is authorized.** -/
theorem Meshed.authorized (h : s.Meshed net) {id : ℤ} (hpos : 0 < id) :
    ({ s.send x (onPeerAuthorized id (s.peers x)) with
      lists := Function.update s.lists x (s.lists x ++ [id]) } : Mesh).Meshed net := by
  have hfits : ∀ node ∈ (onPeerAuthorized id (s.peers x)).1,
      Fits net (s.lists x ++ [id]) x node := by
    intro node hnode
    obtain ⟨old, hold, rfl⟩ := List.mem_map.1 hnode
    have hold' := h.fits x old hold
    split_ifs with hid
    · refine ⟨hold'.ends, hold'.host, hold'.bindPort, hold'.state, hold'.id, ?_⟩
      have hne : id ≠ 0 := by omega
      simp [hid, hne]
    · refine ⟨hold'.ends, hold'.host, hold'.bindPort, hold'.state, hold'.id, ?_⟩
      rw [hold'.authorized, List.mem_append, List.mem_singleton, or_iff_left hid]
  -- who has the id is told of, and the others were accepted before
  have hsent : ∀ node ∈ (onPeerAuthorized id (s.peers x)).1, node.id = id →
      ∃ toNode ∈ (onPeerAuthorized id (s.peers x)).1, toNode.isAuthorized = true ∧ toNode.id = id ∧
        (onPeerAuthorized id (s.peers x)).2 =
          sendPeerList toNode (onPeerAuthorized id (s.peers x)).1 := by
    intro node hnode hid
    unfold onPeerAuthorized at hnode ⊢
    dsimp only at hnode ⊢
    have hmem := (List.mem_filter (p := fun node => node.id == id)).2 ⟨hnode, beq_iff_eq.2 hid⟩
    cases hlast : (((s.peers x).map fun node => if node.id = id then
        { node with isAuthorized := true } else node).filter
          fun node => node.id == id).getLast? with
    | none => exact absurd (List.getLast?_eq_none_iff.1 hlast) (List.ne_nil_of_mem hmem)
    | some toNode =>
        obtain ⟨hto, htoId⟩ := List.mem_filter.1 (List.mem_of_getLast? hlast)
        rw [beq_iff_eq] at htoId
        refine ⟨toNode, hto, ?_, htoId, rfl⟩
        obtain ⟨old, -, rfl⟩ := List.mem_map.1 hto
        split_ifs at htoId ⊢ with hold
        · rfl
        · exact absurd htoId hold
  have hold : ∀ node ∈ (onPeerAuthorized id (s.peers x)).1, node.isAuthorized = true →
      node.id ≠ id → s.Accepts x node.id := by
    intro node hnode hauth hid
    obtain ⟨old, hold, rfl⟩ := List.mem_map.1 hnode
    split_ifs at hauth hid ⊢ with heq
    · exact absurd heq hid
    · exact ⟨old, hold, hauth, rfl⟩
  refine h.update rfl (fun y hne => Function.update_of_ne hne _ _)
    (fun node hnode => ?_) (fun node hnode => ?_) (fun node hnode hconnected => ?_)
    (fun node hnode y haddress => ?_)
    (fun z a b _ hmsg => .inl (told_append _ hmsg))
    fun node hnode other hother hauth hauth' hlt => ?_
  · show Fits net (Function.update s.lists x (s.lists x ++ [id]) x) x node
    rw [Function.update_self]
    exact hfits node hnode
  · refine ⟨_, List.mem_map_of_mem hnode, ?_⟩
    split_ifs <;> rfl
  · obtain ⟨old, hold, rfl⟩ := List.mem_map.1 hnode
    refine ⟨old, hold, ?_⟩
    split_ifs at hconnected ⊢
    all_goals exact ⟨rfl, hconnected⟩
  · refine ⟨_, List.mem_map_of_mem hnode, ?_⟩
    split_ifs
    all_goals exact haddress
  · by_cases hid : node.id = id
    · subst hid
      obtain ⟨toNode, hto, htoAuth, htoId, heq⟩ := hsent node hnode rfl
      have hmsg := (told_sendPeerList hfits hto hother htoAuth hauth').2 (by omega)
      rw [htoId, ← heq] at hmsg
      exact .inr (told_append_right _ hmsg)
    by_cases hid' : other.id = id
    · subst hid'
      obtain ⟨toNode, hto, htoAuth, htoId, heq⟩ := hsent other hother rfl
      have hmsg := (told_sendPeerList hfits hto hnode htoAuth hauth).1 (by omega)
      rw [htoId, ← heq] at hmsg
      exact .inr (told_append_right _ hmsg)
    · exact .inl ⟨hold node hnode hauth hid, hold other hother hauth' hid'⟩

/-- **A connection is made.** -/
theorem Meshed.connected (h : s.Meshed net) {conn : ℕ} {port : ℤ} (hx : (net.ends conn).1 = x)
    (hy : (net.ends conn).2 = y) (hfound : ∃ node ∈ s.peers x, node.conn = conn)
    (hpeers : t.peers = Function.update (Function.update s.peers x ((s.peers x).map fun node =>
        if node.conn = conn then { node with connState := .connected } else node)) y
      (Function.update s.peers x ((s.peers x).map fun node =>
        if node.conn = conn then { node with connState := .connected } else node) y ++
        [{ conn, host := (net.address x).1, port, connState := .connected }]))
    (hlists : t.lists = s.lists) (hmsgs : t.inFlight = s.inFlight) : t.Meshed net := by
  have hfar : far net x conn = y := (if_pos hx).trans hy
  have hfar' : far net y conn = x := by
    rw [← hfar]
    exact far_far (.inl hx)
  -- each peer is one there was, perhaps connected now, or the new one
  have hchanged : ∀ z, ∀ node ∈ t.peers z, (∃ old ∈ s.peers z, node = old ∨
      z = x ∧ old.conn = conn ∧ node = { old with connState := .connected }) ∨
        z = y ∧ node = { conn, host := (net.address x).1, port, connState := .connected } := by
    intro z node hnode
    have hmap : ∀ node ∈ Function.update s.peers x ((s.peers x).map fun node =>
        if node.conn = conn then { node with connState := .connected } else node) z,
        ∃ old ∈ s.peers z, node = old ∨
          z = x ∧ old.conn = conn ∧ node = { old with connState := .connected } := by
      intro node hnode
      by_cases hz : z = x
      · subst hz
        rw [Function.update_self] at hnode
        obtain ⟨old, hold, rfl⟩ := List.mem_map.1 hnode
        refine ⟨old, hold, ?_⟩
        split_ifs with hconn
        · exact .inr ⟨rfl, hconn, rfl⟩
        · exact .inl rfl
      · rw [Function.update_of_ne hz] at hnode
        exact ⟨node, hnode, .inl rfl⟩
    rw [hpeers] at hnode
    by_cases hz : z = y
    · subst hz
      rw [Function.update_self] at hnode
      rcases List.mem_append.1 hnode with hnode | hnode
      · exact .inl (hmap node hnode)
      · exact .inr ⟨rfl, List.mem_singleton.1 hnode⟩
    · rw [Function.update_of_ne hz] at hnode
      exact .inl (hmap node hnode)
  have hkept : ∀ z, ∀ old ∈ s.peers z, ∃ node ∈ t.peers z, node.conn = old.conn ∧
      node.address = old.address := by
    intro z old hold
    have hmap : ∃ node ∈ Function.update s.peers x ((s.peers x).map fun node =>
        if node.conn = conn then { node with connState := .connected } else node) z,
        node.conn = old.conn ∧ node.address = old.address := by
      by_cases hz : z = x
      · subst hz
        rw [Function.update_self]
        refine ⟨_, List.mem_map_of_mem hold, ?_⟩
        split_ifs <;> exact ⟨rfl, rfl⟩
      · rw [Function.update_of_ne hz]
        exact ⟨old, hold, rfl, rfl⟩
    rw [hpeers]
    by_cases hz : z = y
    · subst hz
      rw [Function.update_self]
      obtain ⟨node, hnode, hrest⟩ := hmap
      exact ⟨node, List.mem_append_left _ hnode, hrest⟩
    · rwa [Function.update_of_ne hz]
  have hnew : ∃ node ∈ t.peers y, node.conn = conn := by
    rw [hpeers, Function.update_self]
    exact ⟨_, List.mem_append_right _ (List.mem_singleton_self _), rfl⟩
  have hauth : ∀ z, ∀ node ∈ t.peers z, node.isAuthorized = true →
      ∃ old ∈ s.peers z, old.isAuthorized = true ∧ old.id = node.id := by
    intro z node hnode hauth
    rcases hchanged z node hnode with ⟨old, hold, rfl | ⟨-, -, rfl⟩⟩ | ⟨-, rfl⟩
    · exact ⟨node, hold, hauth, rfl⟩
    · exact ⟨old, hold, hauth, rfl⟩
    · simp at hauth
  refine ⟨fun z node hnode => ?_, fun z node hnode hconnected => ?_,
    fun z node hnode other hother hnodeAuth hotherAuth hlt => ?_⟩
  · rw [hlists]
    rcases hchanged z node hnode with ⟨old, hold, rfl | ⟨-, -, rfl⟩⟩ | ⟨rfl, rfl⟩
    · exact h.fits z node hold
    · have hfits := h.fits z old hold
      exact ⟨hfits.ends, hfits.host, hfits.bindPort, .inr rfl, hfits.id, hfits.authorized⟩
    · refine ⟨.inr hy, ?_, .inr ⟨rfl, rfl⟩, .inr rfl, .inl rfl, by simp⟩
      exact congrArg (fun z => (net.address z).1) hfar'.symm
  · rcases hchanged z node hnode with ⟨old, hold, rfl | ⟨rfl, rfl, rfl⟩⟩ | ⟨rfl, rfl⟩
    · obtain ⟨mate, hmate, heq⟩ := h.both z node hold hconnected
      obtain ⟨mate', hmate', heq', -⟩ := hkept _ mate hmate
      exact ⟨mate', hmate', heq'.trans heq⟩
    · exact hfar ▸ hnew
    · obtain ⟨found, hfound, heq⟩ := hfound
      obtain ⟨mate, hmate, heq', -⟩ := hkept x found hfound
      exact ⟨mate, hfar'.symm ▸ hmate, heq'.trans heq⟩
  · obtain ⟨old, hold, holdAuth, hid⟩ := hauth z node hnode hnodeAuth
    obtain ⟨old', hold', holdAuth', hid'⟩ := hauth z other hother hotherAuth
    rw [← hid, ← hid'] at hlt ⊢
    refine hmsgs ▸ (h.told z old hold old' hold' holdAuth holdAuth' hlt).imp_right ?_
    rintro ⟨known, hknown, haddress⟩
    obtain ⟨known', hknown', -, heq⟩ := hkept _ known hknown
    exact ⟨known', hknown', heq.trans haddress⟩

/-- **A connection is closed** between nodes that have another one, or that no node has
accepted. -/
theorem Meshed.closed (h : s.Meshed net) {conn : ℕ} (hsteady : Steady net s (.closed conn)) :
    ({ s with
      peers := fun x => (s.peers x).filter fun node => node.conn != conn
      inFlight := s.inFlight.filter fun msg => msg.conn != conn } : Mesh).Meshed net := by
  obtain ⟨hmsgs, hpair⟩ := hsteady conn rfl
  refine ⟨fun x node hnode => h.fits x node (List.mem_filter.1 hnode).1,
    fun x node hnode hconnected => ?_, fun x node hnode other hother hauth hauth' hlt => ?_⟩
  · obtain ⟨hmem, hne⟩ := List.mem_filter.1 hnode
    obtain ⟨mate, hmate, heq⟩ := h.both x node hmem hconnected
    exact ⟨mate, List.mem_filter.2 ⟨hmate, heq.symm ▸ hne⟩, heq⟩
  · obtain ⟨hnode, -⟩ := List.mem_filter.1 hnode
    obtain ⟨hother, -⟩ := List.mem_filter.1 hother
    refine (h.told x node hnode other hother hauth hauth' hlt).imp ?_ ?_
    · rintro ⟨msg, hmsg, hrest⟩
      exact ⟨msg, List.mem_filter.2 ⟨hmsg, bne_iff_ne.2 (hmsgs msg hmsg)⟩, hrest⟩
    · rintro ⟨known, hknown, haddress⟩
      by_cases hconn : known.conn = conn
      · have hfits := h.fits _ known hknown
        have hends := ends_far hfits.ends
        rw [hfits.far_of_address haddress, hconn] at hends
        rcases hpair _ _ hlt hends with ⟨another, hanother, hne, haddress⟩ | hnone
        · exact ⟨another, List.mem_filter.2 ⟨hanother, bne_iff_ne.2 hne⟩, haddress⟩
        · exact absurd ⟨⟨node, hnode, hauth, rfl⟩, ⟨other, hother, hauth', rfl⟩⟩ (hnone x)
      · exact ⟨known, List.mem_filter.2 ⟨hknown, bne_iff_ne.2 hconn⟩, haddress⟩

/-- **A node stops.** -/
theorem Meshed.stopped (h : s.Meshed net) (x : ℤ) :
    ({ s with
      peers := fun y => if y = x then []
        else (s.peers y).filter fun node => far net y node.conn != x
      inFlight := s.inFlight.filter fun msg =>
        msg.sender != x && far net msg.sender msg.conn != x } : Mesh).Meshed net := by
  -- what is left is of other nodes
  have hleft : ∀ y, ∀ node ∈ (if y = x then []
      else (s.peers y).filter fun node => far net y node.conn != x),
        y ≠ x ∧ node ∈ s.peers y ∧ far net y node.conn ≠ x := by
    intro y node hnode
    split_ifs at hnode with hy
    · simp at hnode
    · obtain ⟨hmem, hne⟩ := List.mem_filter.1 hnode
      exact ⟨hy, hmem, bne_iff_ne.1 hne⟩
  have hkept : ∀ y, ∀ node ∈ s.peers y, y ≠ x → far net y node.conn ≠ x →
      node ∈ (if y = x then []
        else (s.peers y).filter fun node => far net y node.conn != x) := by
    intro y node hnode hy hne
    rw [if_neg hy]
    exact List.mem_filter.2 ⟨hnode, bne_iff_ne.2 hne⟩
  refine ⟨fun y node hnode => h.fits y node (hleft y node hnode).2.1,
    fun y node hnode hconnected => ?_, fun y node hnode other hother hauth hauth' hlt => ?_⟩
  · obtain ⟨hy, hmem, hne⟩ := hleft y node hnode
    obtain ⟨mate, hmate, heq⟩ := h.both y node hmem hconnected
    refine ⟨mate, hkept _ mate hmate hne ?_, heq⟩
    rw [heq, far_far (h.fits y node hmem).ends]
    exact hy
  · obtain ⟨hy, hnode, hne⟩ := hleft y node hnode
    obtain ⟨-, hother, hne'⟩ := hleft y other hother
    rw [(h.fits y node hnode).far_eq hauth] at hne
    rw [(h.fits y other hother).far_eq hauth'] at hne'
    refine (h.told y node hnode other hother hauth hauth' hlt).imp ?_ ?_
    · rintro ⟨msg, hmsg, rfl, hfar, hin⟩
      refine ⟨msg, List.mem_filter.2 ⟨hmsg, ?_⟩, rfl, hfar, hin⟩
      rw [Bool.and_eq_true, bne_iff_ne, bne_iff_ne, hfar]
      exact ⟨hy, hne⟩
    · rintro ⟨known, hknown, haddress⟩
      refine ⟨known, hkept _ known hknown hne ?_, haddress⟩
      rwa [(h.fits _ known hknown).far_of_address haddress]

/-- **One step** leaves on the way what is missing. -/
theorem Meshed.step (h : s.Meshed net) {a : Action} (hs : Mesh.step net s a = some t)
    (hsteady : Steady net s a) : t.Meshed net := by
  cases a with
  | found conn =>
      obtain rfl := Option.some.inj hs
      exact @Meshed.listReceived _ s _ _ h [conn] rfl rfl (by simp) fun z a b _ hmsg => .inl hmsg
  | connected conn port =>
      unfold Mesh.step at hs
      dsimp only at hs
      split_ifs at hs with hfound
      obtain rfl := Option.some.inj hs
      obtain ⟨node, hnode, heq⟩ := List.any_eq_true.1 hfound
      rw [Bool.and_eq_true, beq_iff_eq] at heq
      exact h.connected rfl rfl ⟨node, hnode, heq.1⟩ rfl rfl rfl
  | identified x conn =>
      unfold Mesh.step at hs
      dsimp only at hs
      split_ifs at hs with hcheck
      obtain rfl := Option.some.inj hs
      exact h.identified hcheck.1
  | authorized x id =>
      unfold Mesh.step at hs
      dsimp only at hs
      split_ifs at hs with hpos
      obtain rfl := Option.some.inj hs
      exact h.authorized hpos
  | received msg conns =>
      unfold Mesh.step at hs
      dsimp only at hs
      split_ifs at hs with hcheck
      obtain ⟨-, -, hends, haddresses⟩ := hcheck
      obtain rfl := Option.some.inj hs
      refine h.listReceived rfl rfl (fun conn hconn => ?_) fun z a b _ hmsg => ?_
      · have hmem := List.mem_map_of_mem (f := fun conn => (net.ends conn).1) hconn
        rw [hends] at hmem
        obtain ⟨-, -, heq⟩ := List.mem_map.1 hmem
        exact heq.symm
      · obtain ⟨told, htold, rfl, rfl, hin⟩ := hmsg
        by_cases heq : told = msg
        · subst heq
          rw [← haddresses] at hin
          obtain ⟨conn, hconn, haddress⟩ := List.mem_map.1 hin
          exact .inr ⟨rfl, conn, hconn, haddress⟩
        · exact .inl ⟨told, (List.mem_erase_of_ne heq).2 htold, rfl, rfl, hin⟩
  | closed conn =>
      obtain rfl := Option.some.inj hs
      exact h.closed hsteady
  | stopped x =>
      obtain rfl := Option.some.inj hs
      exact h.stopped x

/-- **What is missing is on the way**, in every state the nodes reach. -/
theorem meshed_reachable (h : ((system net).restrict (Steady net)).Reachable s) :
    s.Meshed net := by
  have hinv : ((system net).restrict (Steady net)).Invariant (Meshed net) := by
    refine ⟨fun s hfresh => ?_, fun s a t hs hstep => hs.step hstep.2 hstep.1⟩
    obtain ⟨hpeers, -⟩ : s.Fresh := hfresh
    refine ⟨fun x node hnode => ?_, fun x node hnode => ?_, fun x node hnode => ?_⟩
    all_goals simp [hpeers x] at hnode
  exact hinv.reachable h

/-! ## Settled nodes -/

/-- Both nodes have accepted the other one. -/
theorem Meshed.symm (h : s.Meshed net) (hsettled : s.Settled) (hxy : s.Accepts x y) :
    s.Accepts y x := by
  obtain ⟨node, hnode, hauth, rfl⟩ := hxy
  have hfits := h.fits x node hnode
  obtain ⟨mate, hmate, heq⟩ := h.both x node hnode (hsettled.2 x node hnode).1
  have hmateAuth := (hsettled.2 _ mate hmate).2
  have hfar := (h.fits _ mate hmate).far_eq hmateAuth
  rw [heq, far_far hfits.ends] at hfar
  rw [hfits.far_eq hauth] at hmate
  exact ⟨mate, hmate, hmateAuth, hfar.symm⟩

/-- Of two nodes that a third one has accepted the one with the smaller id has accepted the
other. -/
theorem Meshed.join (h : s.Meshed net) (hsettled : s.Settled) (hx : s.Accepts z x)
    (hy : s.Accepts z y) (hlt : x < y) : s.Accepts x y := by
  obtain ⟨node, hnode, hauth, rfl⟩ := hx
  obtain ⟨other, hother, hauth', rfl⟩ := hy
  rcases h.told z node hnode other hother hauth hauth' hlt with ⟨msg, hmsg, -⟩ |
    ⟨known, hknown, haddress⟩
  · simp [hsettled.1] at hmsg
  · have hfits := h.fits _ known hknown
    have hknownAuth := (hsettled.2 _ known hknown).2
    exact ⟨known, hknown, hknownAuth,
      (hfits.far_eq hknownAuth).symm.trans (hfits.far_of_address haddress)⟩

/-- The port of a node. -/
def portOf (x : ℤ) : ℤ := if 0 ≤ x then 2 * x + 1 else -2 * x

theorem portOf_pos (x : ℤ) : 0 < portOf x := by
  unfold portOf
  split_ifs
  all_goals omega

theorem portOf_eq {x y : ℤ} : portOf y = portOf x ↔ y = x := by
  unfold portOf
  split_ifs
  all_goals omega

/-- The second and the third node connect to the first one. -/
def threeNet : MeshNet where
  address x := ([], portOf x)
  isLocal _ _ := true
  ends conn := match conn % 5 with
    | 0 => (2, 1)
    | 1 => (3, 1)
    | 2 => (2, 3)
    | 3 => (1, 3)
    | _ => (1, 2)
  port_pos := portOf_pos
  isLocal_iff _ _ := (and_iff_right rfl).trans portOf_eq

/-- The nodes have the three ids on their lists. -/
def threeNodesStart : Mesh := ⟨fun _ => [], fun _ => [1, 2, 3], []⟩

/-- The first node accepts the other two, and the second one is told of the third. -/
def meetings : List Action :=
  [.found 0, .connected 0 1002, .identified 1 0, .identified 2 0, .found 1, .connected 1 1003,
    .identified 3 1, .identified 1 1, .received ⟨1, 0, [([], 7)]⟩ [2], .connected 2 1004,
    .identified 2 2, .identified 3 2, .received ⟨2, 0, [([], 7)]⟩ [3],
    .received ⟨3, 1, [([], 5)]⟩ [4]]

theorem ends_threeNet (conn : ℕ) : (threeNet.ends conn).1 ∈ [1, 2, 3] ∧
    (threeNet.ends conn).2 ∈ [1, 2, 3] := by
  have hlt : conn % 5 < 5 := Nat.mod_lt _ (by decide)
  have hall : ∀ n < 5, (threeNet.ends n).1 ∈ [1, 2, 3] ∧ (threeNet.ends n).2 ∈ [1, 2, 3] := by
    decide
  have hmod := hall _ hlt
  unfold threeNet at hmod ⊢
  dsimp only at hmod ⊢
  rwa [Nat.mod_mod] at hmod

/-- Whether the three nodes are settled. -/
def threeSettled (s : Mesh) : Bool :=
  s.inFlight.isEmpty && [1, 2, 3].all fun x => (s.peers x).all fun node =>
    node.connState == .connected && node.isAuthorized

theorem settled_of_three {s : Mesh}
    (hfits : ∀ x, ∀ node ∈ s.peers x, Fits threeNet (s.lists x) x node)
    (h : threeSettled s = true) : s.Settled := by
  obtain ⟨hempty, hall⟩ := Bool.and_eq_true_iff.1 h
  refine ⟨List.isEmpty_iff.1 hempty, fun x node hnode => ?_⟩
  have hx : x ∈ [1, 2, 3] := by
    rcases (hfits x node hnode).ends with rfl | rfl
    · exact (ends_threeNet node.conn).1
    · exact (ends_threeNet node.conn).2
  have hnode := List.all_eq_true.1 (List.all_eq_true.1 hall x hx) node hnode
  rwa [Bool.and_eq_true, beq_iff_eq] at hnode

/-- No connection is closed. -/
def Action.keepsOpen : Action → Bool
  | .closed _ => false
  | _ => true

theorem meetings_reachable {s : Mesh}
    (hs : System.run (System.checked (fun _ a => a.keepsOpen) (step threeNet)) threeNodesStart
      meetings = some s) : ((system threeNet).restrict (Steady threeNet)).Reachable s := by
  refine System.reachable_restrict_of_run (fun {s a} hopen conn heq => ?_)
    (⟨fun _ => rfl, rfl⟩ : threeNodesStart.Fresh) hs
  subst heq
  simp [Action.keepsOpen] at hopen

/-- **A connection that is lost is not made again**, although both nodes are connected to a third
one: it sends its list only when it accepts a node. -/
theorem not_mesh_of_lost :
    ∃ s t, System.run (step threeNet) threeNodesStart meetings = some s ∧
      step threeNet s (.closed 2) = some t ∧ t.Settled ∧ t.Accepts 2 1 ∧ t.Accepts 1 3 ∧
        ¬ t.Accepts 2 3 := by
  have hrun : (System.run (System.checked (fun _ a => a.keepsOpen) (step threeNet))
      threeNodesStart meetings).any (fun s => (step threeNet s (.closed 2)).any fun t =>
        threeSettled t && ((t.peers 2).any fun node => node.isAuthorized && node.id == 1) &&
        ((t.peers 1).any fun node => node.isAuthorized && node.id == 3) &&
        (t.peers 2).all fun node => node.id != 3) = true := by decide +kernel
  obtain ⟨s, hs, hstep⟩ := (Option.any_eq_true _ _).1 hrun
  obtain ⟨t, ht, hcheck⟩ := (Option.any_eq_true _ _).1 hstep
  simp only [Bool.and_eq_true, List.any_eq_true, List.all_eq_true, beq_iff_eq, bne_iff_ne]
    at hcheck
  have hfits := (meshed_reachable (meetings_reachable hs)).fits
  obtain rfl := Option.some.inj ht
  refine ⟨s, _, System.run_of_checked hs, ht, settled_of_three ?_ hcheck.1.1.1, hcheck.1.1.2,
    hcheck.1.2, ?_⟩
  · exact fun x node hnode => hfits x node (List.mem_filter.1 hnode).1
  · rintro ⟨node, hnode, -, hid⟩
    exact hcheck.2 node hnode hid

end Mesh
end NoLeader
end AergoLite
