/-
# Who is at the other end

A node with connections to other nodes and to an adversary, who sees every identification that
is sent and can send what it has recorded on connections of its own.  Signatures are not forged:
one that is verified under the key of a node is on a text that this node has sent.

Nothing that is signed depends on the connection, so a recorded identification is accepted
(`replayed_is_authorized`).  A connection that is marked as authorized for a node id has shown
the text of an identification with this id that the node with the key has sent, on some
connection at some time (`authorized_of_sent`).
-/

import AergoLite.NoLeader.Identification
import AergoLite.Library.Transition
import Mathlib.Data.Fintype.Basic

namespace AergoLite
namespace NoLeader

open AergoLite.Core
open Transition

/-- The nodes that keep their private keys, with their public keys, and which of them is at the
other end of a connection. -/
structure PeerNet (P : Type) where
  crypto : Crypto
  pubkey : P → Bytes
  remote : ℕ → Option P

/-- A node, the identifications that were sent, by whom and on which connection, and what the
list of authorizations had for the node id that was announced last on a connection. -/
structure Listening (P : Type) where
  peering : Peering
  sent : List (P × ℕ × IdMessage)
  lookups : ℕ → Option NodeAuth

/-- Something happens at the node, or one of the nodes sends an identification. -/
inductive Listening.Action (P : Type)
  | newNode (conn : ℕ)
  | connected (conn : ℕ) (randomNo : BitVec 64)
  | sends (q : P) (conn : ℕ) (msg : IdMessage)
  | arrives (conn : ℕ) (msg : IdMessage)
  | answered (conn : ℕ)
  | unanswered (conflict : ℕ × ℕ)
  | disconnected (conn : ℕ)
  | closed (conn : ℕ)
  | authorizations (auths : List NodeAuth)

variable {P : Type}

/-- The message that arrives, and its connection. -/
def Listening.Action.arrival : Action P → Option (ℕ × IdMessage)
  | .arrives conn msg => some (conn, msg)
  | _ => none

namespace Listening

/-- The step of the node.  No message is handled on a connection that is being closed. -/
def step (net : PeerNet P) (s : Listening P) : Action P → Option (Listening P)
  | .newNode conn => some { s with peering := newNode conn s.peering }
  | .connected conn randomNo =>
    some { s with peering := onNewNodeConnected conn randomNo s.peering }
  | .sends q conn msg => some { s with sent := s.sent ++ [(q, conn, msg)] }
  | .arrives conn msg =>
    (s.peering.peer conn).bind fun node =>
      if node.closing then none
      else (onNodeIdentification net.crypto node msg s.peering).map fun peering =>
        { s with
          peering
          lookups := Function.update s.lookups conn
            (aergoliteGetAuthorization s.peering.authorizations msg.nodeId) }
  | .answered conn =>
    (s.peering.peer conn).map fun node => { s with peering := onPingResponse node s.peering }
  | .unanswered conflict => some { s with peering := idConflictTimerCb conflict s.peering }
  | .disconnected conn => some { s with peering := disconnectPeer conn s.peering }
  | .closed conn =>
    (s.peering.peer conn).map fun node =>
      { s with peering := workerThreadOnClose node s.peering }
  | .authorizations auths =>
    some { s with peering := { s.peering with authorizations := auths } }

/-- The node has sent an identification with a text. -/
def Sent (s : Listening P) (q : P) (text : Text) : Prop :=
  ∃ entry ∈ s.sent, entry.1 = q ∧ entry.2.2.text = some text

/-- A signature that is verified under the key of a node is on a text that the node has sent,
and on the connection of a node arrives what this node has sent on it. -/
def Unforged (net : PeerNet P) (s : Listening P) (a : Action P) : Prop :=
  ∀ arrival ∈ a.arrival, (∀ q ∈ net.remote arrival.1, (q, arrival) ∈ s.sent) ∧
    ∀ text ∈ arrival.2.text, ∀ signature ∈ arrival.2.signature, ∀ q,
      aergoliteVerify net.crypto text (net.pubkey q) signature = .ok → s.Sent q text

/-- A node among others and an adversary, from the start on. -/
def system (net : PeerNet P) : System (Listening P) (Action P) :=
  (System.ofStep (fun s => s.peering.peers = [] ∧ s.sent = []) (step net)).restrict (Unforged net)

/-- What is known of a connection that is marked as authorized: its key is that of the
authorization of its node id, a node that has this key has sent the text that is stored, and so
has the node at the other end. -/
structure Recognized (net : PeerNet P) (s : Listening P) (node : Connection) (auth : NodeAuth) :
    Prop where
  lookup : s.lookups node.conn = some auth
  nodeId : auth.nodeId = node.id
  key : auth.pk = node.key
  holder : ∀ q, net.pubkey q = auth.pk → s.Sent q node.text
  remote : ∀ q, net.remote node.conn = some q → s.Sent q node.text

/-- Every connection that is marked, and not being closed, is known in this way. -/
def AllRecognized (net : PeerNet P) (s : Listening P) : Prop :=
  ∀ node ∈ s.peering.peers, node.isAuthorized = true → node.closing = false →
    ∃ auth, s.Recognized net node auth

theorem Sent.mono {s t : Listening P} {q : P} {text : Text} (h : s.Sent q text)
    (hsent : ∀ entry ∈ s.sent, entry ∈ t.sent) : t.Sent q text := by
  obtain ⟨entry, hentry, h⟩ := h
  exact ⟨entry, hsent entry hentry, h⟩

/-- What a node has sent has its node id. -/
theorem Sent.nodeId {s : Listening P} {q : P} {nodeId port : ℤ} {device : DeviceInfo}
    (h : s.Sent q (identificationText nodeId port device)) :
    ∃ conn msg, (q, conn, msg) ∈ s.sent ∧ msg.nodeId = nodeId ∧
      msg.text = some (identificationText nodeId port device) := by
  obtain ⟨⟨q', conn, msg⟩, hentry, rfl, htext⟩ := h
  refine ⟨conn, msg, hentry, ?_, htext⟩
  obtain ⟨device', -, heq⟩ := Option.map_eq_some_iff.1 htext
  exact nodeId_eq_of_text_eq heq

/-- A connection that is kept is known as before. -/
theorem Recognized.kept {net : PeerNet P} {s t : Listening P} {old new : Connection}
    {auth : NodeAuth} (h : s.Recognized net old auth) (hkept : new.KeptFrom old)
    (hsent : ∀ entry ∈ s.sent, entry ∈ t.sent) (hlookup : t.lookups old.conn = s.lookups old.conn) :
    t.Recognized net new auth := by
  have hsame := hkept.same
  obtain ⟨hconn, hid, hkey, htext⟩ : new.conn = old.conn ∧ new.id = old.id ∧
      new.key = old.key ∧ new.text = old.text := by
    rw [hsame]
    exact ⟨rfl, rfl, rfl, rfl⟩
  constructor
  · rw [hconn, hlookup, h.lookup]
  · rw [hid, h.nodeId]
  · rw [hkey, h.key]
  · intro q hq
    rw [htext]
    exact (h.holder q hq).mono hsent
  · intro q hq
    rw [htext]
    exact (h.remote q (hconn ▸ hq)).mono hsent

/-- Where the connections are kept, they are known as before. -/
theorem AllRecognized.keeps {net : PeerNet P} {s t : Listening P} (h : s.AllRecognized net)
    (hkeeps : s.peering.Keeps t.peering) (hsent : ∀ entry ∈ s.sent, entry ∈ t.sent)
    (hlookups : t.lookups = s.lookups) : t.AllRecognized net := by
  intro new hnew hauthorized hopen
  obtain ⟨old, hold, hkept⟩ := hkeeps.exists_old new hnew
  have hauthorized' : old.isAuthorized = true := by
    rw [hkept.same] at hauthorized
    exact hauthorized
  have hopen' : old.closing = false := by
    cases hclosing : old.closing with
    | false => rfl
    | true => simp [hkept.closing hclosing] at hopen
  obtain ⟨auth, hauth⟩ := h old hold hauthorized' hopen'
  exact ⟨auth, hauth.kept hkept hsent (by rw [hlookups])⟩

/-- An identification that is refused closes its connection. -/
theorem AllRecognized.refused {net : PeerNet P} {s t : Listening P} {conn : ℕ}
    (h : s.AllRecognized net) {p : Peering} (ht : t.peering = disconnectPeer conn p)
    (hp : ∀ node ∈ p.peers, node.conn ≠ conn → node ∈ s.peering.peers) (hsent : t.sent = s.sent)
    (hlookups : ∀ other ≠ conn, t.lookups other = s.lookups other) : t.AllRecognized net := by
  intro new hnew hauthorized hopen
  rw [ht] at hnew
  have hother : new.conn ≠ conn := fun heq => by
    simp [closing_of_disconnectPeer hnew heq] at hopen
  -- the connections are those of before but for this one
  obtain ⟨old, hold, rfl⟩ := List.mem_map.1 hnew
  have hne : old.conn ≠ conn := by
    intro heq
    rw [if_pos heq] at hother
    exact hother heq
  rw [if_neg hne] at hauthorized hopen ⊢
  obtain ⟨auth, hauth⟩ := h old (hp old hold hne) hauthorized hopen
  exact ⟨auth, hauth.kept (Std.Refl.refl old) (fun entry hentry => hsent ▸ hentry) (hlookups _ hne)⟩

/-- **A message that arrives.**  Where the connection is marked, the signature was verified
under the key of the authorization. -/
theorem AllRecognized.arrives {net : PeerNet P} {s t : Listening P} {conn : ℕ} {msg : IdMessage}
    (h : s.AllRecognized net) (hs : step net s (.arrives conn msg) = some t)
    (hunforged : s.Unforged net (.arrives conn msg)) : t.AllRecognized net := by
  obtain ⟨hremote, hsigned⟩ := hunforged _ rfl
  obtain ⟨node, hnode, hs⟩ := Option.bind_eq_some_iff.1 hs
  split_ifs at hs with hclosing
  obtain ⟨peering, hpeering, rfl⟩ := Option.map_eq_some_iff.1 hs
  obtain rfl : node.conn = conn := by simpa using List.find?_some hnode
  have hlookups : ∀ other ≠ node.conn, Function.update s.lookups node.conn
      (aergoliteGetAuthorization s.peering.authorizations msg.nodeId) other = s.lookups other :=
    fun other hne => Function.update_of_ne hne _ _
  have hset : ∀ new : Connection, new.conn = node.conn → ∀ other ∈ (s.peering.set new).peers,
      other.conn ≠ node.conn → other ∈ s.peering.peers := by
    intro new hconn other hother hne
    obtain ⟨old, hold, rfl⟩ := List.mem_map.1 hother
    split_ifs at hne ⊢ with heq
    · exact absurd hconn hne
    · exact hold
  obtain hrefused | hrefused | ⟨signature, pubkey, device, hsignature, hkey, hdevice, hverify, -,
    hchecked⟩ := onNodeIdentification_cases hpeering
  · exact h.refused hrefused (fun other hother _ => hother) rfl hlookups
  · exact h.refused hrefused (hset _ rfl) rfl hlookups
  obtain ⟨hconn, hpubkey, htext, hid, hmarked⟩ := node.identified_eq msg
    (aergoliteGetAuthorization s.peering.authorizations msg.nodeId) pubkey device
  generalize node.identified msg (aergoliteGetAuthorization s.peering.authorizations msg.nodeId)
    pubkey device = stored at hconn hpubkey htext hid hmarked hchecked
  have hmsg : msg.text = some (identificationText msg.nodeId msg.port device) := by
    rw [IdMessage.text, hdevice, Option.map_some]
  refine AllRecognized.keeps (s := { s with
    peering := s.peering.set stored
    lookups := Function.update s.lookups node.conn
      (aergoliteGetAuthorization s.peering.authorizations msg.nodeId) }) ?_
    (hchecked ▸ keeps_checkNewIdentifiedNode _ _) (fun _ h => h) rfl
  intro new hnew hauthorized hopen
  by_cases hne : new.conn = node.conn
  · obtain ⟨old, -, rfl⟩ := List.mem_map.1 hnew
    have hold : old.conn = stored.conn := by
      by_contra hold
      rw [if_neg hold, ← hconn] at hne
      exact hold hne
    rw [if_pos hold] at hauthorized ⊢
    rw [hmarked] at hauthorized
    obtain ⟨auth, hauth, -⟩ := (Option.any_eq_true _ _).1 hauthorized
    rw [hauth] at hkey
    obtain rfl := identificationKey_some hkey
    refine ⟨auth, ⟨?_, ?_, hpubkey.symm, ?_, ?_⟩⟩
    · rw [hconn]
      exact (Function.update_self _ _ _).trans hauth
    · rw [hid]
      exact (aergoliteGetAuthorization_some hauth).2
    · intro q hq
      rw [htext]
      exact hsigned _ hmsg signature hsignature q (hq ▸ hverify)
    · intro q hq
      rw [htext]
      exact ⟨_, hremote q (hconn ▸ hq), rfl, hmsg⟩
  · obtain ⟨auth, hauth⟩ := h new (hset stored hconn new hnew hne) hauthorized hopen
    exact ⟨auth, hauth.kept (Std.Refl.refl new) (fun _ h => h) (hlookups _ hne)⟩

theorem allRecognized_invariant (net : PeerNet P) :
    (system net).Invariant (AllRecognized net) where
  init s h node hnode := absurd (h.1 ▸ hnode) List.not_mem_nil
  step s a t h hs := by
    obtain ⟨hunforged, hs⟩ := hs
    change step net s a = some t at hs
    cases a with
    | newNode conn =>
        obtain rfl := Option.some.inj hs
        intro node hnode hauthorized hopen
        rcases List.mem_append.1 hnode with hold | hnew
        · obtain ⟨auth, hauth⟩ := h node hold hauthorized hopen
          exact ⟨auth, hauth.kept (Std.Refl.refl node) (fun _ h => h) rfl⟩
        · -- a new connection is not marked
          obtain rfl := List.mem_singleton.1 hnew
          cases hauthorized
    | connected conn randomNo =>
        obtain rfl := Option.some.inj hs
        intro node hnode hauthorized hopen
        obtain ⟨old, hold, rfl⟩ := List.mem_map.1 hnode
        split_ifs at hauthorized hopen ⊢
        · dsimp only at hauthorized hopen ⊢
          rw [addNodeConnectionIdentifier_eq] at hauthorized hopen ⊢
          obtain ⟨auth, hauth⟩ := h old hold hauthorized hopen
          exact ⟨auth, hauth.lookup, hauth.nodeId, hauth.key, hauth.holder, hauth.remote⟩
        · obtain ⟨auth, hauth⟩ := h old hold hauthorized hopen
          exact ⟨auth, hauth.kept (Std.Refl.refl old) (fun _ h => h) rfl⟩
    | sends q conn msg =>
        obtain rfl := Option.some.inj hs
        exact h.keeps (.refl _) (fun _ => List.mem_append_left _) rfl
    | arrives conn msg => exact h.arrives hs hunforged
    | answered conn =>
        obtain ⟨node, -, rfl⟩ := Option.map_eq_some_iff.1 hs
        exact h.keeps (keeps_onPingResponse node _) (fun _ h => h) rfl
    | unanswered conflict =>
        obtain rfl := Option.some.inj hs
        exact h.keeps (keeps_idConflictTimerCb conflict _) (fun _ h => h) rfl
    | disconnected conn =>
        obtain rfl := Option.some.inj hs
        exact h.keeps (keeps_disconnectPeer conn _) (fun _ h => h) rfl
    | closed conn =>
        obtain ⟨node, -, rfl⟩ := Option.map_eq_some_iff.1 hs
        exact h.keeps (keeps_workerThreadOnClose node _) (fun _ h => h) rfl
    | authorizations auths =>
        obtain rfl := Option.some.inj hs
        exact h.keeps (.refl _) (fun _ h => h) rfl

end Listening

open Listening

/-- **What the mark says.**  A connection that is marked as authorized for a node id, and is not
being closed, has the key that the list of authorizations had for this id.  A node that holds
the private key has sent an identification with the same text, and so with this id; and if the
adversary is not at the other end, so has the node that is there. -/
theorem authorized_of_sent (net : PeerNet P) {s : Listening P}
    (h : (Listening.system net).Reachable s) :
    ∀ node ∈ s.peering.peers, node.isAuthorized = true → node.closing = false →
      ∃ auth, s.lookups node.conn = some auth ∧ auth.nodeId = node.id ∧ auth.pk = node.key ∧
        ∀ q, net.pubkey q = auth.pk ∨ net.remote node.conn = some q →
          ∃ conn msg, (q, conn, msg) ∈ s.sent ∧ msg.nodeId = node.id ∧
            msg.text = some node.text := by
  intro node hnode hauthorized hopen
  obtain ⟨auth, hauth⟩ := (allRecognized_invariant net).reachable h node hnode hauthorized hopen
  refine ⟨auth, hauth.lookup, hauth.nodeId, hauth.key, ?_⟩
  rintro q (hholder | hremote)
  · exact (hauth.holder q hholder).nodeId
  · exact (hauth.remote q hremote).nodeId

/-- Node 1, with the authorization of node 2. -/
def knowsNodeTwo : Peering :=
  ⟨1, List.replicate 33 1, [⟨List.replicate 33 2, 2, true, 1, 0, 0⟩], [], []⟩

/-- Node 2 keeps its private key, and the adversary is at the other end of each connection. -/
def onlyNodeTwo : PeerNet Unit := ⟨plainCrypto, fun _ => List.replicate 33 2, fun _ => none⟩

/-- What node 2 sends with a random number. -/
def identificationOfTwo (randomNo : BitVec 64) : IdMessage :=
  sendNodeIdentification
    ⟨7000, ⟨[], [], [], []⟩, none, fun text =>
      plainSign (List.replicate 33 2) (plainCrypto.sha256 text)⟩
    randomNo ⟨2, List.replicate 33 2, [], [], []⟩

/-- What node 2 has sent on another connection arrives on connection 7, with another random
number. -/
def replay : List (Action Unit) :=
  [.sends () 5 (identificationOfTwo 10), .newNode 7, .connected 7 30,
    .arrives 7 (identificationOfTwo 20)]

instance (s : Listening Unit) (q : Unit) (text : Text) : Decidable (s.Sent q text) :=
  inferInstanceAs (Decidable (∃ entry ∈ s.sent, _))

instance (net : PeerNet Unit) (s : Listening Unit) (a : Action Unit) :
    Decidable (s.Unforged net a) :=
  inferInstanceAs (Decidable (∀ arrival ∈ a.arrival, _ ∧ _))

/-- The connection is marked at the end of the run. -/
theorem replay_run :
    ∃ s, (Listening.system onlyNodeTwo).Reachable s ∧ ∃ node ∈ s.peering.peers,
      node.isAuthorized = true ∧ node.closing = false ∧ node.id = 2 ∧ node.key = List.replicate 33 2 := by
  have hrun : (System.run (System.checked (fun s a => decide (s.Unforged onlyNodeTwo a))
      (Listening.step onlyNodeTwo)) ⟨knowsNodeTwo, [], fun _ => none⟩ replay).any (fun s =>
        s.peering.peers.any fun node => decide (node.isAuthorized = true ∧
          node.closing = false ∧ node.id = 2 ∧ node.key = List.replicate 33 2)) = true := by
    decide +kernel
  obtain ⟨s, hs, hany⟩ := (Option.any_eq_true _ _).1 hrun
  obtain ⟨node, hnode, hmarked⟩ := List.any_eq_true.1 hany
  exact ⟨s, System.reachable_restrict_of_run of_decide_eq_true ⟨rfl, rfl⟩ hs, node, hnode,
    of_decide_eq_true hmarked⟩

/-- The hypotheses hold of a run in which what node 2 has sent arrives. -/
theorem authorized_of_sent_replay :
    ∃ s : Listening Unit, ∃ node ∈ s.peering.peers, node.isAuthorized = true ∧
      ∃ auth, s.lookups node.conn = some auth ∧ auth.nodeId = node.id ∧ auth.pk = node.key ∧
        ∀ q, onlyNodeTwo.pubkey q = auth.pk ∨ onlyNodeTwo.remote node.conn = some q →
          ∃ conn msg, (q, conn, msg) ∈ s.sent ∧ msg.nodeId = node.id ∧
            msg.text = some node.text := by
  obtain ⟨s, hs, node, hnode, hauthorized, hopen, -⟩ := replay_run
  exact ⟨s, node, hnode, hauthorized, authorized_of_sent onlyNodeTwo hs node hnode hauthorized hopen⟩

/-- **A recorded identification is accepted.**  The connection is marked as authorized for node
2, whose private key node 2 keeps, and the adversary is at its other end. -/
theorem replayed_is_authorized :
    ∃ s, (Listening.system onlyNodeTwo).Reachable s ∧ ∃ node ∈ s.peering.peers,
      node.isAuthorized = true ∧ node.closing = false ∧ node.id = 2 ∧ onlyNodeTwo.pubkey () = node.key ∧
        onlyNodeTwo.remote node.conn ≠ some () := by
  obtain ⟨s, hs, node, hnode, hauthorized, hopen, hid, hkey⟩ := replay_run
  exact ⟨s, hs, node, hnode, hauthorized, hopen, hid, hkey.symm, nofun⟩

end NoLeader
end AergoLite
