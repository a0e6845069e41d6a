/-
# The queue of special transactions

`plugins/no-leader/transactions.c`: the thread of the application adds a special transaction
to `special_txn` and sends a notification to the worker thread, which takes the transactions
from the queue and hands those that authorize a node to `on_new_authorization`
(`process_new_special_transaction`).  The two threads share the queue and nothing else, and
one notification may stand for several transactions.

A transaction that is none of these, or that the handler refuses, ends the loop, whatever is
left in the queue.  In every run the transactions are taken in the order in which they were
added, and the queue is empty at every return exactly when no such transaction was taken from
a queue with others in it (`processed_iff`).
-/

import AergoLite.Library.Transition
import AergoLite.NoLeader.Handlers

namespace AergoLite
namespace NoLeader

open AergoLite.Core
open Transition

variable {D : Type}

/-! ## The handler -/

/-- What `on_new_authorization` meets: whether there is memory for the new entry, and to which
peers the authorizations can be sent. -/
structure Delivery where
  memory : Bool
  sends : Peer → Bool

/-- The loop over the peers of `on_new_authorization`: the code of the last
`send_authorizations`, whether the authorized node was met, and the peers. -/
def informPeers (auth : NodeAuth) (fromThisNode : Bool) (sends : Peer → Bool) :
    List Peer → Rc × Bool × List Peer
  | [] => (.ok, false, [])
  | peer :: peers =>
    let authorized := peer.pubkey == auth.pk
    let marked := if authorized then { peer with isAuthorized := true } else peer
    if (authorized || peer.isAuthorized && fromThisNode) && !sends peer then
      (.nomem, authorized, marked :: peers)
    else
      let (rc, met, peers) := informPeers auth fromThisNode sends peers
      (rc, authorized || met, marked :: peers)

/-- `on_new_authorization` with the code it returns. -/
def onNewAuthorizationWith (net : Net D) (log : Log) (fromThisNode : Bool) (delivery : Delivery)
    (p : Plugin D) : Option (Rc × Plugin D) :=
  (aergoliteNewAuthorization net.crypto net.codec p.core.adminPubkey p.core.authorizations
    log).map fun result =>
    match result with
    | .error rc => (rc, p)
    | .ok (authorizations, auth) =>
      if !delivery.memory then (.nomem, p)
      else
        let p := countAuthorizedNodes { p with core := { p.core with authorizations } }
        let (rc, met, peers) := informPeers auth fromThisNode delivery.sends p.peers
        let p := { p with
          syncDownState :=
            if auth.pk = p.core.pubkey ∧ fromThisNode ∧ p.currentBlock.isNone then .inSync
            else p.syncDownState
          peers }
        (rc, if met then startNewBlockTimer net p else p)

/-- The handler accepts an authorization: it is new, the admin has signed it, there is memory
for it, and it is sent to its node and to the authorized peers. -/
def Admitted (net : Net D) (log : Log) (delivery : Delivery) (p : Plugin D) : Prop :=
  ∃ authorizations auth,
    aergoliteNewAuthorization net.crypto net.codec p.core.adminPubkey p.core.authorizations log =
      some (.ok (authorizations, auth)) ∧
    delivery.memory = true ∧
    ∀ peer ∈ p.peers, peer.pubkey = auth.pk ∨ peer.isAuthorized = true →
      delivery.sends peer = true

section
variable {auth : NodeAuth} {fromThisNode : Bool} {sends : Peer → Bool}

/-- The loop ends well if every message it is to send is sent. -/
theorem informPeers_eq_ok {peers : List Peer} :
    (informPeers auth fromThisNode sends peers).1 = .ok ↔
      ∀ peer ∈ peers, peer.pubkey = auth.pk ∨ (peer.isAuthorized && fromThisNode) = true →
        sends peer = true := by
  induction peers with
  | nil => simp [informPeers]
  | cons peer peers ih =>
      rw [List.forall_mem_cons, ← ih, informPeers]
      have hfails : ((peer.pubkey == auth.pk || peer.isAuthorized && fromThisNode) &&
          !sends peer) = true ↔
          ¬(peer.pubkey = auth.pk ∨ (peer.isAuthorized && fromThisNode) = true →
            sends peer = true) := by
        simp
      by_cases hsent : peer.pubkey = auth.pk ∨ (peer.isAuthorized && fromThisNode) = true →
          sends peer = true
      · dsimp only
        rw [if_neg fun h => hfails.1 h hsent]
        exact ⟨fun hrest => ⟨hsent, hrest⟩, And.right⟩
      · dsimp only
        rw [if_pos (hfails.2 hsent)]
        exact iff_of_false (by simp) fun h => hsent h.1

/-- If every message is sent, the node is marked wherever it is connected. -/
theorem informPeers_of_sent {peers : List Peer} (h : ∀ peer, sends peer = true) :
    informPeers auth fromThisNode sends peers =
      (.ok, peers.any fun peer => peer.pubkey == auth.pk, peers.map fun peer =>
        if peer.pubkey = auth.pk then { peer with isAuthorized := true } else peer) := by
  induction peers with
  | nil => rfl
  | cons peer peers ih => simp [informPeers, ih, h]

/-- **With memory and connections the handler is the one of the other results.** -/
theorem onNewAuthorizationWith_of_sent (net : Net D) (log : Log) (p : Plugin D)
    {delivery : Delivery} (hmemory : delivery.memory = true)
    (hsends : ∀ peer, delivery.sends peer = true) :
    (onNewAuthorizationWith net log fromThisNode delivery p).map Prod.snd =
      onNewAuthorization net log fromThisNode p := by
  unfold onNewAuthorizationWith onNewAuthorization
  rw [Option.map_map]
  congr 1
  funext result
  cases result with
  | error rc => rfl
  | ok added =>
      have hany : ((noteAuthorization added.2 fromThisNode (countAuthorizedNodes
          { p with core := { p.core with authorizations := added.1 } })).peers.any
            fun peer => peer.pubkey == added.2.pk) =
          p.peers.any fun peer => peer.pubkey == added.2.pk := by
        simp only [noteAuthorization, countAuthorizedNodes, List.any_map]
        congr 1
        funext peer
        dsimp only [Function.comp]
        split_ifs <;> rfl
      simp only [Function.comp, hmemory, Bool.not_true, Bool.false_eq_true, if_false,
        informPeers_of_sent hsends, hany]
      rfl

end

/-- A command is not refused with `SQLITE_OK`. -/
theorem readNodeAuthorization_error {codec : Codec} {sql : Text} {rc : Rc}
    (h : readNodeAuthorization codec sql = .error rc) : rc ≠ .ok := by
  unfold readNodeAuthorization at h
  rintro rfl
  split_ifs at h
  · simp at h
  · simp at h
  dsimp only at h
  split_ifs at h
  · simp at h
  · simp at h
  split at h <;> simp at h

theorem readAuthorizedPubkey_error {codec : Codec} {log : Log} {rc : Rc}
    (h : readAuthorizedPubkey codec log = .error rc) : rc ≠ .ok := by
  unfold readAuthorizedPubkey at h
  split at h
  · obtain rfl : Rc.invalid = rc := by simpa using h
    decide
  · exact readNodeAuthorization_error h

theorem aergoliteNewAuthorization_error {c : Crypto} {codec : Codec} {adminPubkey : Bytes}
    {auths : List NodeAuth} {log : Log} {rc : Rc}
    (h : aergoliteNewAuthorization c codec adminPubkey auths log = some (.error rc)) :
    rc ≠ .ok := by
  unfold aergoliteNewAuthorization at h
  split at h
  · rename_i rc' hread
    obtain rfl : rc' = rc := by simpa using h
    exact readAuthorizedPubkey_error hread
  split_ifs at h
  · simp at h
    exact h ▸ by decide
  obtain ⟨code, hverify, h⟩ := Option.map_eq_some_iff.1 h
  split_ifs at h with hcode
  obtain rfl : code = rc := by simpa using h
  exact hcode

/-- What the handler returns. -/
theorem onNewAuthorizationWith_ok {net : Net D} {log : Log} {delivery : Delivery}
    {p q : Plugin D} {rc : Rc}
    (h : onNewAuthorizationWith net log true delivery p = some (rc, q)) :
    rc = .ok ↔ Admitted net log delivery p := by
  obtain ⟨result, hresult, h⟩ := Option.map_eq_some_iff.1 h
  unfold Admitted
  rw [hresult]
  cases result with
  | error code =>
      obtain ⟨rfl, -⟩ := Prod.mk.inj h
      exact iff_of_false (aergoliteNewAuthorization_error hresult) (by simp)
  | ok added =>
      obtain ⟨authorizations, auth⟩ := added
      cases hmemory : delivery.memory with
      | false =>
          simp only [hmemory, Bool.not_false, if_true, Prod.mk.injEq] at h
          exact iff_of_false (h.1 ▸ by decide) (by simp)
      | true =>
          simp only [hmemory, Bool.not_true, Bool.false_eq_true, if_false, Prod.mk.injEq] at h
          rw [← h.1, informPeers_eq_ok]
          constructor
          · exact fun hsent => ⟨authorizations, auth, rfl, rfl, by simpa [countAuthorizedNodes] using hsent⟩
          · rintro ⟨_, _, heq, -, hsent⟩
            obtain ⟨rfl, rfl⟩ := Prod.mk.inj (Except.ok.inj (Option.some.inj heq))
            simpa [countAuthorizedNodes] using hsent

/-! ## The two threads -/

/-- Where the worker thread is in `process_new_special_transaction`, if anywhere. -/
inductive WorkerState
  | waiting
  /-- At `loc_next`. -/
  | looking
  /-- Past the mutex, with a transaction. -/
  | processing (log : Log)

/-- The plugin with `special_txn`, and the history: the transactions that were added, taken and
handed to the handler, and the queue at each return of the function. -/
structure SpecialQueue (D : Type) where
  plugin : Plugin D
  specialTxn : List Log
  worker : WorkerState
  pushed : List Log
  taken : List Log
  handed : List Log
  returned : List (List Log)

/-- What the threads do. -/
inductive QueueEvent (D : Type)
  /-- `on_new_local_transaction` with a special transaction; `memory` tells whether the item
  can be allocated. -/
  | push (log : Log) (memory : Bool)
  /-- A notification reaches the worker thread, or another call of
  `worker_thread_on_local_transaction`. -/
  | wake
  /-- The part of the loop that holds the mutex. -/
  | take
  /-- The rest of the loop. -/
  | process (delivery : Delivery)
  /-- Another handler of the worker thread runs. -/
  | other (p : Plugin D)

/-- One step of a thread.  The last look at the queue and the return are one step; a step that
the C code does not define, or that the thread is not at, is not taken. -/
def queueStep (net : Net D) (s : SpecialQueue D) : QueueEvent D → Option (SpecialQueue D)
  | .push log memory =>
      if memory then
        some { s with specialTxn := s.specialTxn ++ [log], pushed := s.pushed ++ [log] }
      else some s
  | .wake =>
      match s.worker with
      | .waiting => if s.specialTxn.isEmpty then some s else some { s with worker := .looking }
      | _ => none
  | .take =>
      match s.worker, s.specialTxn with
      | .looking, [] => some { s with worker := .waiting, returned := s.returned ++ [[]] }
      | .looking, log :: rest => some { s with
          specialTxn := rest
          worker := .processing log
          taken := s.taken ++ [log] }
      | _, _ => none
  | .process delivery =>
      match s.worker with
      | .processing log =>
        match readAuthorizedPubkey net.codec log with
        | .error _ => some { s with
            worker := .waiting
            returned := s.returned ++ [s.specialTxn] }
        | .ok _ =>
          (onNewAuthorizationWith net log true delivery s.plugin).map fun (rc, plugin) =>
            if rc ≠ .ok then { s with
              plugin
              worker := .waiting
              handed := s.handed ++ [log]
              returned := s.returned ++ [s.specialTxn] }
            else { s with plugin, worker := .looking, handed := s.handed ++ [log] }
      | _ => none
  | .other plugin =>
      match s.worker with
      | .waiting => some { s with plugin }
      | _ => none

/-- The transaction that the worker thread has taken and not yet processed. -/
def WorkerState.inHand : WorkerState → List Log
  | .processing log => [log]
  | _ => []

/-- The log is an authorization. -/
def isAuthorization (codec : Codec) (log : Log) : Bool :=
  (readAuthorizedPubkey codec log).toBool

namespace SpecialQueue

/-- The threads start with an empty queue. -/
structure Fresh (s : SpecialQueue D) : Prop where
  specialTxn : s.specialTxn = []
  worker : s.worker = .waiting
  pushed : s.pushed = []
  taken : s.taken = []
  handed : s.handed = []
  returned : s.returned = []

/-- Every transaction is taken once, in the order in which they were added, and each
authorization is handed to the handler when its turn comes. -/
structure InOrder (net : Net D) (s : SpecialQueue D) : Prop where
  taken : s.pushed = s.taken ++ s.specialTxn
  handed : ∃ done, s.taken = done ++ s.worker.inHand ∧
    s.handed = done.filter (isAuthorization net.codec)

/-- The transactions are taken in order, and none is left at a return. -/
structure Processed (net : Net D) (s : SpecialQueue D) : Prop extends InOrder net s where
  empty : ∀ queue ∈ s.returned, queue = []

end SpecialQueue

/-- A transaction is processed while there are others in the queue, and it is not an
authorization that the handler accepts. -/
def LeavesBehind (net : Net D) (s : SpecialQueue D) (a : QueueEvent D) : Prop :=
  ∃ log delivery, s.worker = .processing log ∧ a = .process delivery ∧ s.specialTxn ≠ [] ∧
    ¬Admitted net log delivery s.plugin

section
variable {net : Net D} {s t : SpecialQueue D} {a : QueueEvent D}

/-- What a transaction that is processed leads to. -/
theorem queueStep_process {delivery : Delivery} {log : Log} (hworker : s.worker = .processing log)
    (h : queueStep net s (.process delivery) = some t) :
    t.pushed = s.pushed ∧ t.taken = s.taken ∧ t.specialTxn = s.specialTxn ∧
      t.worker.inHand = [] ∧
      t.handed = s.handed ++ [log].filter (isAuthorization net.codec) ∧
      (t.returned = s.returned ∧ Admitted net log delivery s.plugin ∨
        t.returned = s.returned ++ [s.specialTxn] ∧ ¬Admitted net log delivery s.plugin) := by
  simp only [queueStep, hworker] at h
  split at h
  · rename_i rc hread
    have hnot : isAuthorization net.codec log = false := by rw [isAuthorization, hread]; rfl
    obtain rfl := Option.some.inj h
    refine ⟨rfl, rfl, rfl, rfl, by simp [hnot], .inr ⟨rfl, ?_⟩⟩
    rintro ⟨authorizations, auth, hnew, -⟩
    simp [aergoliteNewAuthorization, hread] at hnew
  · rename_i key hread
    have hauth : isAuthorization net.codec log = true := by rw [isAuthorization, hread]; rfl
    obtain ⟨⟨rc, p⟩, hnew, h⟩ := Option.map_eq_some_iff.1 h
    have hok := onNewAuthorizationWith_ok hnew
    dsimp only at h
    split_ifs at h with hrc
    · obtain rfl := h
      exact ⟨rfl, rfl, rfl, rfl, by simp [hauth], .inr ⟨rfl, fun h => hrc (hok.2 h)⟩⟩
    · obtain rfl := h
      exact ⟨rfl, rfl, rfl, rfl, by simp [hauth], .inl ⟨rfl, hok.1 (not_not.1 hrc)⟩⟩

/-- Only the rest of the loop leaves something behind. -/
theorem not_leavesBehind (h : ∀ delivery, a ≠ .process delivery) : ¬LeavesBehind net s a := by
  rintro ⟨-, delivery, -, rfl, -⟩
  exact h delivery rfl

/-- A step that adds no return of the function with others in the queue. -/
theorem left_iff_of_not (hreturned : t.returned = s.returned ∨ t.returned = s.returned ++ [[]])
    (hnot : ¬LeavesBehind net s a) : (∃ queue ∈ t.returned, queue ≠ []) ↔
      (∃ queue ∈ s.returned, queue ≠ []) ∨ LeavesBehind net s a := by
  rw [or_iff_left hnot]
  rcases hreturned with heq | heq
  · rw [heq]
  · simp [heq]

/-- **One step.**  The order is kept, and a queue with a transaction is left behind only where
one is processed that the handler does not accept. -/
theorem inOrder_step (hs : s.InOrder net) (h : queueStep net s a = some t) :
    t.InOrder net ∧ ((∃ queue ∈ t.returned, queue ≠ []) ↔
      (∃ queue ∈ s.returned, queue ≠ []) ∨ LeavesBehind net s a) := by
  obtain ⟨htaken, done, hdone, hhanded⟩ := hs
  cases a with
  | push log memory =>
      have hnot : ¬LeavesBehind net s (.push log memory) := not_leavesBehind nofun
      cases memory with
      | false =>
          obtain rfl := Option.some.inj h
          exact ⟨⟨htaken, done, hdone, hhanded⟩, left_iff_of_not (.inl rfl) hnot⟩
      | true =>
          obtain rfl := Option.some.inj h
          refine ⟨⟨?_, done, hdone, hhanded⟩, left_iff_of_not (.inl rfl) hnot⟩
          exact (congrArg (· ++ [log]) htaken).trans (List.append_assoc ..)
  | wake =>
      have hnot : ¬LeavesBehind net s .wake := not_leavesBehind nofun
      cases hworker : s.worker with
      | waiting =>
          rw [hworker] at hdone
          simp only [queueStep, hworker] at h
          split_ifs at h
          · obtain rfl := Option.some.inj h
            exact ⟨⟨htaken, done, hworker ▸ hdone, hhanded⟩, left_iff_of_not (.inl rfl) hnot⟩
          · obtain rfl := Option.some.inj h
            exact ⟨⟨htaken, done, hdone, hhanded⟩, left_iff_of_not (.inl rfl) hnot⟩
      | looking => simp [queueStep, hworker] at h
      | processing log => simp [queueStep, hworker] at h
  | take =>
      have hnot : ¬LeavesBehind net s .take := not_leavesBehind nofun
      cases hworker : s.worker with
      | waiting => simp [queueStep, hworker] at h
      | processing log => simp [queueStep, hworker] at h
      | looking =>
          rw [hworker] at hdone
          cases hqueue : s.specialTxn with
          | nil =>
              simp only [queueStep, hworker, hqueue] at h
              obtain rfl := Option.some.inj h
              exact ⟨⟨by rw [htaken, hqueue], done, hdone, hhanded⟩,
                left_iff_of_not (.inr rfl) hnot⟩
          | cons log rest =>
              simp only [queueStep, hworker, hqueue] at h
              obtain rfl := Option.some.inj h
              refine ⟨⟨?_, s.taken, rfl, ?_⟩, left_iff_of_not (.inl rfl) hnot⟩
              · exact (htaken.trans (by rw [hqueue])).trans (List.append_cons ..)
              · have hsame : done = s.taken := by simpa [WorkerState.inHand] using hdone.symm
                exact hsame ▸ hhanded
  | process delivery =>
      cases hworker : s.worker with
      | waiting => simp [queueStep, hworker] at h
      | looking => simp [queueStep, hworker] at h
      | processing log =>
          obtain ⟨hpushed, htaken', hqueue, hhand, hhanded', hreturned⟩ :=
            queueStep_process hworker h
          rw [hworker] at hdone
          refine ⟨⟨by rw [hpushed, htaken', hqueue, htaken], s.taken, ?_, ?_⟩, ?_⟩
          · rw [htaken', hhand, List.append_nil]
          · rw [hhanded', hhanded, hdone, List.filter_append]
            rfl
          · have hleaves : LeavesBehind net s (.process delivery) ↔
                s.specialTxn ≠ [] ∧ ¬Admitted net log delivery s.plugin := by
              constructor
              · rintro ⟨log', delivery', hworker', heq, hleft⟩
                cases heq
                obtain rfl : log = log' := by simpa using hworker.symm.trans hworker'
                exact hleft
              · exact fun hleft => ⟨log, delivery, hworker, rfl, hleft⟩
            rw [hleaves]
            rcases hreturned with ⟨heq, hadmitted⟩ | ⟨heq, hadmitted⟩
            · simp [heq, hadmitted]
            · simp [heq, hadmitted, or_and_right, exists_or]
  | other plugin =>
      have hnot : ¬LeavesBehind net s (.other plugin) := not_leavesBehind nofun
      cases hworker : s.worker with
      | waiting =>
          rw [hworker] at hdone
          simp only [queueStep, hworker] at h
          obtain rfl := Option.some.inj h
          exact ⟨⟨htaken, done, hdone, hhanded⟩, left_iff_of_not (.inl rfl) hnot⟩
      | looking => simp [queueStep, hworker] at h
      | processing log => simp [queueStep, hworker] at h

/-- **Every special transaction is processed**, and the queue is empty at each return, in
exactly those runs in which none is processed before others that the handler does not
accept. -/
theorem processed_iff {events : List (QueueEvent D)} (hs : s.Fresh)
    (hr : System.run (queueStep net) s events = some t) :
    t.Processed net ↔ ¬System.Meets (queueStep net) (LeavesBehind net) s events := by
  have hstart : s.InOrder net :=
    ⟨by rw [hs.pushed, hs.taken, hs.specialTxn]; rfl, [],
      by rw [hs.taken, hs.worker]; rfl, by rw [hs.handed]; rfl⟩
  obtain ⟨horder, hleft⟩ := System.iff_of_run (I := fun s => s.InOrder net)
    (R := fun s => ∃ queue ∈ s.returned, queue ≠ []) (C := fun _ => True)
    (Q := LeavesBehind net) (fun hI _ h => inOrder_step hI h) hstart (fun _ _ => trivial) hr
  rw [hs.returned] at hleft
  have hempty : (∀ queue ∈ t.returned, queue = []) ↔ ¬∃ queue ∈ t.returned, queue ≠ [] := by
    simp
  constructor
  · exact fun h hmeets => hempty.1 h.empty (hleft.2 (.inr hmeets))
  · intro hnot
    refine ⟨horder, hempty.2 fun h => ?_⟩
    exact (hleft.1 h).elim (by simp) hnot

end

/-- A codec that reads every address as the key of node 4. -/
def admittingNet : Net Unit :=
  { plainNet with codec := ⟨fun _ => some (keyOf 4), fun _ => 4, fun _ => false⟩ }

/-- The two kinds of special transactions that the pragmas of the application make. -/
def nodeTypeLog : Log := [.int64 1, .string "pragma node_type=full:1".toList, .bool true]
def addNodeLog : Log :=
  [.int64 2, .string (addNodePrefix ++ List.replicate addressLength 'A'), .bool true]

/-- No transaction has been added. -/
def emptySpecialQueue : SpecialQueue Unit := ⟨startNode 1, [], .waiting, [], [], [], []⟩

/-- A transaction that is no authorization has been processed, the only one. -/
def nodeTypeProcessed : SpecialQueue Unit :=
  ⟨startNode 1, [], .waiting, [nodeTypeLog], [nodeTypeLog], [], [[]]⟩

/-- The hypotheses hold of a run with one transaction. -/
theorem processed_iff_nodeType :
    ¬System.Meets (queueStep admittingNet) (LeavesBehind admittingNet) emptySpecialQueue
      [.push nodeTypeLog true, .wake, .take, .process ⟨true, fun _ => true⟩] :=
  (processed_iff ⟨rfl, rfl, rfl, rfl, rfl, rfl⟩
    (show System.run _ _ _ = some nodeTypeProcessed by rfl)).1
      ⟨⟨rfl, [nodeTypeLog], rfl, by rfl⟩, by simp [nodeTypeProcessed]⟩

/-- **An authorization stays in the queue.**  The admin sets the type of a node and authorizes
another one, and then the worker thread wakes up. -/
theorem addNode_left_behind : ∃ t,
    System.run (queueStep admittingNet) emptySpecialQueue
      [.push nodeTypeLog true, .push addNodeLog true, .wake, .take,
        .process ⟨true, fun _ => true⟩] = some t ∧
    isAuthorization admittingNet.codec addNodeLog = true ∧
    t.returned = [[addNodeLog]] ∧ t.handed = [] ∧ ¬t.Processed admittingNet := by
  refine ⟨_, rfl, by decide +kernel, rfl, rfl, fun h => ?_⟩
  exact absurd (h.empty [addNodeLog] List.mem_cons_self) (by simp)

end NoLeader
end AergoLite
