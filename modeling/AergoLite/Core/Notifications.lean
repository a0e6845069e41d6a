/-
# The notifications of local transactions

While a block is executed, the core collects the status of each transaction of its own node
(`processed_local_txns`); when a block is committed, `fire_transaction_notifications` is to
call the function of the application with them.  What is collected is what the block lists
(`reachable_collected`).  But `aergolite_commit_block` calls `cleanup_block` first, which
discards it, so a commit fires nothing (`fired_call`), and what has been fired is what is due
exactly after the runs that commit no local transaction (`notified_iff`).
-/

import AergoLite.Core.Calls
import AergoLite.Library.Transition

namespace AergoLite
namespace Core

open Transition

variable {D : Type} {env : Env D}

/-- The texts `"included"` and `"rejected"`. -/
inductive TxnStatus
  | included | rejected
  deriving DecidableEq, Repr

/-- The nonce and the status that the list of a block has for a transaction of a node. -/
def localStatus (id : ℤ) (tid : BitVec 64) : Option (ℤ × TxnStatus) :=
  let plain := (tid &&& ~~~failedFlag).toNat
  if (plain / 2 ^ 32 : ℕ) = id then
    some ((plain % 2 ^ 32 : ℕ), if tid.msb then .rejected else .included)
  else none

/-- The statuses of the transactions of a node in the list of a block. -/
def localStatuses (id : ℤ) (txnIds : List (BitVec 64)) : List (ℤ × TxnStatus) :=
  txnIds.filterMap (localStatus id)

/-- The core with the list `processed_local_txns`, which is null while it is empty, the calls
of `transaction_notification`, and what is due of the blocks that have been committed. -/
structure Notifier (D : Type) where
  core : Aergolite D
  processedLocalTxns : List (ℤ × TxnStatus)
  fired : List (ℤ × TxnStatus)
  due : List (ℤ × TxnStatus)

/-- The call runs `cleanup_block`.  Nothing else sets `txn_ids` to null, so where there is a
list this shows in the result; and without one only a rollback does it, and a call of
`aergolite_begin_block` that cannot make the tables of the first block. -/
def BlockCall.cleansUp (env : Env D) (a : Aergolite D) : BlockCall → Bool
  | .rollbackBlock => true
  | .beginBlock =>
      let first := { a.db with nodesChanged := false, configChanged := false }.command
      decide (first.1 = .ok) && a.saved.isNone && decide (first.2.command.1 = .ok) &&
        decide ((aergoliteBeginBlock a).1 ≠ .ok)
  | call => a.txnIds.isSome && (call.result env a).2.txnIds.isNone

/-- `add_local_txn_status`, by the result of an execution. -/
def addLocalTxnStatus (rc : Rc) (nonce : ℤ) (txns : List (ℤ × TxnStatus)) :
    List (ℤ × TxnStatus) :=
  if rc = .ok then txns ++ [(nonce, .included)]
  else if rc ≠ .busy ∧ rc ≠ .perm then txns ++ [(nonce, .rejected)]
  else txns

/-- A call.  A commit fires what is left of the list after `cleanup_block`. -/
def Notifier.call (env : Env D) (s : Notifier D) (call : BlockCall) : Notifier D :=
  let r := call.result env s.core
  let processed :=
    if call.cleansUp env s.core then []
    else match call with
      | .executeTransaction nodeId nonce _ =>
          if nodeId = s.core.id then addLocalTxnStatus r.1 nonce s.processedLocalTxns
          else s.processedLocalTxns
      | _ => s.processedLocalTxns
  match call with
  | .commitBlock _ body _ =>
      if r.1 = .ok then
        ⟨r.2, processed, s.fired ++ processed, s.due ++ localStatuses s.core.id body.txnIds⟩
      else ⟨r.2, processed, s.fired, s.due⟩
  | _ => ⟨r.2, processed, s.fired, s.due⟩

/-- A node that has started: nothing is collected, fired or due. -/
structure Notifier.Started (s : Notifier D) : Prop where
  closed : s.core.saved = none ∧ s.core.txnIds = none
  processed : s.processedLocalTxns = []
  fired : s.fired = []
  due : s.due = []

/-- A node whose core is called. -/
def notifications (env : Env D) : System (Notifier D) BlockCall :=
  .ofStep Notifier.Started fun s call => some (s.call env call)

/-! ## What is collected -/

/-- The calls of a run in which a transaction is executed while a block is open, and has an id
that tells its node and its nonce. -/
def Proper (s : Notifier D) : BlockCall → Prop
  | .executeTransaction nodeId nonce _ =>
      s.core.txnIds.isSome = true ∧ (∃ n : ℕ, nodeId = n ∧ n < 2 ^ 31) ∧
        ∃ k : ℕ, nonce = k ∧ k < 2 ^ 32
  | _ => True

/-- What is collected is what the list of the open block has. -/
structure Collected (s : Notifier D) : Prop where
  closed : s.core.saved = none → s.core.txnIds = none
  collected : s.processedLocalTxns = localStatuses s.core.id (s.core.txnIds.getD [])

theorem localStatus_buildTransactionId (id : ℤ) {n k : ℕ} (hn : n < 2 ^ 31) (hk : k < 2 ^ 32) :
    localStatus id (buildTransactionId n k) = if (n : ℤ) = id then some ((k : ℤ), .included)
      else none := by
  have hid := toNat_buildTransactionId hn hk
  have hplain : (buildTransactionId n k &&& ~~~failedFlag).toNat = n * 2 ^ 32 + k := by
    rw [toNat_unflagged, hid]
    omega
  have hmsb : (buildTransactionId n k).msb = false := by
    rw [BitVec.msb_eq_decide, hid, decide_eq_false_iff_not]
    omega
  unfold localStatus
  dsimp only
  rw [hplain, hmsb, show (n * 2 ^ 32 + k) / 2 ^ 32 = n by omega,
    show (n * 2 ^ 32 + k) % 2 ^ 32 = k by omega]
  rfl

theorem localStatus_failed (id : ℤ) {n k : ℕ} (hn : n < 2 ^ 31) (hk : k < 2 ^ 32) :
    localStatus id (buildTransactionId n k ||| failedFlag) =
      if (n : ℤ) = id then some ((k : ℤ), .rejected) else none := by
  have hplain : (buildTransactionId n k &&& ~~~failedFlag).toNat = n * 2 ^ 32 + k := by
    rw [toNat_unflagged, toNat_buildTransactionId hn hk]
    omega
  have hmsb : (buildTransactionId n k ||| failedFlag).msb = true := by
    rw [BitVec.msb_or, Bool.or_eq_true]
    exact .inr (by decide)
  unfold localStatus
  dsimp only
  rw [unflagged_flagged, hplain, hmsb, show (n * 2 ^ 32 + k) / 2 ^ 32 = n by omega,
    show (n * 2 ^ 32 + k) % 2 ^ 32 = k by omega]
  rfl

/-- The list, after a call that leaves `txn_ids` or sets it to null. -/
theorem Collected.other {s : Notifier D} (h : Collected s) {core : Aergolite D}
    {cleans : Bool} {fired due : List (ℤ × TxnStatus)} (hid : core.id = s.core.id)
    (hclosed : core.saved = none → core.txnIds = none)
    (htxns : cleans = false → core.txnIds.getD [] = s.core.txnIds.getD [])
    (hcleans : cleans = true → core.txnIds = none) :
    Collected ⟨core, if cleans then [] else s.processedLocalTxns, fired, due⟩ := by
  refine ⟨hclosed, ?_⟩
  cases cleans with
  | true => simp [hcleans rfl, localStatuses]
  | false =>
      rw [htxns rfl, hid]
      exact h.collected

/-- A call of the functions that make, verify or commit a block. -/
theorem Collected.closes {s : Notifier D} (h : Collected s) {core : Aergolite D}
    {fired due : List (ℤ × TxnStatus)} (hid : core.id = s.core.id)
    (hcore : (core.saved = s.core.saved ∧ core.txnIds = s.core.txnIds) ∨
      core.saved = none ∧ core.txnIds = none) :
    Collected ⟨core, if s.core.txnIds.isSome && core.txnIds.isNone then []
      else s.processedLocalTxns, fired, due⟩ := by
  refine h.other hid ?_ ?_ ?_
  · rcases hcore with ⟨hsaved, htxns⟩ | ⟨-, htxns⟩
    · exact fun hnone => htxns.trans (h.closed (hsaved.symm.trans hnone))
    · exact fun _ => htxns
  · rcases hcore with ⟨-, htxns⟩ | ⟨-, htxns⟩
    · exact fun _ => by rw [htxns]
    · intro hkept
      have hnone : s.core.txnIds = none := by simpa [htxns] using hkept
      rw [htxns, hnone]
  · intro hcleans
    simpa [Option.isNone_iff_eq_none] using (Bool.and_eq_true_iff.1 hcleans).2

theorem collected_beginBlock {s : Notifier D} (h : Collected s) :
    Collected (s.call env .beginBlock) := by
  have hfacts : ∀ r, BeginOutcome s.core r → r.2.id = s.core.id ∧
      (r.2.saved = none → r.2.txnIds = none) ∧
      r.2.txnIds.getD [] = s.core.txnIds.getD [] ∧
      (s.core.saved = none → r.1 ≠ .ok → r.2.txnIds = none) := by
    intro r hr
    cases hr with
    | busy => exact ⟨rfl, h.closed, rfl, fun hnone _ => h.closed hnone⟩
    | failed _ closed _ rolledBack =>
        obtain ⟨-, hnone, -⟩ := rolledBack.closed
        refine ⟨rolledBack.constants.1, fun _ => hnone, ?_, fun _ _ => hnone⟩
        rw [hnone, h.closed closed]
    | opened closed =>
        refine ⟨rfl, fun hnone => by simp at hnone, ?_, fun _ hfails => absurd rfl hfails⟩
        rw [h.closed closed]
        rfl
  obtain ⟨hid, hclosed, htxns, hcleans⟩ := hfacts _ (beginBlock_outcome s.core)
  refine h.other hid hclosed (fun _ => htxns) fun hcleaned => ?_
  simp only [BlockCall.cleansUp, Bool.and_eq_true, decide_eq_true_eq] at hcleaned
  exact hcleans (by simpa using hcleaned.1.1.2) hcleaned.2

/-- A list after one more transaction. -/
theorem localStatuses_append (id : ℤ) (tids : List (BitVec 64)) (tid : BitVec 64) :
    localStatuses id (tids ++ [tid]) = localStatuses id tids ++ (localStatus id tid).toList := by
  unfold localStatuses
  rw [List.filterMap_append]
  cases hstatus : localStatus id tid <;> simp [hstatus]

theorem collected_executeTransaction {s : Notifier D} (h : Collected s) {nodeId nonce : ℤ}
    {log : Log} (hproper : Proper s (.executeTransaction nodeId nonce log)) :
    Collected (s.call env (.executeTransaction nodeId nonce log)) := by
  obtain ⟨hopen, ⟨n, rfl, hn⟩, k, rfl, hk⟩ := hproper
  obtain ⟨tids, htids⟩ := Option.isSome_iff_exists.1 hopen
  have hcollected : s.processedLocalTxns = localStatuses s.core.id tids := by
    rw [h.collected, htids]
    rfl
  have hstatus := localStatus_buildTransactionId s.core.id hn hk
  have hstatus' := localStatus_failed s.core.id hn hk
  have houtcome := executeTransaction_outcome env s.core n k log
  unfold Notifier.call
  simp only [BlockCall.cleansUp, BlockCall.result, htids, Option.isSome_some, Bool.true_and]
  generalize aergoliteExecuteTransaction env s.core n k log = r at houtcome ⊢
  have hsaved : s.core.saved ≠ none := fun hnone => by simp [h.closed hnone] at htids
  cases houtcome with
  | executed =>
      refine ⟨fun hnone => absurd hnone hsaved, ?_⟩
      simp only [htids, Option.map_some, Option.isNone_some, Bool.false_eq_true, ↓reduceIte,
        Option.getD_some, localStatuses_append, hstatus, hcollected, addLocalTxnStatus]
      split_ifs <;> simp
  | refused again =>
      refine ⟨fun hnone => absurd hnone hsaved, ?_⟩
      rcases again with rfl | rfl <;>
        simp [htids, hcollected, addLocalTxnStatus]
  | failed _ counts =>
      refine ⟨fun hnone => absurd hnone hsaved, ?_⟩
      simp only [htids, Option.map_some, Option.isNone_some, Bool.false_eq_true, ↓reduceIte,
        Option.getD_some, localStatuses_append, hstatus', hcollected, addLocalTxnStatus, counts,
        ne_eq, not_false_eq_true, and_self]
      split_ifs <;> simp

/-- A call either leaves the list as it is, or closes the block. -/
theorem result_kept_or_closed (a : Aergolite D) {call : BlockCall}
    (hcall : call ≠ .beginBlock ∧ ∀ nodeId nonce log, call ≠ .executeTransaction nodeId nonce log) :
    (call.result env a).2.id = a.id ∧
      (((call.result env a).2.saved = a.saved ∧ (call.result env a).2.txnIds = a.txnIds) ∨
        (call.result env a).2.saved = none ∧ (call.result env a).2.txnIds = none) := by
  have hback : ∀ {b c : Aergolite D}, RolledBack b c → b.id = a.id → c.id = a.id ∧
      ((c.saved = a.saved ∧ c.txnIds = a.txnIds) ∨ c.saved = none ∧ c.txnIds = none) :=
    fun h hid => ⟨h.constants.1.trans hid, .inr ⟨h.closed.1, h.closed.2.1⟩⟩
  cases call with
  | beginBlock => exact absurd rfl hcall.1
  | executeTransaction nodeId nonce log => exact absurd rfl (hcall.2 nodeId nonce log)
  | createBlock timestamp =>
      have houtcome := createBlock_outcome env timestamp a
      unfold BlockCall.result
      dsimp only
      generalize aergoliteCreateBlock env timestamp a = r at houtcome ⊢
      cases houtcome with
      | misuse => exact ⟨rfl, .inl ⟨rfl, rfl⟩⟩
      | failed _ rolledBack => exact hback rolledBack rfl
      | created => exact ⟨rfl, .inl ⟨rfl, rfl⟩⟩
  | verifyBlock header body =>
      have houtcome := verifyBlock_outcome env a header body
      unfold BlockCall.result
      dsimp only
      generalize aergoliteVerifyBlock env a header body = r at houtcome ⊢
      cases houtcome with
      | kept => exact ⟨rfl, .inl ⟨rfl, rfl⟩⟩
      | failed _ _ rolledBack => exact hback rolledBack rfl
      | verified => exact ⟨rfl, .inl ⟨rfl, rfl⟩⟩
  | commitBlock header body votes =>
      have houtcome := commitBlock_outcome env a header body votes
      unfold BlockCall.result
      dsimp only
      generalize aergoliteCommitBlock env a header body votes = r at houtcome ⊢
      cases houtcome with
      | misuse => exact ⟨rfl, .inl ⟨rfl, rfl⟩⟩
      | failed _ _ rolledBack => exact hback rolledBack rfl
      | half _ _ _ rolledBack => exact hback rolledBack rfl
      | committed _ _ _ stored =>
          exact ⟨stored.constants.1, .inr ⟨stored.closed.1, stored.closed.2.1⟩⟩
  | rollbackBlock => exact hback (rolledBack a) rfl

theorem Collected.call {s : Notifier D} (h : Collected s) {call : BlockCall}
    (hproper : Proper s call) : Collected (s.call env call) := by
  cases call with
  | beginBlock => exact collected_beginBlock h
  | executeTransaction nodeId nonce log => exact collected_executeTransaction h hproper
  | createBlock timestamp =>
      obtain ⟨hid, hcore⟩ := @result_kept_or_closed D env s.core (.createBlock timestamp)
        ⟨nofun, nofun⟩
      exact h.closes hid hcore
  | verifyBlock header body =>
      obtain ⟨hid, hcore⟩ := @result_kept_or_closed D env s.core (.verifyBlock header body)
        ⟨nofun, nofun⟩
      exact h.closes hid hcore
  | commitBlock header body votes =>
      obtain ⟨hid, hcore⟩ := @result_kept_or_closed D env s.core (.commitBlock header body votes)
        ⟨nofun, nofun⟩
      unfold Notifier.call
      dsimp only
      by_cases hok : ((BlockCall.commitBlock header body votes).result env s.core).1 = .ok
      · rw [if_pos hok]
        exact h.closes hid hcore
      · rw [if_neg hok]
        exact h.closes hid hcore
  | rollbackBlock =>
      have hback := rolledBack s.core
      exact h.other hback.constants.1 (fun _ => hback.closed.2.1) nofun fun _ => hback.closed.2.1

/-- **What is collected is right.**  While a block is open, the list has the statuses that the
block lists for the transactions of the node. -/
theorem reachable_collected {s : Notifier D}
    (h : ((notifications env).restrict Proper).Reachable s) :
    s.processedLocalTxns = localStatuses s.core.id (s.core.txnIds.getD []) := by
  have hinvariant : ((notifications env).restrict Proper).Invariant Collected := by
    refine ⟨fun s hs => ⟨fun _ => hs.closed.2, ?_⟩, fun s call t hs hstep => ?_⟩
    · rw [hs.processed, hs.closed.2]
      rfl
    · obtain ⟨hproper, hcall⟩ := hstep
      exact Option.some.inj hcall ▸ hs.call hproper
  exact (hinvariant.reachable h).collected

/-! ## What is fired -/

/-- The call commits a block that lists a transaction of the node. -/
def CommitsLocal (env : Env D) (s : Notifier D) : BlockCall → Prop
  | .commitBlock header body votes =>
      (aergoliteCommitBlock env s.core header body votes).1 = .ok ∧
        localStatuses s.core.id body.txnIds ≠ []
  | _ => False

/-- Nothing is left of the list when a commit fires it. -/
theorem fired_call (s : Notifier D) (call : BlockCall) : (s.call env call).fired = s.fired := by
  cases call with
  | commitBlock header body votes =>
      have houtcome := commitBlock_outcome env s.core header body votes
      unfold Notifier.call
      dsimp only
      by_cases hok : ((BlockCall.commitBlock header body votes).result env s.core).1 = .ok
      · have hcleans : (BlockCall.commitBlock header body votes).cleansUp env s.core = true := by
          unfold BlockCall.result at hok
          unfold BlockCall.cleansUp BlockCall.result
          dsimp only at hok ⊢
          generalize aergoliteCommitBlock env s.core header body votes = r at houtcome hok ⊢
          cases houtcome with
          | misuse => cases hok
          | failed fails => exact absurd hok fails
          | half fails => exact absurd hok fails
          | committed opened _ _ stored => simp [opened, stored.closed]
        rw [if_pos hok, hcleans]
        exact List.append_nil _
      · rw [if_neg hok]
  | _ => rfl

/-- What is due grows with the local transactions of a block that is committed. -/
theorem due_call (s : Notifier D) (call : BlockCall) :
    (s.call env call).due ≠ [] ↔ s.due ≠ [] ∨ CommitsLocal env s call := by
  cases call with
  | commitBlock header body votes =>
      unfold Notifier.call CommitsLocal BlockCall.result
      dsimp only
      by_cases hok : (aergoliteCommitBlock env s.core header body votes).1 = .ok
      · rw [if_pos hok, ne_eq, List.append_eq_nil_iff, not_and_or]
        exact or_congr_right (iff_and_self.2 fun _ => hok)
      · rw [if_neg hok]
        exact ⟨.inl, fun h => h.resolve_right fun hcommits => hok hcommits.1⟩
  | _ => exact ⟨.inl, fun h => h.resolve_right id⟩

/-- **The notifications.**  Nothing is fired, so after a run what has been fired is what is due
exactly when no block that was committed lists a transaction of the node. -/
theorem notified_iff (env : Env D) {s t : Notifier D} {calls : List BlockCall} (h : s.Started)
    (hrun : System.run (fun s call => some (s.call env call)) s calls = some t) :
    t.fired.Perm t.due ↔
      ¬ System.Meets (fun s call => some (s.call env call)) (CommitsLocal env) s calls := by
  obtain ⟨hfired, hdue⟩ := @System.iff_of_run _ _ _ (fun s : Notifier D => s.fired = [])
    (fun s => s.due ≠ []) (fun _ => True) (CommitsLocal env) (by
      rintro s call t hfired - hstep
      obtain rfl := Option.some.inj hstep
      exact ⟨(fired_call s call).trans hfired, due_call s call⟩) s t calls h.fired (by simp) hrun
  have hlists := hdue.trans (or_iff_right (not_not.2 h.due))
  rw [hfired, List.nil_perm, ← hlists, not_not]

/-- Node 1 after the first block, in a network of two nodes. -/
def startNotifier : Notifier Unit :=
  let key (n : ℕ) : Bytes := List.replicate 33 (UInt8.ofNat n)
  let auths : List NodeAuth := [1, 2].map fun n => ⟨key n, (n : ℕ), false, 1, 0, 0⟩
  let nodes : List AllowedNode := [1, 2].map fun n => ⟨(n : ℕ), key n, 1, "light".toList, 0⟩
  ⟨{ freshAergolite 1 (key 1) auths nodes with blockHeight := 1 }, [], [], []⟩

/-- The calls that make and commit a block with the first transaction of a node. -/
def commitOf (nodeId : ℤ) : List BlockCall :=
  [.beginBlock, .executeTransaction nodeId 1 [.int64 1, .string "CALL a()".toList],
    .createBlock 0, .commitBlock
      ⟨2, [], [], [], 1, [], plainSign (List.replicate 33 1) []⟩
      ⟨[buildTransactionId nodeId 1], []⟩ []]

/-- What is fired and due after the calls, and the height of the last block. -/
def notified (calls : List BlockCall) :
    Option (ℤ × List (ℤ × TxnStatus) × List (ℤ × TxnStatus)) :=
  (System.run (fun s call => some (s.call plainEnv call)) startNotifier calls).map fun t =>
    (t.core.blockHeight, t.fired, t.due)

/-- A block with the transaction of the other node. -/
theorem notified_iff_commitOf_two : ∃ t,
    System.run (fun s call => some (s.call plainEnv call)) startNotifier (commitOf 2) = some t ∧
    t.core.blockHeight = 2 ∧
    ¬ System.Meets (fun s call => some (s.call plainEnv call)) (CommitsLocal plainEnv)
      startNotifier (commitOf 2) := by
  have h : notified (commitOf 2) = some (2, [], []) := by decide +kernel
  obtain ⟨t, ht, heq⟩ := Option.map_eq_some_iff.1 h
  obtain ⟨hheight, hrest⟩ := Prod.mk.inj heq
  obtain ⟨hfired, hdue⟩ := Prod.mk.inj hrest
  refine ⟨t, ht, hheight, (notified_iff plainEnv ⟨⟨rfl, rfl⟩, rfl, rfl, rfl⟩ ht).1 ?_⟩
  rw [hfired, hdue]

/-- **Nothing is fired.**  The block with the transaction of the node is committed. -/
theorem notification_lost : ∃ t, (notifications plainEnv).Reachable t ∧
    t.fired = [] ∧ t.due = [(1, .included)] ∧ ¬ t.fired.Perm t.due := by
  have h : notified (commitOf 1) = some (2, [], [(1, .included)]) := by decide +kernel
  obtain ⟨t, ht, heq⟩ := Option.map_eq_some_iff.1 h
  obtain ⟨hfired, hdue⟩ := Prod.mk.inj (Prod.mk.inj heq).2
  refine ⟨t, System.reachable_of_run (⟨⟨rfl, rfl⟩, rfl, rfl, rfl⟩ : startNotifier.Started) ht,
    hfired, hdue, ?_⟩
  rw [hfired, hdue]
  decide

end Core
end AergoLite
