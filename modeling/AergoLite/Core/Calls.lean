/-
# What a call of the core can do

For each of the functions of `Core.Blocks` the outcomes it has, with all it changes.
What is said of the open block, of the nonces or of what is stored goes over these
outcomes, and not over the branches of the functions again.

A *call* is one of these functions with its arguments, and `blocks` is the system in
which a node calls them in any order.
-/

import AergoLite.Core.Blocks
import AergoLite.Library.Transition

namespace AergoLite
namespace Core

open Transition

variable {D : Type}

/-- What is stored is the same. -/
structure SameData (db db' : Databases D) : Prop where
  worker : db'.worker = db.worker
  state : db'.state = db.state

theorem SameData.refl (db : Databases D) : SameData db db := ⟨rfl, rfl⟩

theorem SameData.trans {db db' db'' : Databases D} (h : SameData db db')
    (h' : SameData db' db'') : SameData db db'' :=
  ⟨h'.worker.trans h.worker, h'.state.trans h.state⟩

theorem sameData_command (db : Databases D) : SameData db db.command.2 := by
  unfold Databases.command
  split <;> exact ⟨rfl, rfl⟩

/-- `aergolite_rollback_block` restores what the databases were when the block was opened,
and what the nonces were when they were saved. -/
structure RolledBack (a b : Aergolite D) : Prop where
  closed : b.saved = none ∧ b.txnIds = none ∧ b.activeBlock = ⟨0, [], [], none⟩
  restored : (b.db.worker, b.db.state) = a.saved.getD (a.db.worker, a.db.state)
  authorizations : b.authorizations = reloadAuthNonces a.authorizations
  blockHeight : b.blockHeight = a.blockHeight
  blockId : b.blockId = a.blockId
  constants : b.id = a.id ∧ b.pubkey = a.pubkey ∧ b.adminPubkey = a.adminPubkey

theorem rolledBack (a : Aergolite D) : RolledBack a (aergoliteRollbackBlock a) := by
  refine ⟨⟨rfl, rfl, rfl⟩, ?_, rfl, rfl, rfl, ⟨rfl, rfl, rfl⟩⟩
  unfold aergoliteRollbackBlock cleanupBlock
  cases a.saved <;> rfl

/-- The outcomes of `aergolite_begin_block`. -/
inductive BeginOutcome (a : Aergolite D) : Rc × Aergolite D → Prop
  | busy {db : Databases D} (same : SameData a.db db) : BeginOutcome a (.busy, { a with db })
  /-- The first block, and its tables are not created. -/
  | failed {rc : Rc} {b : Aergolite D} (fails : rc ≠ .ok) (closed : a.saved = none)
      (first : a.blockHeight = 0) (rolledBack : RolledBack a b) : BeginOutcome a (rc, b)
  | opened {db : Databases D} (closed : a.saved = none) (same : SameData a.db db) :
      BeginOutcome a (.ok, { a with
        db
        saved := some (a.db.worker, a.db.state)
        activeBlock := ⟨a.blockHeight + 1, a.blockId, [], none⟩
        txnIds := some []
        authorizations := saveAuthNonces a.authorizations })

theorem sameData_prepareDb (db : Databases D) : SameData db (aergolitePrepareDb db).2 := by
  have hone := sameData_command db
  have htwo := hone.trans (sameData_command db.command.2)
  unfold aergolitePrepareDb
  dsimp only
  split_ifs
  · exact hone
  · exact htwo
  · exact htwo.trans (sameData_command _)

/-- **What `aergolite_begin_block` does.** -/
theorem beginBlock_outcome (a : Aergolite D) : BeginOutcome a (aergoliteBeginBlock a) := by
  have hflags : SameData a.db { a.db with nodesChanged := false, configChanged := false } :=
    ⟨rfl, rfl⟩
  have hone := hflags.trans (sameData_command _)
  have htwo := hone.trans (sameData_command _)
  unfold aergoliteBeginBlock
  dsimp only
  generalize ({ a.db with nodesChanged := false, configChanged := false } : Databases D).command =
    first at hone htwo ⊢
  obtain ⟨rc, db⟩ := first
  dsimp only at hone htwo ⊢
  by_cases hbusy : (decide (rc ≠ .ok) || a.saved.isSome) = true
  · rw [if_pos hbusy]
    exact .busy hone
  rw [if_neg hbusy]
  have hclosed : a.saved = none := by
    simp only [Bool.or_eq_true, not_or, Bool.not_eq_true, Option.isSome_eq_false_iff] at hbusy
    exact Option.isNone_iff_eq_none.1 hbusy.2
  generalize db.command = second at htwo ⊢
  obtain ⟨rc', db'⟩ := second
  obtain ⟨hworker, hstate⟩ := htwo
  dsimp only at hworker hstate ⊢
  by_cases hsecond : rc' ≠ .ok
  · rw [if_pos hsecond]
    exact .busy ⟨hworker, hstate⟩
  rw [if_neg hsecond]
  by_cases hfirst : a.blockHeight + 1 = 1
  · have hprepare := sameData_prepareDb { db' with txnCount := 0 }
    rw [if_pos hfirst]
    generalize aergolitePrepareDb { db' with txnCount := 0 } = prepared at hprepare ⊢
    obtain ⟨rc'', db''⟩ := prepared
    have hsame : SameData a.db db'' :=
      ⟨hprepare.worker.trans hworker, hprepare.state.trans hstate⟩
    rw [hworker, hstate]
    split_ifs with hfails
    · refine .failed hfails hclosed (by omega) ⟨⟨rfl, rfl, rfl⟩, ?_, rfl, rfl, rfl, rfl, rfl, rfl⟩
      rw [hclosed]
      rfl
    · exact .opened hclosed hsame
  · rw [if_neg hfirst, if_neg (not_not.2 rfl), hworker, hstate]
    exact .opened hclosed ⟨rfl, rfl⟩

/-- What `aergolite_execute_transaction` calls. -/
def Aergolite.execute (env : Env D) (a : Aergolite D) (nodeId nonce : ℤ) (log : Log) :
    Effect D :=
  executeTransaction env.codec env.engine a.isFullNode a.authorizations a.activeBlock.height
    nodeId nonce (buildTransactionId nodeId nonce) log a.db

/-- The outcomes of `aergolite_execute_transaction`. -/
inductive ExecuteOutcome (env : Env D) (a : Aergolite D) (nodeId nonce : ℤ) (log : Log) :
    Rc × Aergolite D → Prop
  | executed (succeeds : (a.execute env nodeId nonce log).rc = .ok) :
      ExecuteOutcome env a nodeId nonce log (.ok, { a with
        db := (a.execute env nodeId nonce log).db
        txnIds := a.txnIds.map (· ++ [buildTransactionId nodeId nonce])
        authorizations := updateAuthLastNonce nodeId nonce a.authorizations })
  /-- It is to be tried again, or is refused. -/
  | refused {rc : Rc} (again : rc = .busy ∨ rc = .perm)
      (fails : (a.execute env nodeId nonce log).rc = rc) :
      ExecuteOutcome env a nodeId nonce log
        (rc, { a with db := (a.execute env nodeId nonce log).db })
  | failed {rc : Rc} {db : Databases D} (fails : (a.execute env nodeId nonce log).rc = rc)
      (counts : rc ≠ .ok ∧ rc ≠ .busy ∧ rc ≠ .perm)
      (records : db = (updateNodeLastNonce nodeId nonce
        { (a.execute env nodeId nonce log).db with
          txnCount := (a.execute env nodeId nonce log).db.txnCount + 1 }).2) :
      ExecuteOutcome env a nodeId nonce log (rc, { a with
        db
        txnIds := a.txnIds.map (· ++ [buildTransactionId nodeId nonce ||| failedFlag])
        authorizations := updateAuthLastNonce nodeId nonce a.authorizations })

/-- **What `aergolite_execute_transaction` does.** -/
theorem executeTransaction_outcome (env : Env D) (a : Aergolite D) (nodeId nonce : ℤ)
    (log : Log) : ExecuteOutcome env a nodeId nonce log
      (aergoliteExecuteTransaction env a nodeId nonce log) := by
  unfold aergoliteExecuteTransaction
  dsimp only
  split_ifs with hok hagain
  · exact .executed hok
  · exact .refused hagain rfl
  · rw [not_or] at hagain
    exact .failed rfl ⟨hok, hagain⟩ rfl

/-- The outcomes of `aergolite_verify_block`. -/
inductive VerifyOutcome (a : Aergolite D) (header : Header) (body : Body) :
    Rc × Aergolite D → Prop
  | kept {rc : Rc} {id : Bytes} (fails : rc ≠ .ok) :
      VerifyOutcome a header body (rc, { a with activeBlock := { a.activeBlock with id } })
  | failed {rc : Rc} {b : Aergolite D} (fails : rc ≠ .ok) (opened : a.txnIds.isSome = true)
      (rolledBack : RolledBack a b) : VerifyOutcome a header body (rc, b)
  | verified {db : Databases D} (opened : a.txnIds.isSome = true) (same : SameData a.db db)
      (height : header.height = a.blockHeight + 1) (prevHash : header.prevHash = a.blockId) :
      VerifyOutcome a header body (.ok, { a with
        db
        activeBlock := { a.activeBlock with
          id := header.id
          verified := some (header, body) } })

/-- A rollback after commands that have not changed what is stored. -/
theorem rolledBack_of_same {a : Aergolite D} {db : Databases D} (same : SameData a.db db)
    (activeBlock : ActiveBlock) :
    RolledBack a (aergoliteRollbackBlock { a with db, activeBlock }) := by
  refine ⟨⟨rfl, rfl, rfl⟩, ?_, rfl, rfl, rfl, rfl, rfl, rfl⟩
  unfold aergoliteRollbackBlock cleanupBlock
  obtain ⟨hworker, hstate⟩ := same
  cases a.saved with
  | none => exact Prod.ext hworker hstate
  | some s => rfl

/-- **What `aergolite_verify_block` does.** -/
theorem verifyBlock_outcome (env : Env D) (a : Aergolite D) (header : Header) (body : Body) :
    VerifyOutcome a header body (aergoliteVerifyBlock env a header body) := by
  have hsame := sameData_command a.db
  unfold aergoliteVerifyBlock
  dsimp only
  generalize a.db.command = first at hsame ⊢
  obtain ⟨rc, db⟩ := first
  dsimp only at hsame ⊢
  split_ifs with hclosed hread hheight hprev hcommand hpages hstate
  · exact .kept (by decide)
  · exact .kept hread
  · exact .kept (by decide)
  · exact .kept (by decide)
  all_goals
    have hopened : a.txnIds.isSome = true := by
      simpa [Option.isSome_iff_ne_none] using hclosed
  · exact .failed hcommand hopened (rolledBack_of_same hsame _)
  · exact .failed (by decide) hopened (rolledBack_of_same hsame _)
  · exact .failed (by decide) hopened (rolledBack_of_same hsame _)
  · exact .verified hopened hsame (not_not.1 hheight) (not_not.1 hprev)

/-- The outcomes of `aergolite_create_block`. -/
inductive CreateOutcome (a : Aergolite D) : Except Rc (Header × Body) × Aergolite D → Prop
  | misuse (closed : a.txnIds = none ∨ a.saved = none) : CreateOutcome a (.error .misuse, a)
  | failed {rc : Rc} {b : Aergolite D} (opened : a.txnIds.isSome = true)
      (rolledBack : RolledBack a b) : CreateOutcome a (.error rc, b)
  | created {header : Header} {body : Body} {db : Databases D}
      (txnIds : a.txnIds = some body.txnIds) (same : SameData a.db db)
      (height : header.height = a.activeBlock.height) :
      CreateOutcome a (.ok (header, body), { a with
        db
        activeBlock := { a.activeBlock with
          id := header.id
          verified := some (header, body) } })

/-- **What `aergolite_create_block` does.** -/
theorem createBlock_outcome (env : Env D) (timestamp : ℤ) (a : Aergolite D) :
    CreateOutcome a (aergoliteCreateBlock env timestamp a) := by
  have hsame := sameData_command a.db
  unfold aergoliteCreateBlock
  split
  · rename_i txnIds worker state htxns hsaved
    have hopened : a.txnIds.isSome = true := by rw [htxns]; rfl
    dsimp only
    generalize a.db.command = first at hsame ⊢
    obtain ⟨rc, db⟩ := first
    dsimp only at hsame ⊢
    split_ifs
    · exact .failed hopened (rolledBack a)
    · exact .failed hopened (rolledBack_of_same hsame _)
    · split
      · exact .failed hopened (rolledBack_of_same hsame _)
      · exact .created htxns hsame rfl
  · rename_i hnone
    refine .misuse ?_
    rcases htxns : a.txnIds with _ | txnIds
    · exact .inl rfl
    · rcases hsaved : a.saved with _ | ⟨worker, state⟩
      · exact .inr rfl
      · exact absurd hsaved (hnone _ _ _ htxns)

/-- The nonces of the list, live and saved. -/
def authNonces (auths : List NodeAuth) : List (ℤ × ℤ × ℤ) :=
  auths.map fun auth => (auth.nodeId, auth.lastNonce, auth.savedNonce)

/-- The core has committed the open block, and stored its row. -/
structure Committed (a : Aergolite D) (row : BlockRow) (b : Aergolite D) : Prop where
  closed : b.saved = none ∧ b.txnIds = none ∧ b.activeBlock = ⟨0, [], [], none⟩
  worker : b.db.worker = a.db.worker
  state : b.db.state = { a.db.state with blocks := a.db.state.blocks ++ [row] }
  nonces : authNonces b.authorizations = authNonces a.authorizations
  blockHeight : b.blockHeight = a.activeBlock.height
  blockId : b.blockId = a.activeBlock.id
  constants : b.id = a.id ∧ b.pubkey = a.pubkey ∧ b.adminPubkey = a.adminPubkey

/-- The row `aergolite_commit_block` stores. -/
def Aergolite.row (a : Aergolite D) (header : Header) (body : Body) (votes : List VoteItem) :
    BlockRow := ⟨a.activeBlock.height, header, body, votes⟩

/-- Once the worker database is committed, the commit of the state database succeeds. -/
def StateCommits (a : Aergolite D) (header : Header) (body : Body) (votes : List VoteItem) :
    Prop :=
  (storeBlock (a.row header body votes) a.db).1 = .ok →
    (storeBlock (a.row header body votes) a.db).2.command.1 = .ok

/-- The outcomes of `aergolite_commit_block`. -/
inductive CommitOutcome (a : Aergolite D) (header : Header) (body : Body)
    (votes : List VoteItem) : Rc × Aergolite D → Prop
  | misuse : CommitOutcome a header body votes (.misuse, a)
  | failed {rc : Rc} {b : Aergolite D} (fails : rc ≠ .ok) (opened : a.txnIds.isSome = true)
      (rolledBack : RolledBack a b) : CommitOutcome a header body votes (rc, b)
  /-- The worker database is committed, and the state database is not. -/
  | half {rc : Rc} {b : Aergolite D} (fails : rc ≠ .ok) (opened : a.txnIds.isSome = true)
      (committed : ¬ StateCommits a header body votes)
      (rolledBack : RolledBack { a with saved := a.saved.map fun s => (a.db.worker, s.2) } b) :
      CommitOutcome a header body votes (rc, b)
  | committed {b : Aergolite D} (opened : a.txnIds.isSome = true)
      (active : 0 < a.activeBlock.height)
      (verified : a.activeBlock.verified = some (header, body))
      (stored : Committed a (a.row header body votes) b) :
      CommitOutcome a header body votes (.ok, b)

/-- What `update_authorizations` leaves as it is. -/
structure Updated (a b : Aergolite D) : Prop where
  active : b.saved = a.saved ∧ b.txnIds = a.txnIds ∧ b.activeBlock = a.activeBlock
  same : SameData a.db b.db
  nonces : authNonces b.authorizations = authNonces a.authorizations
  blockHeight : b.blockHeight = a.blockHeight
  blockId : b.blockId = a.blockId
  constants : b.id = a.id ∧ b.pubkey = a.pubkey ∧ b.adminPubkey = a.adminPubkey

theorem Updated.trans {a b c : Aergolite D} (h : Updated a b) (h' : Updated b c) :
    Updated a c := by
  obtain ⟨hsaved, htxns, hactive⟩ := h.active
  obtain ⟨hsaved', htxns', hactive'⟩ := h'.active
  obtain ⟨hid, hkey, hadmin⟩ := h.constants
  obtain ⟨hid', hkey', hadmin'⟩ := h'.constants
  exact ⟨⟨hsaved'.trans hsaved, htxns'.trans htxns, hactive'.trans hactive⟩,
    h.same.trans h'.same, h'.nonces.trans h.nonces, h'.blockHeight.trans h.blockHeight,
    h'.blockId.trans h.blockId, hid'.trans hid, hkey'.trans hkey, hadmin'.trans hadmin⟩

theorem updated_updateAuthorizationsCb (a : Aergolite D) (row : AllowedNode) :
    Updated a (updateAuthorizationsCb a row) := by
  have hrefl : authNonces a.authorizations = authNonces a.authorizations := rfl
  unfold updateAuthorizationsCb
  dsimp only
  split_ifs
  · refine ⟨⟨rfl, rfl, rfl⟩, .refl _, ?_, rfl, rfl, rfl, rfl, rfl⟩
    refine map_updateAuth ?_ a.authorizations
    exact fun _ => rfl
  · exact ⟨⟨rfl, rfl, rfl⟩, .refl _, hrefl, rfl, rfl, rfl, rfl, rfl⟩
  · exact ⟨⟨rfl, rfl, rfl⟩, .refl _, hrefl, rfl, rfl, rfl, rfl, rfl⟩

theorem updated_updateAuthorizations (a : Aergolite D) : Updated a (updateAuthorizations a) := by
  have hrows : ∀ (rows : List AllowedNode) (b : Aergolite D),
      Updated b (rows.foldl updateAuthorizationsCb b) := by
    intro rows
    induction rows with
    | nil => exact fun b => ⟨⟨rfl, rfl, rfl⟩, .refl _, rfl, rfl, rfl, rfl, rfl, rfl⟩
    | cons row rows ih =>
        intro b
        rw [List.foldl_cons]
        exact (updated_updateAuthorizationsCb b row).trans (ih _)
  have hcommand : Updated a { a with db := a.db.command.2 } :=
    ⟨⟨rfl, rfl, rfl⟩, sameData_command a.db, rfl, rfl, rfl, rfl, rfl, rfl⟩
  unfold updateAuthorizations
  dsimp only
  split_ifs
  · exact hcommand
  · exact hcommand.trans (hrows _ _)

theorem Committed.updated {a b c : Aergolite D} {row : BlockRow} (h : Committed a row b)
    (h' : Updated b c) : Committed a row c := by
  obtain ⟨hsaved, htxns, hactive⟩ := h.closed
  obtain ⟨hsaved', htxns', hactive'⟩ := h'.active
  obtain ⟨hid, hkey, hadmin⟩ := h.constants
  obtain ⟨hid', hkey', hadmin'⟩ := h'.constants
  exact ⟨⟨hsaved'.trans hsaved, htxns'.trans htxns, hactive'.trans hactive⟩,
    h'.same.worker.trans h.worker, h'.same.state.trans h.state, h'.nonces.trans h.nonces,
    h'.blockHeight.trans h.blockHeight, h'.blockId.trans h.blockId, hid'.trans hid,
    hkey'.trans hkey, hadmin'.trans hadmin⟩

theorem saveBlock_spec (row : BlockRow) (db : Databases D) :
    (saveBlock row db).2.worker = db.worker ∧ ((saveBlock row db).1 = .ok →
      (saveBlock row db).2.state = { db.state with blocks := db.state.blocks ++ [row] }) := by
  obtain ⟨hworker, hstate⟩ := sameData_command db
  unfold saveBlock
  dsimp only
  split_ifs with hrc hsaved
  · exact ⟨hworker, fun h => absurd h hrc⟩
  · exact ⟨hworker, fun h => absurd h (by decide)⟩
  · refine ⟨hworker, fun _ => ?_⟩
    dsimp only
    rw [hstate]

/-- What the commands up to the commit of the worker database store. -/
theorem storeBlock_spec (row : BlockRow) (db : Databases D) :
    (storeBlock row db).2.worker = db.worker ∧ ((storeBlock row db).1 = .ok →
      (storeBlock row db).2.state = { db.state with blocks := db.state.blocks ++ [row] }) := by
  have hone := sameData_command db
  have htwo := hone.trans (sameData_command db.command.2)
  obtain ⟨hworker, hstate⟩ := saveBlock_spec row db.command.2.command.2
  have hcommit := sameData_command (saveBlock row db.command.2.command.2).2
  rw [htwo.worker] at hworker
  rw [htwo.state] at hstate
  unfold storeBlock
  dsimp only
  split_ifs with hbegin hpages hsaved
  · exact ⟨hone.worker, fun h => absurd h (by decide)⟩
  · exact ⟨htwo.worker, fun h => absurd h hpages⟩
  · exact ⟨hworker, fun h => absurd h hsaved⟩
  · exact ⟨hcommit.worker.trans hworker, fun _ =>
      hcommit.state.trans (hstate (not_not.1 hsaved))⟩

/-- **What `aergolite_commit_block` does.** -/
theorem commitBlock_outcome (env : Env D) (a : Aergolite D) (header : Header) (body : Body)
    (votes : List VoteItem) :
    CommitOutcome a header body votes (aergoliteCommitBlock env a header body votes) := by
  unfold aergoliteCommitBlock
  by_cases hclosed : (a.txnIds.isNone || decide (a.activeBlock.height ≤ 0)) = true
  · rw [if_pos hclosed]
    exact .misuse
  rw [if_neg hclosed]
  simp only [Bool.or_eq_true, decide_eq_true_eq, not_or, Option.isNone_iff_eq_none,
    not_le] at hclosed
  have hopened : a.txnIds.isSome = true := Option.isSome_iff_ne_none.2 hclosed.1
  by_cases hverified : a.activeBlock.verified ≠ some (header, body)
  · rw [if_pos hverified]
    exact .misuse
  rw [if_neg hverified]
  by_cases hpages : compareModifiedPages env a body ≠ .ok
  · rw [if_pos hpages]
    exact .failed (by decide) hopened (rolledBack a)
  rw [if_neg hpages]
  obtain ⟨s, hsaved⟩ : ∃ s, a.saved = some s := by
    unfold compareModifiedPages at hpages
    cases hsaved : a.saved with
    | none => simp [hsaved] at hpages
    | some s => exact ⟨s, rfl⟩
  obtain ⟨hworker, hstate⟩ := storeBlock_spec (a.row header body votes) a.db
  have hsame := sameData_command (storeBlock (a.row header body votes) a.db).2
  have hhalf : ∀ rc, (storeBlock (a.row header body votes) a.db).1 = .ok →
      (storeBlock (a.row header body votes) a.db).2.command.1 = rc → rc ≠ .ok →
      ¬ StateCommits a header body votes :=
    fun rc hstored hcommand hrc hcommits => hrc (hcommand.symm.trans (hcommits hstored))
  change CommitOutcome a header body votes
    (let r := storeBlock (a.row header body votes) a.db
     if r.1 ≠ .ok then (r.1, aergoliteRollbackBlock { a with db := r.2 })
     else
       let saved := a.saved.map fun s => (r.2.worker, s.2)
       if r.2.command.1 ≠ .ok then
         (r.2.command.1, aergoliteRollbackBlock { a with db := r.2.command.2, saved })
       else
         let b := cleanupBlock { a with
           db := r.2.command.2
           blockHeight := a.activeBlock.height
           blockId := a.activeBlock.id }
         (.ok, if b.db.nodesChanged then updateAuthorizations b else b))
  generalize storeBlock (a.row header body votes) a.db = r at hworker hstate hsame hhalf ⊢
  obtain ⟨rc, db⟩ := r
  dsimp only at hworker hstate hsame hhalf ⊢
  generalize db.command = second at hsame hhalf ⊢
  obtain ⟨rc', db'⟩ := second
  obtain ⟨hworker', hstate'⟩ := hsame
  dsimp only at hworker' hstate' hhalf ⊢
  by_cases hstored : rc ≠ .ok
  · rw [if_pos hstored]
    refine .failed hstored hopened ⟨⟨rfl, rfl, rfl⟩, ?_, rfl, rfl, rfl, rfl, rfl, rfl⟩
    simp only [aergoliteRollbackBlock, cleanupBlock, hsaved, Option.getD_some]
  rw [if_neg hstored]
  rw [not_not] at hstored
  by_cases hcommit : rc' ≠ .ok
  · rw [if_pos hcommit]
    refine .half hcommit hopened (hhalf rc' hstored rfl hcommit)
      ⟨⟨rfl, rfl, rfl⟩, ?_, rfl, rfl, rfl, rfl, rfl, rfl⟩
    simp only [aergoliteRollbackBlock, cleanupBlock, hsaved, Option.getD_some, Option.map_some,
      hworker]
  rw [if_neg hcommit]
  have hclean : Committed a (a.row header body votes) (cleanupBlock { a with
      db := db'
      blockHeight := a.activeBlock.height
      blockId := a.activeBlock.id }) :=
    ⟨⟨rfl, rfl, rfl⟩, hworker'.trans hworker, hstate'.trans (hstate hstored), rfl, rfl, rfl, rfl,
      rfl, rfl⟩
  refine .committed hopened hclosed.2 (not_not.1 hverified) ?_
  split_ifs
  · exact hclean.updated (updated_updateAuthorizations _)
  · exact hclean

/-- A call of one of the functions. -/
inductive BlockCall
  | beginBlock
  | executeTransaction (nodeId nonce : ℤ) (log : Log)
  | createBlock (timestamp : ℤ)
  | verifyBlock (header : Header) (body : Body)
  | commitBlock (header : Header) (body : Body) (votes : List VoteItem)
  | rollbackBlock

/-- The result code of a call and the state after it. -/
def BlockCall.result (env : Env D) (a : Aergolite D) : BlockCall → Rc × Aergolite D
  | .beginBlock => aergoliteBeginBlock a
  | .executeTransaction nodeId nonce log => aergoliteExecuteTransaction env a nodeId nonce log
  | .createBlock timestamp =>
      match aergoliteCreateBlock env timestamp a with
      | (.ok _, b) => (.ok, b)
      | (.error rc, b) => (rc, b)
  | .verifyBlock header body => aergoliteVerifyBlock env a header body
  | .commitBlock header body votes => aergoliteCommitBlock env a header body votes
  | .rollbackBlock => (.ok, aergoliteRollbackBlock a)

end Core
end AergoLite
