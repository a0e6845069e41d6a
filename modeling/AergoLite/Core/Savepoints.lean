/-
# The savepoints of a transaction

`execute_transaction` of `core/sqlite3.c` opens a savepoint `txn` on the worker database and
one on the state database, and what fails later is to be undone by going back to them.  Here
the connections have what they can go back to, their `Nesting`, and a statement of the
transaction may do with the worker database whatever the engine does, also open, release or
roll back savepoints and end the transaction of the block.

`executeTransaction_lift` connects this with `Core.executeTransaction`: where the statements
leave the nesting alone, the result codes and the databases are the same.
-/

import AergoLite.Core.Blocks
import AergoLite.Library.Savepoints

namespace AergoLite
namespace Core

open Savepoints

variable {D : Type}

/-- The name of the savepoints. -/
def txn : Text := "txn".toList

/-- The connection to the worker database, as the engine has it. -/
structure Connection (D : Type) where
  content : Worker D
  nesting : Nesting Text (Worker D)

/-- The connections to the two databases. -/
@[ext] structure Connections (D : Type) where
  db : Databases D
  worker : Nesting Text (Worker D)
  state : Nesting Text StateDb

/-- The next commands do not fail for reasons of their own. -/
def Databases.Obliges (n : ℕ) (db : Databases D) : Prop := ∀ rc ∈ db.faults.take n, rc = .ok

@[simp] theorem Databases.obliges_zero (db : Databases D) : db.Obliges 0 := by
  simp [Obliges]

theorem Databases.Obliges.mono {m n : ℕ} {db : Databases D} (h : db.Obliges n) (hle : m ≤ n) :
    db.Obliges m :=
  fun rc hrc => h rc ((List.take_subset_take_left _ hle) hrc)

theorem Databases.obliges_succ_iff {n : ℕ} {db : Databases D} :
    db.Obliges (n + 1) ↔ db.command.1 = .ok ∧ db.command.2.Obliges n := by
  unfold Obliges Databases.command
  cases hfaults : db.faults <;> simp [hfaults]

namespace Connections

/-- A command that fails for reasons of its own does nothing else. -/
def advance (c : Connections D) : Connections D := { c with db := c.db.command.2 }

/-- A command on the savepoints: `SQLITE_ERROR` if there is none of the name. -/
def control (op : Connections D → Option (Connections D)) (c : Connections D) :
    Rc × Connections D :=
  if c.db.command.1 ≠ .ok then (c.db.command.1, c.advance)
  else match op c.advance with
    | none => (.error, c.advance)
    | some c' => (.ok, c')

/-- `SAVEPOINT txn` on the worker database. -/
def savepointWorker (c : Connections D) : Option (Connections D) :=
  some { c with worker := c.worker.savepoint txn c.db.worker }

/-- `SAVEPOINT txn` on the state database. -/
def savepointState (c : Connections D) : Option (Connections D) :=
  some { c with state := c.state.savepoint txn c.db.state }

/-- `RELEASE SAVEPOINT txn` on the worker database. -/
def releaseWorker (c : Connections D) : Option (Connections D) :=
  (c.worker.release txn).map fun worker => { c with worker }

/-- `RELEASE SAVEPOINT txn` on the state database. -/
def releaseState (c : Connections D) : Option (Connections D) :=
  (c.state.release txn).map fun state => { c with state }

/-- `ROLLBACK TO SAVEPOINT txn` on the worker database. -/
def rollbackWorker (c : Connections D) : Option (Connections D) :=
  (c.worker.rollbackTo txn).map fun r =>
    { c with
      db := { c.db with worker := r.1 }
      worker := r.2 }

/-- `ROLLBACK TO SAVEPOINT txn` on the state database. -/
def rollbackState (c : Connections D) : Option (Connections D) :=
  (c.state.rollbackTo txn).map fun r =>
    { c with
      db := { c.db with state := r.1 }
      state := r.2 }

/-- Commands up to the first one that fails. -/
def controls : List (Connections D → Option (Connections D)) → Connections D →
    Rc × Connections D
  | [], c => (.ok, c)
  | op :: ops, c =>
    let r := c.control op
    if r.1 ≠ .ok then r else controls ops r.2

/-- The commands at `loc_rollback`. -/
def rollback (c : Connections D) : Connections D :=
  (c.controls [rollbackWorker, releaseWorker, rollbackState, releaseState]).2

/-- The commands of a transaction, or its special command. -/
def executeBody (codec : Codec) (eng : Engine (Connection D)) (auths : List NodeAuth)
    (height nodeId : ℤ) (log : Log) (c : Connections D) : Rc × Connections D :=
  if isSpecialTransaction log then
    let r := executeSpecialTransaction codec auths height log c.db
    (r.rc, { c with db := r.db })
  else
    let r := executeCommands eng nodeId ⟨[], [], ⟨c.db.worker, c.worker⟩⟩ (commandsToRun log)
    (r.rc, { c with
      db := { c.db with worker := r.worker.data.content }
      worker := r.worker.data.nesting })

/-- Where `execute_transaction` stops before it undoes or releases anything. -/
inductive Exit (D : Type)
  /-- There is no savepoint. -/
  | busy (c : Connections D)
  /-- There is one on the worker database only. -/
  | half (c : Connections D)
  /-- `goto loc_rollback`. -/
  | failed (rc : Rc) (c : Connections D)
  /-- The transaction is executed and recorded. -/
  | recorded (c : Connections D)

/-- `execute_transaction`, up to the commands that release the savepoints. -/
def executeToExit (codec : Codec) (eng : Engine (Connection D)) (isFullNode : Bool)
    (auths : List NodeAuth) (height nodeId nonce : ℤ) (tid : BitVec 64) (log : Log)
    (c : Connections D) : Exit D :=
  let (rc, c) := c.control savepointWorker
  if rc ≠ .ok then .busy c
  else
    let (rc, c) := c.control savepointState
    if rc ≠ .ok then .half c
    else
      let (rc, c) := executeBody codec eng auths height nodeId log c
      if rc ≠ .ok then .failed rc c
      else
        let (rc, db) := recordTransaction isFullNode height nodeId nonce tid log c.db
        if rc ≠ .ok then .failed rc { c with db } else .recorded { c with db }

/-- The rest of `execute_transaction`. -/
def Exit.outcome : Exit D → Rc × Connections D
  | busy c => (.busy, c)
  | half c => (.busy, (c.control releaseWorker).2)
  | failed rc c => (rc, c.rollback)
  | recorded c =>
    let (rc, c) := c.control releaseWorker
    let (rc2, c) := c.control releaseState
    if rc = .ok ∧ rc2 = .ok then (.ok, { c with db := { c.db with txnCount := c.db.txnCount + 1 } })
    else (if rc = .ok then .error else rc, c.rollback)

/-- `execute_transaction`. -/
def executeTransaction (codec : Codec) (eng : Engine (Connection D)) (isFullNode : Bool)
    (auths : List NodeAuth) (height nodeId nonce : ℤ) (tid : BitVec 64) (log : Log)
    (c : Connections D) : Rc × Connections D :=
  (executeToExit codec eng isFullNode auths height nodeId nonce tid log c).outcome

/-- The commands of a transaction are for the worker database. -/
theorem executeBody_state (codec : Codec) (eng : Engine (Connection D)) (auths : List NodeAuth)
    (height nodeId : ℤ) (log : Log) (c : Connections D) :
    (executeBody codec eng auths height nodeId log c).2.state = c.state := by
  unfold executeBody
  split_ifs <;> rfl

/-! ## The commands on the savepoints -/

variable {c c' : Connections D} {op : Connections D → Option (Connections D)}
  {ops : List (Connections D → Option (Connections D))}

theorem control_refused (h : c.db.command.1 ≠ .ok) :
    c.control op = (c.db.command.1, c.advance) := if_pos h

theorem control_none (h : c.db.command.1 = .ok) (hop : op c.advance = none) :
    c.control op = (.error, c.advance) := by
  rw [control, if_neg (not_not.2 h), hop]

theorem control_some (h : c.db.command.1 = .ok) (hop : op c.advance = some c') :
    c.control op = (.ok, c') := by
  rw [control, if_neg (not_not.2 h), hop]

/-- A command fails and does nothing else, or it succeeds. -/
theorem control_cases (op : Connections D → Option (Connections D)) (c : Connections D) :
    ((c.control op).1 ≠ .ok ∧ (c.control op).2 = c.advance) ∨
      (c.db.command.1 = .ok ∧ (c.control op).1 = .ok ∧ op c.advance = some (c.control op).2) := by
  by_cases hrc : c.db.command.1 = .ok
  · cases hop : op c.advance with
    | none => exact .inl (by rw [control_none hrc hop]; exact ⟨by simp, rfl⟩)
    | some c' => exact .inr (by rw [control_some hrc hop]; exact ⟨hrc, rfl, rfl⟩)
  · exact .inl (by rw [control_refused hrc]; exact ⟨hrc, rfl⟩)

@[simp] theorem advance_worker (c : Connections D) : c.advance.worker = c.worker := rfl

@[simp] theorem advance_state (c : Connections D) : c.advance.state = c.state := rfl

@[simp] theorem advance_db_worker (c : Connections D) : c.advance.db.worker = c.db.worker := by
  rw [advance, c.db.command_eq]

@[simp] theorem advance_db_state (c : Connections D) : c.advance.db.state = c.db.state := by
  rw [advance, c.db.command_eq]

theorem controls_append (ops' : List (Connections D → Option (Connections D))) :
    c.controls (ops ++ ops') =
      if (c.controls ops).1 ≠ .ok then c.controls ops else (c.controls ops).2.controls ops' := by
  induction ops generalizing c with
  | nil => simp [controls]
  | cons op ops ih =>
      simp only [List.cons_append, controls]
      split_ifs with hfails hrest
      · rfl
      · rw [ih, if_pos hrest]
      · rw [ih, if_neg hrest]

/-- **What the commands at `loc_rollback` make of the worker database**: all is brought back,
or no savepoint was found, or one is left open. -/
theorem controls_rollbackWorker (c : Connections D) :
    let r := c.controls [rollbackWorker, releaseWorker]
    (r.2.state = c.state ∧ r.2.db.state = c.db.state) ∧
      ((r.1 = .ok ∧ c.worker.Over txn r.2.db.worker r.2.worker ∧
          (∀ n, c.db.Obliges (n + 2) ↔ r.2.db.Obliges n)) ∨
        (r.1 ≠ .ok ∧ c.worker.Free txn ∧ r.2.worker = c.worker ∧ r.2.db.worker = c.db.worker) ∨
        (r.1 ≠ .ok ∧ ¬ c.db.Obliges 2 ∧ ¬ c.worker.Free txn ∧ ¬ r.2.worker.Free txn)) := by
  obtain ⟨⟨worker, state, faults, nodesChanged, configChanged, txnCount⟩, nesting, states⟩ := c
  by_cases hfree : nesting.Free txn
  · have hundo := hfree.rollbackTo
    rcases faults with - | ⟨rc, faults⟩
    · simp [controls, control, advance, rollbackWorker, Databases.command, hundo, hfree]
    · by_cases hrc : rc = .ok <;>
        simp [controls, control, advance, rollbackWorker, Databases.command, hundo, hfree, hrc]
  · obtain ⟨w, m, hover⟩ := Nesting.exists_over hfree
    have hundo := hover.rollbackTo
    have hrelease := Nesting.release_savepoint txn w m
    rcases faults with - | ⟨rc, - | ⟨rc', faults⟩⟩
    · simp [controls, control, advance, rollbackWorker, releaseWorker, Databases.command,
        Databases.Obliges, hundo, hrelease, hover]
    · by_cases hrc : rc = .ok <;>
        simp [controls, control, advance, rollbackWorker, releaseWorker, Databases.command,
          Databases.Obliges, hundo, hrelease, hover, hrc, hfree]
    · by_cases hrc : rc = .ok <;> by_cases hrc' : rc' = .ok <;>
        simp [controls, control, advance, rollbackWorker, releaseWorker, Databases.command,
          Databases.Obliges, hundo, hrelease, hover, hrc, hrc', hfree, Nesting.over_savepoint.not_free]

/-- What they make of the state database. -/
theorem controls_rollbackState (c : Connections D) :
    let r := c.controls [rollbackState, releaseState]
    (r.2.worker = c.worker ∧ r.2.db.worker = c.db.worker) ∧
      ((c.db.Obliges 2 ∧ c.state.Over txn r.2.db.state r.2.state) ∨
        (c.state.Free txn ∧ r.2.state = c.state ∧ r.2.db.state = c.db.state) ∨
        (¬ c.db.Obliges 2 ∧ ¬ c.state.Free txn ∧ ¬ r.2.state.Free txn)) := by
  obtain ⟨⟨worker, state, faults, nodesChanged, configChanged, txnCount⟩, nesting, states⟩ := c
  by_cases hfree : states.Free txn
  · have hundo := hfree.rollbackTo
    rcases faults with - | ⟨rc, faults⟩
    · simp [controls, control, advance, rollbackState, Databases.command, hundo, hfree]
    · by_cases hrc : rc = .ok <;>
        simp [controls, control, advance, rollbackState, Databases.command, hundo, hfree, hrc]
  · obtain ⟨v, l, hover⟩ := Nesting.exists_over hfree
    have hundo := hover.rollbackTo
    have hrelease := Nesting.release_savepoint txn v l
    rcases faults with - | ⟨rc, - | ⟨rc', faults⟩⟩
    · simp [controls, control, advance, rollbackState, releaseState, Databases.command,
        Databases.Obliges, hundo, hrelease, hover]
    · by_cases hrc : rc = .ok <;>
        simp [controls, control, advance, rollbackState, releaseState, Databases.command,
          Databases.Obliges, hundo, hrelease, hover, hrc, hfree]
    · by_cases hrc : rc = .ok <;> by_cases hrc' : rc' = .ok <;>
        simp [controls, control, advance, rollbackState, releaseState, Databases.command,
          Databases.Obliges, hundo, hrelease, hover, hrc, hrc', hfree,
          Nesting.over_savepoint.not_free]

/-- The commands at `loc_rollback` bring both connections back to what they were in `s`, the
content of the worker database to `w`.  If the savepoint of the state database is still open,
all four have to succeed.  If it is released the third one fails, and if that of the worker
database is too, the first one. -/
def RollsBack (s c : Connections D) (w : Worker D) : Prop :=
  if c.state.Free txn then
    c.db.state = s.db.state ∧
      (c.db.Obliges 2 ∧ c.worker.Over txn w s.worker ∨ c.worker = s.worker ∧ w = c.db.worker)
  else c.db.Obliges 4 ∧ c.worker.Over txn w s.worker

/-- **When the commands at `loc_rollback` bring everything back.** -/
theorem rollback_iff {s : Connections D} {w : Worker D} (hworker : s.worker.Free txn)
    (hstate : s.state.Free txn)
    (hopen : c.state = s.state ∨ c.state = s.state.savepoint txn s.db.state) :
    (c.rollback.worker = s.worker ∧ c.rollback.state = s.state ∧
        c.rollback.db.state = s.db.state ∧ c.rollback.db.worker = w) ↔ RollsBack s c w := by
  have happend := @controls_append D c [rollbackWorker, releaseWorker]
    [rollbackState, releaseState]
  obtain ⟨⟨hkept, hcontent⟩, hundo⟩ := c.controls_rollbackWorker
  unfold rollback RollsBack
  rw [show [rollbackWorker, releaseWorker, rollbackState, releaseState] =
    [rollbackWorker (D := D), releaseWorker] ++ [rollbackState, releaseState] from rfl, happend]
  generalize c.controls [rollbackWorker, releaseWorker] = r at hkept hcontent hundo ⊢
  rcases hundo with ⟨hrc, hover, hrest⟩ | ⟨hrc, hfree, hsame, hdata⟩ | ⟨hrc, hstuck, hfound, hleft⟩
  · rw [if_neg (not_not.2 hrc)]
    obtain ⟨⟨hworker', hdata'⟩, hundo⟩ := r.2.controls_rollbackState
    generalize r.2.controls [rollbackState, releaseState] = q at hworker' hdata' hundo ⊢
    rw [hworker', hdata']
    rw [hkept, hcontent] at hundo
    rcases hundo with ⟨hobliges, hstates⟩ | ⟨hreleased, hsame, hrows⟩ | ⟨hstuck, hfound, hleft⟩
    · -- everything is brought back
      rw [if_neg hstates.not_free]
      obtain hopen | hopen := hopen
      · exact absurd (hopen ▸ hstate) hstates.not_free
      rw [hopen] at hstates
      obtain ⟨hrows, hstates⟩ := hstates.unique Nesting.over_savepoint
      constructor
      · rintro ⟨heq, -, -, rfl⟩
        exact ⟨(hrest 2).2 hobliges, heq ▸ hover⟩
      · rintro ⟨-, hover'⟩
        obtain ⟨rfl, hworker'⟩ := hover.unique hover'
        exact ⟨hworker', hstates, hrows, rfl⟩
    · -- the savepoint of the state database is released
      rw [if_pos hreleased, hsame, hrows]
      obtain hopen | hopen := hopen
      · constructor
        · rintro ⟨heq, -, hrows, rfl⟩
          exact ⟨hrows, .inl ⟨(hrest 0).2 (by simp), heq ▸ hover⟩⟩
        · rintro ⟨hrows, ⟨-, hover'⟩ | ⟨hsame, -⟩⟩
          · obtain ⟨rfl, hworker'⟩ := hover.unique hover'
            exact ⟨hworker', hopen, hrows, rfl⟩
          · exact absurd (hsame ▸ hworker) hover.not_free
      · exact absurd hreleased (hopen ▸ Nesting.over_savepoint.not_free)
    · -- it is left open
      rw [if_neg hfound]
      constructor
      · rintro ⟨-, heq, -⟩
        exact absurd (heq ▸ hstate) hleft
      · rintro ⟨hobliges, -⟩
        exact absurd ((hrest 2).1 hobliges) hstuck
  · -- there is no savepoint on the worker database
    rw [if_pos hrc, hsame, hkept, hcontent, hdata]
    split_ifs with hreleased
    · constructor
      · rintro ⟨heq, -, hrows, rfl⟩
        exact ⟨hrows, .inr ⟨heq, rfl⟩⟩
      · rintro ⟨hrows, ⟨-, hover⟩ | ⟨heq, rfl⟩⟩
        · exact absurd hfree hover.not_free
        · refine ⟨heq, ?_, hrows, rfl⟩
          exact hopen.resolve_right fun hopen =>
            (hopen ▸ Nesting.over_savepoint.not_free : ¬ c.state.Free txn) hreleased
    · constructor
      · rintro ⟨-, heq, -⟩
        exact absurd (heq ▸ hstate) hreleased
      · rintro ⟨-, hover⟩
        exact absurd hfree hover.not_free
  · -- the one on the worker database is left open
    rw [if_pos hrc]
    constructor
    · rintro ⟨heq, -⟩
      exact absurd (heq ▸ hworker) hleft
    · intro hback
      split_ifs at hback with hreleased
      · obtain ⟨-, ⟨hobliges, -⟩ | ⟨heq, -⟩⟩ := hback
        · exact absurd hobliges hstuck
        · exact absurd (heq ▸ hworker) hfound
      · exact absurd (hback.1.mono (by omega)) hstuck

/-! ## Statements on savepoints -/

/-- The statements that control savepoints. -/
inductive Control
  | savepoint (name : Text)
  | release (name : Text)
  | rollbackTo (name : Text)

/-- The savepoint that a statement names. -/
def Control.name : Control → Text
  | savepoint name => name
  | release name => name
  | rollbackTo name => name

/-- A statement on a savepoint, as a transaction executes it. -/
def Control.run (conn : Connection D) : Control → Rc × Connection D
  | savepoint name => (.ok, { conn with nesting := conn.nesting.savepoint name conn.content })
  | release name =>
    match conn.nesting.release name with
    | none => (.error, conn)
    | some nesting => (.ok, { conn with nesting })
  | rollbackTo name =>
    match conn.nesting.rollbackTo name with
    | none => (.error, conn)
    | some (content, nesting) => (.ok, ⟨content, nesting⟩)

/-- An engine of the content of a database, with the statements that control savepoints. -/
def withSavepoints (control : Statement → Option Control) (eng : Engine D) :
    Engine (Connection D) where
  toSyntax := eng.toSyntax
  compile conn st := eng.compile conn.data.content st
  step conn nodeId st :=
    match control st with
    | some op => op.run conn.data
    | none =>
      let r := eng.step conn.data.content nodeId st
      (r.1, { conn.data with content := { conn.data.content with data := r.2 } })

/-- The statements that control savepoints use other names. -/
def OtherNames (control : Statement → Option Control) (m : Nesting Text (Worker D)) : Prop :=
  ∀ st op, control st = some op → op.name ≠ txn ∧ m.Free op.name

/-- **Statements on other savepoints keep the one of the transaction.** -/
theorem Control.run_over {op : Control} {conn : Connection D} {w : Worker D}
    {m : Nesting Text (Worker D)} (hother : op.name ≠ txn ∧ m.Free op.name)
    (h : conn.nesting.Over txn w m) : (op.run conn).2.nesting.Over txn w m := by
  cases op with
  | savepoint name => exact h.savepoint hother.1
  | release name =>
      cases hrelease : conn.nesting.release name with
      | none => simpa only [run, hrelease] using h
      | some nesting =>
          simpa only [run, hrelease] using h.release_other hother.1 hother.2 hrelease
  | rollbackTo name =>
      cases hrollback : conn.nesting.rollbackTo name with
      | none => simpa only [run, hrollback] using h
      | some r =>
          simpa only [run, hrollback] using h.rollbackTo_other hother.1 hother.2 hrollback

theorem step_over {control : Statement → Option Control} {eng : Engine D} {nodeId : ℤ}
    {worker : Worker (Connection D)} {w : Worker D} {m : Nesting Text (Worker D)}
    (hother : OtherNames control m) (h : worker.data.nesting.Over txn w m) (st : Statement) :
    ((withSavepoints control eng).step worker nodeId st).2.nesting.Over txn w m := by
  unfold withSavepoints
  dsimp only
  cases hcontrol : control st with
  | none => exact h
  | some op => exact Control.run_over (hother st op hcontrol) h

/-- The commands of a transaction keep its savepoint, if they use other names. -/
theorem executeCommands_over {control : Statement → Option Control} {eng : Engine D} {nodeId : ℤ}
    {w : Worker D} {m : Nesting Text (Worker D)} (hother : OtherNames control m)
    {worker : Worker (Connection D)} (h : worker.data.nesting.Over txn w m) (sqls : List Text) :
    (executeCommands (withSavepoints control eng) nodeId worker sqls).worker.data.nesting.Over
      txn w m :=
  executeCommands_keeps (fun worker : Worker (Connection D) => worker.data.nesting.Over txn w m)
    (fun _ st h => step_over hother h st) sqls h

/-! ## Statements that leave the nesting alone -/

/-- An engine that works on the content of the worker database only. -/
def lift (eng : Engine D) : Engine (Connection D) := withSavepoints (fun _ => none) eng

theorem aergoliteExecLoop_lift (eng : Engine D) (nodeId : ℤ) (fuel : ℕ) (w : Worker D)
    (n : Nesting Text (Worker D)) (sql : Text) :
    let r := aergoliteExecLoop eng nodeId fuel w sql
    aergoliteExecLoop (lift eng) nodeId fuel ⟨[], [], ⟨w, n⟩⟩ sql =
      ⟨r.ran, r.rc, ⟨[], [], ⟨r.worker, n⟩⟩⟩ := by
  induction fuel generalizing w sql with
  | zero => rfl
  | succ fuel ih =>
      by_cases hempty : sql = []
      · simp [aergoliteExecLoop, hempty]
      simp only [aergoliteExecLoop, hempty, ite_false]
      rw [show (lift eng).toSyntax = eng.toSyntax from rfl]
      cases hprepare : prepare eng.toSyntax sql with
      | none => rfl
      | some r =>
          obtain ⟨st, rest⟩ := r
          cases st with
          | none => exact ih w rest
          | some st =>
              have hcompile : (lift eng).compile ⟨[], [], ⟨w, n⟩⟩ st = eng.compile w st := rfl
              have hstep : (lift eng).step ⟨[], [], ⟨w, n⟩⟩ nodeId st =
                  ((eng.step w nodeId st).1, ⟨{ w with data := (eng.step w nodeId st).2 }, n⟩) := rfl
              simp only [hcompile, hstep]
              by_cases hprepared : eng.compile w st = .ok
              · rw [if_neg (not_not.2 hprepared), if_neg (not_not.2 hprepared)]
                by_cases hdone : (eng.step w nodeId st).1 = .ok
                · rw [if_neg (not_not.2 hdone), if_neg (not_not.2 hdone), ih]
                · rw [if_pos hdone, if_pos hdone]
              · rw [if_pos hprepared, if_pos hprepared]

theorem executeCommands_lift (eng : Engine D) (nodeId : ℤ) (w : Worker D)
    (n : Nesting Text (Worker D)) (sqls : List Text) :
    let r := executeCommands eng nodeId w sqls
    executeCommands (lift eng) nodeId ⟨[], [], ⟨w, n⟩⟩ sqls =
      ⟨r.ran, r.rc, ⟨[], [], ⟨r.worker, n⟩⟩⟩ := by
  induction sqls generalizing w with
  | nil => rfl
  | cons sql sqls ih =>
      simp only [executeCommands, aergoliteExec, aergoliteExecLoop_lift]
      by_cases hdone : (aergoliteExecLoop eng nodeId sql.length w sql).rc = .ok
      · simp only [hdone, ne_eq, not_true_eq_false, ite_false, ih]
      · simp only [hdone, ne_eq, not_false_eq_true, ite_true]

theorem executeBody_lift (codec : Codec) (eng : Engine D) (auths : List NodeAuth)
    (height nodeId : ℤ) (log : Log) (c : Connections D) :
    let r := Core.executeBody codec eng auths height nodeId log c.db
    executeBody codec (lift eng) auths height nodeId log c = (r.rc, { c with db := r.db }) := by
  simp only [executeBody, Core.executeBody, executeCommands_lift]
  split_ifs <;> rfl

/-- The rollback, where both savepoints are open. -/
theorem rollback_db {saved : Databases D} {m : Nesting Text (Worker D)} {l : Nesting Text StateDb}
    (hworker : c.worker.Over txn saved.worker m) (hstate : c.state.Over txn saved.state l) :
    c.rollback.db = rollbackToSavepoint saved c.db := by
  have hrelease := Nesting.release_savepoint txn saved.worker m
  have hrelease' := Nesting.release_savepoint txn saved.state l
  by_cases h1 : c.db.faults.headD .ok = .ok
  · by_cases h2 : c.db.faults.tail.headD .ok = .ok
    · by_cases h3 : c.db.faults.tail.tail.headD .ok = .ok
      · simp only [rollback, controls, control, advance, rollbackWorker, releaseWorker,
          rollbackState, releaseState, rollbackToSavepoint, Databases.command_eq, hworker.rollbackTo,
          hstate.rollbackTo, hrelease, hrelease', h1, h2, h3, Option.map_some, ne_eq,
          not_true_eq_false, ite_false]
        split_ifs <;> rfl
      · simp only [rollback, controls, control, advance, rollbackWorker, releaseWorker,
          rollbackState, rollbackToSavepoint, Databases.command_eq, hworker.rollbackTo, hrelease, h1,
          h2, h3, Option.map_some, ne_eq, not_true_eq_false, not_false_eq_true, ite_false, ite_true]
    · simp only [rollback, controls, control, advance, rollbackWorker, releaseWorker,
        rollbackToSavepoint, Databases.command_eq, hworker.rollbackTo, h1, h2, Option.map_some, ne_eq,
        not_true_eq_false, not_false_eq_true, ite_false, ite_true]
  · simp only [rollback, controls, control, advance, rollbackToSavepoint, Databases.command_eq, h1,
      ne_eq, not_false_eq_true, ite_true]

/-- The rollback, where the one on the state database is released. -/
theorem rollback_db_released {saved : Databases D} {m : Nesting Text (Worker D)}
    (hworker : c.worker.Over txn saved.worker m) (hstate : c.state.Free txn) :
    c.rollback.db = Core.rollbackWorker saved c.db := by
  have hrelease := Nesting.release_savepoint txn saved.worker m
  by_cases h1 : c.db.faults.headD .ok = .ok
  · by_cases h2 : c.db.faults.tail.headD .ok = .ok
    · by_cases h3 : c.db.faults.tail.tail.headD .ok = .ok <;>
        simp only [rollback, controls, control, advance, rollbackWorker, releaseWorker,
          rollbackState, Core.rollbackWorker, Databases.command_eq, hworker.rollbackTo,
          hstate.rollbackTo, hrelease, h1, h2, h3, Option.map_some, Option.map_none, ne_eq,
          reduceCtorEq, not_true_eq_false, not_false_eq_true, ite_false, ite_true]
    · simp only [rollback, controls, control, advance, rollbackWorker, releaseWorker,
        Core.rollbackWorker, Databases.command_eq, hworker.rollbackTo, h1, h2, Option.map_some, ne_eq,
        not_true_eq_false, not_false_eq_true, ite_false, ite_true]
  · simp only [rollback, controls, control, advance, Core.rollbackWorker, Databases.command_eq, h1,
      ne_eq, not_false_eq_true, ite_true]

/-- The rollback, where the one on the worker database is released. -/
theorem rollback_db_free (hworker : c.worker.Free txn) : c.rollback.db = c.db.command.2 := by
  have hfails : (c.control rollbackWorker).1 ≠ .ok ∧ (c.control rollbackWorker).2 = c.advance := by
    obtain h | ⟨-, -, hfound⟩ := c.control_cases rollbackWorker
    · exact h
    · rw [rollbackWorker, advance_worker, hworker.rollbackTo] at hfound
      simp at hfound
  unfold rollback controls
  dsimp only
  rw [if_pos hfails.1, hfails.2]
  rfl

/-- The savepoints that are opened. -/
theorem control_savepointWorker (c : Connections D) :
    (c.control savepointWorker).1 = c.db.command.1 ∧
      (c.control savepointWorker).2.db = c.db.command.2 ∧
      (c.control savepointWorker).2.worker =
        (if c.db.command.1 = .ok then c.worker.savepoint txn c.db.worker else c.worker) ∧
      (c.control savepointWorker).2.state = c.state := by
  split_ifs with hrc
  · have hopened : savepointWorker c.advance =
        some { c.advance with worker := c.worker.savepoint txn c.db.worker } := by
      rw [savepointWorker, advance_worker, advance_db_worker]
    rw [control_some hrc hopened]
    exact ⟨hrc.symm, rfl, rfl, rfl⟩
  · rw [control_refused hrc]
    exact ⟨rfl, rfl, rfl, rfl⟩

theorem control_savepointState (c : Connections D) :
    (c.control savepointState).1 = c.db.command.1 ∧
      (c.control savepointState).2.db = c.db.command.2 ∧
      (c.control savepointState).2.worker = c.worker ∧
      (c.control savepointState).2.state =
        if c.db.command.1 = .ok then c.state.savepoint txn c.db.state else c.state := by
  split_ifs with hrc
  · have hopened : savepointState c.advance =
        some { c.advance with state := c.state.savepoint txn c.db.state } := by
      rw [savepointState, advance_state, advance_db_state]
    rw [control_some hrc hopened]
    exact ⟨hrc.symm, rfl, rfl, rfl⟩
  · rw [control_refused hrc]
    exact ⟨rfl, rfl, rfl, rfl⟩

/-- The release of a savepoint that is open. -/
theorem control_releaseWorker {w : Worker D} {m : Nesting Text (Worker D)}
    (h : c.worker.Over txn w m) :
    (c.control releaseWorker).1 = c.db.command.1 ∧
      (c.control releaseWorker).2.db = c.db.command.2 ∧
      (c.control releaseWorker).2.worker = (if c.db.command.1 = .ok then m else c.worker) ∧
      (c.control releaseWorker).2.state = c.state := by
  split_ifs with hrc
  · have hfound : releaseWorker c.advance = some { c.advance with worker := m } := by
      rw [releaseWorker, advance_worker, h.release]
      rfl
    rw [control_some hrc hfound]
    exact ⟨hrc.symm, rfl, rfl, rfl⟩
  · rw [control_refused hrc]
    exact ⟨rfl, rfl, rfl, rfl⟩

theorem control_releaseState {v : StateDb} {l : Nesting Text StateDb} (h : c.state.Over txn v l) :
    (c.control releaseState).1 = c.db.command.1 ∧
      (c.control releaseState).2.db = c.db.command.2 ∧
      (c.control releaseState).2.worker = c.worker ∧
      (c.control releaseState).2.state = if c.db.command.1 = .ok then l else c.state := by
  split_ifs with hrc
  · have hfound : releaseState c.advance = some { c.advance with state := l } := by
      rw [releaseState, advance_state, h.release]
      rfl
    rw [control_some hrc hfound]
    exact ⟨hrc.symm, rfl, rfl, rfl⟩
  · rw [control_refused hrc]
    exact ⟨rfl, rfl, rfl, rfl⟩

/-- The end of a transaction that is recorded. -/
theorem outcome_recorded {saved : Databases D} {m : Nesting Text (Worker D)}
    {l : Nesting Text StateDb} (hworker : c.worker = m.savepoint txn saved.worker)
    (hstate : c.state = l.savepoint txn saved.state) (hm : m.Free txn) (hl : l.Free txn) :
    let rc := c.db.command.1
    let rc2 := c.db.command.2.command.1
    let db := c.db.command.2.command.2
    let r := (Exit.recorded c).outcome
    r.1 = (if rc = .ok then if rc2 = .ok then .ok else .error else rc) ∧
      r.2.db = if rc = .ok then
          if rc2 = .ok then { db with txnCount := db.txnCount + 1 } else db.command.2
        else if rc2 = .ok then Core.rollbackWorker saved db else rollbackToSavepoint saved db := by
  have hopen : c.worker.Over txn saved.worker m := hworker ▸ Nesting.over_savepoint
  have hopen' : c.state.Over txn saved.state l := hstate ▸ Nesting.over_savepoint
  have hfirst := control_releaseWorker hopen
  simp only [Exit.outcome]
  generalize c.control releaseWorker = r at hfirst ⊢
  obtain ⟨hcode, hdb, hworkers, hstates⟩ := hfirst
  have hsecond := control_releaseState (hstates.symm ▸ hopen')
  generalize r.2.control releaseState = r2 at hsecond ⊢
  obtain ⟨hcode2, hdb2, hworkers2, hstates2⟩ := hsecond
  rw [hdb] at hcode2 hdb2 hstates2
  rw [hcode, hcode2, ← hdb2]
  rw [hworkers] at hworkers2
  rw [hstates] at hstates2
  by_cases hrc : c.db.command.1 = .ok <;> by_cases hrc2 : c.db.command.2.command.1 = .ok <;>
    simp only [hrc, hrc2, ite_true, ite_false, and_self, and_false, false_and, true_and]
      at hworkers2 hstates2 ⊢
  · exact rollback_db_free (hworkers2 ▸ hm)
  · exact rollback_db_released (hworkers2 ▸ hopen) (hstates2 ▸ hl)
  · exact rollback_db (hworkers2 ▸ hopen) (hstates2 ▸ hopen')

/-- **With statements that leave the nesting alone** a transaction has the result code and the
effect on the databases that it has without savepoints. -/
theorem executeTransaction_lift (codec : Codec) (eng : Engine D) (isFullNode : Bool)
    (auths : List NodeAuth) (height nodeId nonce : ℤ) (tid : BitVec 64) (log : Log)
    (hworker : c.worker.Free txn) (hstate : c.state.Free txn) :
    let r := Core.executeTransaction codec eng isFullNode auths height nodeId nonce tid log c.db
    let r' := c.executeTransaction codec (lift eng) isFullNode auths height nodeId nonce tid log
    r'.1 = r.rc ∧ r'.2.db = r.db := by
  unfold executeTransaction executeToExit Core.executeTransaction
  dsimp only
  have hfirst := c.control_savepointWorker
  generalize c.control savepointWorker = r at hfirst ⊢
  obtain ⟨hcode, hdb, hworkers, hstates⟩ := hfirst
  rw [hcode]
  by_cases hrc : c.db.command.1 ≠ .ok
  · rw [if_pos hrc, if_pos hrc]
    exact ⟨rfl, hdb⟩
  rw [if_neg hrc, if_neg hrc]
  rw [if_pos (not_not.1 hrc)] at hworkers
  have hsecond := r.2.control_savepointState
  generalize r.2.control savepointState = r2 at hsecond ⊢
  obtain ⟨hcode2, hdb2, hworkers2, hstates2⟩ := hsecond
  rw [hdb] at hcode2 hdb2 hstates2
  rw [hcode2]
  by_cases hrc2 : c.db.command.2.command.1 ≠ .ok
  · rw [if_pos hrc2, if_pos hrc2]
    have hopen : r2.2.worker.Over txn c.db.worker c.worker := by
      rw [hworkers2, hworkers]
      exact Nesting.over_savepoint
    exact ⟨rfl, by rw [Exit.outcome, (control_releaseWorker hopen).2.1, hdb2]⟩
  rw [if_neg hrc2, if_neg hrc2]
  rw [if_pos (not_not.1 hrc2), command_state, hstates] at hstates2
  have hsaved : c.db.command.2.command.2.worker = c.db.worker ∧
      c.db.command.2.command.2.state = c.db.state := by
    simp [Databases.command_eq]
  rw [executeBody_lift, hdb2]
  generalize c.db.command.2.command.2 = saved at hsaved ⊢
  have hopen : r2.2.worker = c.worker.savepoint txn saved.worker := by
    rw [hworkers2, hworkers, hsaved.1]
  have hopen' : r2.2.state = c.state.savepoint txn saved.state := by rw [hstates2, hsaved.2]
  dsimp only
  have hback : ∀ c' : Connections D, c'.worker = r2.2.worker → c'.state = r2.2.state →
      c'.rollback.db = rollbackToSavepoint saved c'.db := by
    intro c' hsame hsame'
    exact rollback_db (hsame.trans hopen ▸ Nesting.over_savepoint)
      (hsame'.trans hopen' ▸ Nesting.over_savepoint)
  generalize Core.executeBody codec eng auths height nodeId log saved = body
  by_cases hbody : body.rc ≠ .ok
  · rw [if_pos hbody, if_pos hbody]
    exact ⟨rfl, hback _ rfl rfl⟩
  rw [if_neg hbody, if_neg hbody]
  generalize recordTransaction isFullNode height nodeId nonce tid log body.db = record
  by_cases hrecord : record.1 ≠ .ok
  · rw [if_pos hrecord, if_pos hrecord]
    exact ⟨rfl, hback _ rfl rfl⟩
  rw [if_neg hrecord, if_neg hrecord]
  have hend := outcome_recorded (c := { r2.2 with db := record.2 }) hopen hopen' hworker hstate
  dsimp only at hend ⊢
  rw [hend.1, hend.2]
  split_ifs <;> exact ⟨rfl, rfl⟩

end Connections

end Core
end AergoLite
