/-
# The databases of a node

A node executes transactions on its *worker* database and records blocks,
transactions and page hashes in its *state* database (`core/sqlite3.c`).  Of the
worker database the core itself writes the tables `aergolite_nodes` and
`aergolite_config`; the statements of the users do not touch them
(`on_command_authorization`), and the rest is data of an arbitrary type.

Every command of the core can fail for reasons of its own, a full disk or a lock.
`Databases.faults` lists the outcomes of the coming commands, `SQLITE_OK` once it
is used up, so that what is proved for every list holds of every failure.
-/

import AergoLite.Core.BlockVotes
import AergoLite.Core.Transactions
import Mathlib.Data.BitVec

namespace AergoLite
namespace Core

/-- `build_transaction_id`: `(((int64)node_id) << 32) | nonce`. -/
def buildTransactionId (nodeId nonce : ℤ) : BitVec 64 :=
  BitVec.ofInt 64 nodeId <<< 32 ||| BitVec.ofInt 64 nonce

theorem toNat_buildTransactionId {n k : ℕ} (hn : n < 2 ^ 31) (hk : k < 2 ^ 32) :
    (buildTransactionId n k).toNat = n * 2 ^ 32 + k := by
  unfold buildTransactionId
  rw [BitVec.ofInt_natCast, BitVec.ofInt_natCast, BitVec.toNat_or, BitVec.toNat_shiftLeft,
    BitVec.toNat_ofNat, BitVec.toNat_ofNat, Nat.mod_eq_of_lt (by omega),
    Nat.mod_eq_of_lt (by omega), Nat.shiftLeft_eq, Nat.mod_eq_of_lt (by omega),
    ← Nat.shiftLeft_eq, ← Nat.shiftLeft_add_eq_or_of_lt hk, Nat.shiftLeft_eq]

/-- The worker database. -/
structure Worker (D : Type) where
  nodes : List AllowedNode
  config : List (Text × Text)
  data : D
  deriving DecidableEq

/-- A block header: the fields of its signed data, the data itself and the
signature.  The first 32 bytes of the signature are the block id. -/
structure Header where
  height : ℤ
  prevHash : Bytes
  txnsHash : Bytes
  stateHash : Bytes
  nodeId : ℤ
  data : Text
  sig : Bytes
  deriving DecidableEq, Repr

/-- The block id. -/
def Header.id (header : Header) : Bytes := header.sig.take 32

/-- A block body: the ids of the transactions, with the sign bit set on those that
failed, and the list of modified pages. -/
structure Body where
  txnIds : List (BitVec 64)
  modPages : Bytes
  deriving DecidableEq, Repr

/-- A row of the table `transactions`. -/
structure TransactionRow where
  tid : BitVec 64
  blockHeight : ℤ
  seq : ℕ
  nodeId : ℤ
  nonce : ℤ
  log : Log

/-- A row of the table `blocks`. -/
structure BlockRow where
  height : ℤ
  header : Header
  body : Body
  votes : List VoteItem
  deriving DecidableEq, Repr

/-- The state database. -/
structure StateDb where
  transactions : List TransactionRow
  blocks : List BlockRow

/-- The two databases, with the flags and the counter that execution updates
along with them. -/
structure Databases (D : Type) where
  worker : Worker D
  state : StateDb
  faults : List Rc
  nodesChanged : Bool
  configChanged : Bool
  txnCount : ℕ

/-- What the core takes from the rest of the program: the base58 addresses of
`common/base58.c` and the check of an anchoring configuration. -/
structure Codec where
  addressToPubkey : Text → Option Bytes
  generateNodeIdFromPubkey : Bytes → ℤ
  parseAnchoringConfig : Text → Bool

/-- Databases without rows and without data. -/
def emptyDatabases : Databases Unit := ⟨⟨[], [], ()⟩, ⟨[], []⟩, [], false, false, 0⟩

/-- A codec that reads no address and no configuration. -/
def plainCodec : Codec := ⟨fun _ => none, fun _ => 0, fun _ => false⟩

variable {D : Type}

/-- The outcome of one command of the core. -/
def Databases.command (db : Databases D) : Rc × Databases D :=
  match db.faults with
  | [] => (.ok, db)
  | rc :: faults => (rc, { db with faults })

theorem Databases.command_eq (db : Databases D) :
    db.command = (db.faults.headD .ok, { db with faults := db.faults.tail }) := by
  obtain ⟨worker, state, faults, nodesChanged, configChanged, txnCount⟩ := db
  cases faults <;> rfl

end Core
end AergoLite
