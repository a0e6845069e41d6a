/-
# Loading and saving past blocks

The functions of `core/sqlite3.c` with which a full node serves and downloads past blocks:
`aergolite_get_block` loads a row of the table `blocks`, and `aergolite_save_block` verifies a
block and inserts it.

A row is never replaced (`aergoliteSaveBlock_eq_pure`): a block that was saved without its body,
as a state update does, cannot be saved again with it.
-/

import AergoLite.Core.History

namespace AergoLite
namespace Core

/-- With what is read of a header and of votes, what is read of a body: the size that a binn
has in its first bytes, the list `BODY_TXN_IDS`, empty if there is none, and `calc_txns_hash`
of a list. -/
structure BodyReader extends BlockReader where
  binnSize : Bytes → ℕ
  txnIds : Bytes → List (BitVec 64)
  txnsHash : List (BitVec 64) → Bytes

/-- The header, the body and the votes of a block, each null or not. -/
abbrev BlockParts := Option Bytes × Option Bytes × Option Bytes

section
variable (b : BodyReader) (c : Crypto) (roster : Roster)

/-- `read_binn`. -/
def BodyReader.readBinn : Option Bytes → Except Rc Bytes
  | none => .error .invalid
  | some data =>
    if b.binnSize data ≠ data.length then .error .invalid
    else if data = [] then .error .nomem
    else .ok data

/-- `load_block_cb`: the body may be missing. -/
def BodyReader.loadBlockCb (row : StoredBlock) : Except Rc BlockParts := do
  let header ← b.readBinn (some row.header)
  let body ← match b.readBinn row.body with
    | .ok body => pure (some body)
    | .error .nomem => throw .nomem
    | .error _ => pure none
  let votes ← b.readBinn (some row.votes)
  return (some header, body, some votes)

/-- `aergolite_get_block`.  A query that finds no row is successful. -/
def BlocksTable.aergoliteGetBlock (t : BlocksTable) (height : ℤ) : Except Rc BlockParts :=
  match t.rows.find? fun row => row.height == height with
  | none => .ok (none, none, none)
  | some row => b.loadBlockCb row

/-- What `aergolite_save_block` verifies of a block, and the header. -/
def BodyReader.verifySaved (header body votes : Bytes) : Fallible Header := do
  let read ← b.readBlockHeader c roster header
  failIf (b.txnsHash (b.txnIds body) ≠ read.txnsHash) .invalid
  checkRc (verifyBlockVotes c roster.authorizations roster.queried read.height read.id
    (b.votes votes) false)
  return read

/-- `save_block`; the height is the primary key. -/
def BlocksTable.saveBlock (t : BlocksTable) (row : StoredBlock) : Fallible BlocksTable :=
  if h : row.height ∈ t.rows.map StoredBlock.height then throw .constraint
  else return {
    rows := t.rows ++ [row]
    nodup := by
      rw [List.map_append, List.map_singleton, ← List.concat_eq_append]
      exact t.nodup.concat h }

/-- `aergolite_save_block`: `BEGIN` fails while the database is in a transaction, which is that of
an open block. -/
def BlocksTable.aergoliteSaveBlock (t : BlocksTable) (inTransaction : Bool)
    (header body votes : Bytes) : Fallible BlocksTable := do
  failIf (inTransaction = true) .busy
  let read ← b.verifySaved c roster header body votes
  t.saveBlock ⟨read.height, header, some body, votes⟩

end

/-- There is a row for the height. -/
def BlocksTable.has (t : BlocksTable) (height : ℤ) : Bool :=
  t.rows.any fun row => row.height == height

theorem BlocksTable.has_iff {t : BlocksTable} {height : ℤ} :
    t.has height = true ↔ ∃ row ∈ t.rows, row.height = height := by
  simp [BlocksTable.has]

/-- A row is inserted unless there is one of its height. -/
theorem saveBlock_eq_pure {t t' : BlocksTable} {row : StoredBlock} :
    t.saveBlock row = pure t' ↔ t.has row.height = false ∧ t'.rows = t.rows ++ [row] := by
  have hhas : t.has row.height = false ↔ row.height ∉ t.rows.map StoredBlock.height := by
    rw [Bool.eq_false_iff, Ne, BlocksTable.has_iff, List.mem_map]
  unfold BlocksTable.saveBlock
  rw [hhas]
  split_ifs with h
  · exact ⟨nofun, fun hnot => absurd h hnot.1⟩
  · rw [pure_eq_pure]
    constructor
    · rintro rfl
      exact ⟨h, rfl⟩
    · rintro ⟨-, hrows⟩
      cases t'
      cases hrows
      rfl

theorem exists_saveBlock (t : BlocksTable) (row : StoredBlock) (h : t.has row.height = false) :
    ∃ t', t.saveBlock row = pure t' ∧ t'.rows = t.rows ++ [row] := by
  have hnew : row.height ∉ t.rows.map StoredBlock.height := by
    rw [List.mem_map]
    exact fun hmem => Bool.false_ne_true (h.symm.trans (BlocksTable.has_iff.2 hmem))
  unfold BlocksTable.saveBlock
  exact ⟨_, dif_neg hnew, rfl⟩

/-- What is verified of a block that is saved. -/
theorem verifySaved_eq_pure {b : BodyReader} {c : Crypto} {roster : Roster}
    {header body votes : Bytes} {read : Header} :
    b.verifySaved c roster header body votes = pure read ↔
      (b.header? header = some read ∧ roster.verifyHeader c read = .ok) ∧
        b.txnsHash (b.txnIds body) = read.txnsHash ∧
          verifyBlockVotes c roster.authorizations roster.queried read.height read.id
            (b.votes votes) false = .ok := by
  unfold BodyReader.verifySaved
  simp only [bind_eq_pure, failIf_eq_pure, checkRc_eq_pure, pure_eq_pure, readBlockHeader_eq_pure,
    not_not, exists_const]
  constructor
  · rintro ⟨other, hread, hhash, hvotes, rfl⟩
    exact ⟨hread, hhash, hvotes⟩
  · rintro ⟨hread, hhash, hvotes⟩
    exact ⟨read, hread, hhash, hvotes, rfl⟩

/-- A block is verified if what is read of its header is. -/
theorem exists_verifySaved {b : BodyReader} {c : Crypto} {roster : Roster}
    {header body votes : Bytes} (hread : (b.header? header).isSome = true)
    (h : ∀ read ∈ b.header? header, roster.verifyHeader c read = .ok ∧
      b.txnsHash (b.txnIds body) = read.txnsHash ∧
        verifyBlockVotes c roster.authorizations roster.queried read.height read.id
          (b.votes votes) false = .ok) :
    ∃ read, b.header? header = some read ∧
      b.verifySaved c roster header body votes = pure read := by
  obtain ⟨read, hread⟩ := Option.isSome_iff_exists.1 hread
  obtain ⟨hverify, hhash, hvotes⟩ := h read hread
  exact ⟨read, hread, verifySaved_eq_pure.2 ⟨⟨hread, hverify⟩, hhash, hvotes⟩⟩

/-- **When a block is saved**: no block is open, it is verified, and there is no row of its
height. -/
theorem aergoliteSaveBlock_eq_pure {b : BodyReader} {c : Crypto} {roster : Roster}
    {t t' : BlocksTable} {inTransaction : Bool} {header body votes : Bytes} :
    t.aergoliteSaveBlock b c roster inTransaction header body votes = pure t' ↔
      inTransaction = false ∧ ∃ read, b.verifySaved c roster header body votes = pure read ∧
        t.has read.height = false ∧
          t'.rows = t.rows ++ [⟨read.height, header, some body, votes⟩] := by
  unfold BlocksTable.aergoliteSaveBlock
  simp only [bind_eq_pure, failIf_eq_pure, saveBlock_eq_pure, Bool.not_eq_true, exists_const]

end Core
end AergoLite
