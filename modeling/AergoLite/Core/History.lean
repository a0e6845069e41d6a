/-
# The history of blocks

A full node verifies the blocks it has stored with `aergolite_verify_history`
(`core/sqlite3.c`).  The rows of the table `blocks` are read from the last height down; each
must have a header of the same height with a valid signature, enough votes, and the id that the
block above it gives as the previous hash.

The heights are compared with one another only, so what is accepted is any run of blocks, the
empty one included (`reportsOk_iff`).  A table that has lost its first blocks is reported as
`OK` (`reportsOk_iff_complete_iff`).
-/

import AergoLite.Core.StateUpdate
import AergoLite.Library.KeyedChain

namespace AergoLite
namespace Core

open KeyedChain

/-- What is read of a stored block with the library binn: `HEADER_DATA` and `HEADER_SIG` of a
header, null where they are missing, and the items of a list of votes.  Nothing that is read is
longer than what it is read from. -/
structure BlockReader where
  headerData : Bytes → Option Bytes
  headerSig : Bytes → Option Bytes
  votes : Bytes → List VoteItem
  headerData_le : ∀ {header data}, headerData header = some data → data.length ≤ header.length
  votes_le : ∀ {list item}, item ∈ votes list → item.sig.length ≤ list.length

/-- A row of the table `blocks`, with the bytes of its columns; a null header or list of votes
has none. -/
structure StoredBlock where
  height : ℤ
  header : Bytes
  body : Option Bytes
  votes : Bytes
  deriving DecidableEq, Repr

/-- The table `blocks`.  The height is the primary key. -/
structure BlocksTable where
  rows : List StoredBlock
  nodup : (rows.map StoredBlock.height).Nodup

/-- `struct iterate_block_history`. -/
structure BlockHistory where
  lastHeight : ℤ
  prevHash : Bytes

section
variable (b : BlockReader) (c : Crypto) (roster : Roster)

/-- `read_block_header`.  It is undefined for a header without the id of its producer. -/
def BlockReader.readBlockHeader (header : Bytes) : Fallible Header := do
  match b.headerData header with
  | none => throw .misuse
  | some data =>
    let (_, header) ← ExceptT.mk (readBlockHeaderData data ((b.headerSig header).getD []))
    checkRc (roster.verifyHeader c header)
    return header

/-- `verify_block_history_cb`. -/
def verifyBlockHistoryCb (info : BlockHistory) (row : StoredBlock) : Fallible BlockHistory := do
  failIf (row.header.length < 32 ∨ row.votes.length < 32) .invalid
  let header ← (b.readBlockHeader c roster row.header).adapt fun _ => Rc.invalid
  failIf (row.height ≠ header.height ∨ row.height ≤ 0) .invalid
  failIf (0 < info.lastHeight ∧ row.height ≠ info.lastHeight - 1) .notfound
  failIf (0 < info.lastHeight ∧ header.id ≠ info.prevHash) .invalid
  checkRc (verifyBlockVotes c roster.authorizations roster.queried header.height header.id
    (b.votes row.votes) false)
  return ⟨row.height, header.prevHash⟩

/-- The verdict of `aergolite_verify_history`, shown as the state of the chain. -/
def chainIntegrity : Rc → Text
  | .ok => "OK".toList
  | .invalid => "invalid".toList
  | .notfound => "missing blocks".toList
  | _ => "error".toList

/-- The query of `aergolite_verify_history`: `SELECT * FROM blocks ORDER BY height DESC`. -/
def BlocksTable.queryHistory (t : BlocksTable) : Fallible BlockHistory :=
  (descending StoredBlock.height t.rows).foldlM (verifyBlockHistoryCb b c roster)
    ⟨0, List.replicate 32 0⟩

/-- `aergolite_verify_history`, with the `chain_integrity` of the node. -/
def BlocksTable.aergoliteVerifyHistory (t : BlocksTable) : Option (Rc × Text) :=
  (t.queryHistory b c roster).run.map fun
    | .ok _ => (.ok, chainIntegrity .ok)
    | .error rc => (rc, chainIntegrity rc)

/-- The history is reported to be OK. -/
def BlocksTable.ReportsOk (t : BlocksTable) : Prop :=
  t.aergoliteVerifyHistory b c roster = some (.ok, "OK".toList)

instance (t : BlocksTable) : Decidable (t.ReportsOk b c roster) :=
  inferInstanceAs (Decidable (_ = _))

/-! ## What a history is -/

/-- The header of a block, if it can be read. -/
def BlockReader.header? (header : Bytes) : Option Header :=
  match b.headerData header with
  | none => none
  | some data =>
    match readBlockHeaderData data ((b.headerSig header).getD []) with
    | some (.ok (_, header)) => some header
    | _ => none

/-- The header of the block is signed by its producer and has the height of its row; and the
votes of nodes that can vote at this height reach the majority. -/
def StoredBlock.Verified (row : StoredBlock) : Prop :=
  ∃ header, b.header? row.header = some header ∧ roster.verifyHeader c header = .ok ∧
    header.height = row.height ∧
    majority (getNumActiveNodes roster.authorizations row.height) ≤
      (countedVotes c roster.authorizations roster.queried row.height header.id
        (b.votes row.votes) false).length

/-- The previous hash of a block is the id of the one below it. -/
def BlockReader.Linked (row below : StoredBlock) : Prop :=
  ∀ header ∈ b.header? row.header, ∀ lower ∈ b.header? below.header, header.prevHash = lower.id

/-- The blocks are those from a height to another, verified and linked. -/
structure BlocksTable.Segment (t : BlocksTable) (lo hi : ℤ) : Prop where
  heights : KeysBetween StoredBlock.height t.rows lo hi
  verified : ∀ row ∈ t.rows, row.Verified b c roster
  linked : NeighboursLinked StoredBlock.height b.Linked t.rows

end

variable {b : BlockReader} {c : Crypto} {roster : Roster}

/-! ## One row -/

/-- What can be read as a header has at least 75 bytes. -/
theorem length_of_readBlockHeaderData {data sig : Bytes} {read : ℤ × Header}
    (h : readBlockHeaderData data sig = some (.ok read)) : 75 ≤ data.length := by
  unfold readBlockHeaderData at h
  by_cases hsize : data.length < 75 ∨ sig.length ≠ 64
  · rw [if_pos hsize] at h
    cases h
  · omega

theorem readBlockHeader_eq_pure {bytes : Bytes} {header : Header} :
    b.readBlockHeader c roster bytes = pure header ↔
      b.header? bytes = some header ∧ roster.verifyHeader c header = .ok := by
  unfold BlockReader.readBlockHeader BlockReader.header?
  cases b.headerData bytes with
  | none => exact ⟨nofun, nofun⟩
  | some data =>
      simp only [bind_eq_pure, checkRc_eq_pure, pure_eq_pure]
      constructor
      · rintro ⟨⟨timestamp, read⟩, hread, -, hverify, rfl⟩
        have hread : readBlockHeaderData data ((b.headerSig bytes).getD []) =
            some (.ok (timestamp, read)) := hread
        rw [hread]
        exact ⟨rfl, hverify⟩
      · rintro ⟨hread, hverify⟩
        split at hread
        · rename_i timestamp read hdata
          cases hread
          exact ⟨(timestamp, header), hdata, (), hverify, rfl⟩
        · cases hread

/-- A header that is read is not short. -/
theorem header_length {row : StoredBlock} {header : Header} (h : b.header? row.header = some header) :
    75 ≤ row.header.length := by
  unfold BlockReader.header? at h
  cases hdata : b.headerData row.header with
  | none =>
      rw [hdata] at h
      cases h
  | some data =>
      rw [hdata] at h
      dsimp only at h
      split at h
      · rename_i hread
        have := length_of_readBlockHeaderData hread
        have := b.headerData_le hdata
        omega
      · cases h

/-- `verify_block_votes` accepts a list whose counted votes reach the majority. -/
theorem verifyBlockVotes_iff {auths : List NodeAuth} {nodes : List AllowedNode} {height : ℤ}
    {blockId : Bytes} {votes : List VoteItem} {inStateUpdate : Bool} :
    verifyBlockVotes c auths nodes height blockId votes inStateUpdate = .ok ↔
      majority (getNumActiveNodes auths height) ≤
        (countedVotes c auths nodes height blockId votes inStateUpdate).length := by
  unfold verifyBlockVotes countedVotes
  rw [← List.countP_eq_length_filter]
  dsimp only
  split_ifs with h
  · exact ⟨nofun, by omega⟩
  · exact ⟨fun _ => by omega, fun _ => rfl⟩

/-- A list of votes that is accepted is not short, as one vote has a signature. -/
theorem votes_length {row : StoredBlock} {height : ℤ} {blockId : Bytes}
    (h : majority (getNumActiveNodes roster.authorizations height) ≤
      (countedVotes c roster.authorizations roster.queried height blockId (b.votes row.votes)
        false).length) : 64 ≤ row.votes.length := by
  have hpos : 0 < (countedVotes c roster.authorizations roster.queried height blockId
      (b.votes row.votes) false).length := by
    unfold majority at h
    omega
  obtain ⟨item, hitem⟩ := List.exists_mem_of_length_pos hpos
  obtain ⟨hmem, hcounted⟩ := List.mem_filter.1 hitem
  have hsigned := (Bool.and_eq_true_iff.1 hcounted).2
  have hverify := of_decide_eq_true hsigned
  unfold aergoliteVerifyRawById at hverify
  cases hkey : nodePubkey roster.authorizations roster.queried item.nodeId with
  | none =>
      rw [hkey] at hverify
      cases hverify
  | some pubkey =>
      rw [hkey] at hverify
      have hlength := (aergoliteVerifyRaw_eq_ok.1 hverify).2.1
      have := b.votes_le hmem
      omega

/-! ## Errors -/

section
variable {α β : Type}

/-- What fails does not fail with `SQLITE_OK`. -/
def Honest (x : Fallible α) : Prop := x ≠ throw .ok

theorem honest_bind {x : Fallible α} {f : α → Fallible β} (hx : Honest x)
    (hf : ∀ a, Honest (f a)) : Honest (x >>= f) := by
  match x with
  | none => exact nofun
  | some (.error rc) =>
      intro h
      cases h
      exact hx rfl
  | some (.ok a) => exact hf a

theorem honest_pure {a : α} : Honest (pure a : Fallible α) := nofun

theorem honest_checkRc {rc : Rc} : Honest (checkRc rc) := by
  unfold checkRc
  split_ifs with h
  · exact honest_pure
  · intro hthrow
    cases hthrow
    exact h rfl

theorem honest_failIf {p : Prop} [Decidable p] {rc : Rc} (hrc : rc ≠ .ok) :
    Honest (failIf p rc) := by
  unfold failIf
  split_ifs
  · intro hthrow
    cases hthrow
    exact hrc rfl
  · exact honest_pure

theorem honest_adapt {x : Fallible α} {f : Rc → Rc} (hf : ∀ rc, f rc ≠ .ok) :
    Honest (x.adapt f : Fallible α) := by
  match x with
  | none => exact nofun
  | some (.error rc) =>
      intro h
      exact hf rc (Except.error.inj (Option.some.inj h))
  | some (.ok a) => exact nofun

theorem honest_foldlM {f : β → α → Fallible β} (hf : ∀ s a, Honest (f s a)) {l : List α} {s : β} :
    Honest (l.foldlM f s) := by
  induction l generalizing s with
  | nil => exact honest_pure
  | cons a l ih =>
      rw [List.foldlM_cons]
      exact honest_bind (hf s a) fun _ => ih

end

theorem adapt_eq_pure {α : Type} {x : Fallible α} {f : Rc → Rc} {a : α} :
    (x.adapt f : Fallible α) = pure a ↔ x = pure a := by
  match x with
  | none => exact ⟨nofun, nofun⟩
  | some (.error rc) => exact ⟨nofun, nofun⟩
  | some (.ok a') =>
      constructor
      · intro h
        cases h
        rfl
      · intro h
        cases h
        rfl

/-- The row goes on from what was read of the row above it. -/
def BlockHistory.Continues (b : BlockReader) (info : BlockHistory) (row : StoredBlock) : Prop :=
  0 < info.lastHeight → info.lastHeight = row.height + 1 ∧
    ∀ header ∈ b.header? row.header, info.prevHash = header.id

/-- **When a row is accepted**, and what is kept of it. -/
theorem verifyBlockHistoryCb_eq_pure {info next : BlockHistory} {row : StoredBlock} :
    verifyBlockHistoryCb b c roster info row = pure next ↔
      (row.Verified b c roster ∧ 0 < row.height) ∧ info.Continues b row ∧
        ∃ header, b.header? row.header = some header ∧ next = ⟨row.height, header.prevHash⟩ := by
  unfold verifyBlockHistoryCb
  simp only [bind_eq_pure, failIf_eq_pure, checkRc_eq_pure, pure_eq_pure, adapt_eq_pure,
    readBlockHeader_eq_pure, verifyBlockVotes_iff]
  constructor
  · rintro ⟨-, -, header, ⟨hread, hverify⟩, -, hheight, -, hnext, -, hid, -, hvotes, rfl⟩
    have hrow : row.height = header.height := by omega
    rw [← hrow] at hvotes
    refine ⟨⟨⟨header, hread, hverify, hrow.symm, hvotes⟩, by omega⟩, fun hlast => ⟨by omega, ?_⟩,
      header, hread, rfl⟩
    intro other hother
    obtain rfl : header = other := Option.some.inj (hread.symm.trans hother)
    by_contra hne
    exact hid ⟨hlast, fun h => hne h.symm⟩
  · rintro ⟨⟨⟨header, hread, hverify, hrow, hvotes⟩, hpos⟩, hcont, other, hother, rfl⟩
    obtain rfl : header = other := Option.some.inj (hread.symm.trans hother)
    have hheader := header_length hread
    have hlist := votes_length hvotes
    rw [← hrow] at hvotes
    refine ⟨(), by omega, header, ⟨hread, hverify⟩, (), by omega, (), ?_, (), ?_, (), hvotes, rfl⟩
    · rintro ⟨hlast, hne⟩
      have := (hcont hlast).1
      omega
    · rintro ⟨hlast, hne⟩
      exact hne ((hcont hlast).2 header hread).symm

/-! ## The scan -/

/-- **What the scan accepts**: verified rows, each linked to the next, that go on from what was
read before them. -/
theorem scan_eq_pure {rows : List StoredBlock} {info : BlockHistory} :
    (∃ last, rows.foldlM (verifyBlockHistoryCb b c roster) info = pure last) ↔
      (∀ row ∈ rows, row.Verified b c roster ∧ 0 < row.height) ∧
        Consecutive StoredBlock.height b.Linked rows ∧ ∀ row ∈ rows.head?, info.Continues b row := by
  induction rows generalizing info with
  | nil => simp [consecutive_nil]
  | cons row rows ih =>
      simp only [List.foldlM_cons, bind_eq_pure, verifyBlockHistoryCb_eq_pure,
        List.forall_mem_cons, List.head?_cons, Option.mem_some_iff, forall_eq', consecutive_cons]
      constructor
      · rintro ⟨last, next, ⟨hrow, hcont, header, hread, rfl⟩, hscan⟩
        obtain ⟨hrows, hchain, hhead⟩ := ih.1 ⟨last, hscan⟩
        refine ⟨⟨hrow, hrows⟩, ⟨fun below hbelow => ?_, hchain⟩, hcont⟩
        obtain ⟨hheight, hlink⟩ := hhead below hbelow hrow.2
        refine ⟨hheight, fun upper hupper lower hlower => ?_⟩
        obtain rfl : header = upper := Option.some.inj (hread.symm.trans hupper)
        exact hlink lower hlower
      · rintro ⟨⟨hrow, hrows⟩, ⟨hnext, hchain⟩, hcont⟩
        obtain ⟨header, hread, -⟩ := hrow.1
        obtain ⟨last, hscan⟩ := (@ih ⟨row.height, header.prevHash⟩).2
          ⟨hrows, hchain, fun below hbelow _ => ⟨(hnext below hbelow).1,
            fun lower hlower => (hnext below hbelow).2 header hread lower hlower⟩⟩
        exact ⟨last, _, ⟨hrow, hcont, header, hread, rfl⟩, hscan⟩

theorem honest_verifyBlockHistoryCb (info : BlockHistory) (row : StoredBlock) :
    Honest (verifyBlockHistoryCb b c roster info row) := by
  unfold verifyBlockHistoryCb
  refine honest_bind (honest_failIf nofun) fun _ => ?_
  refine honest_bind (honest_adapt fun _ => nofun) fun header => ?_
  refine honest_bind (honest_failIf nofun) fun _ => ?_
  refine honest_bind (honest_failIf nofun) fun _ => ?_
  refine honest_bind (honest_failIf nofun) fun _ => ?_
  exact honest_bind honest_checkRc fun _ => honest_pure

/-- The history is reported to be OK when the scan comes to its end. -/
theorem reportsOk_iff_query {t : BlocksTable} :
    t.ReportsOk b c roster ↔ ∃ last, t.queryHistory b c roster = pure last := by
  unfold BlocksTable.ReportsOk BlocksTable.aergoliteVerifyHistory
  rw [Option.map_eq_some_iff]
  constructor
  · rintro ⟨result, hrun, hverdict⟩
    cases result with
    | ok last => exact ⟨last, hrun⟩
    | error rc =>
        obtain ⟨rfl, -⟩ := Prod.mk.inj hverdict
        exact absurd hrun (honest_foldlM honest_verifyBlockHistoryCb)
  · rintro ⟨last, hquery⟩
    exact ⟨.ok last, hquery, rfl⟩

/-- **The history is reported to be OK exactly if it is a run of blocks**, from any height
above 0. -/
theorem reportsOk_iff {t : BlocksTable} :
    t.ReportsOk b c roster ↔ ∃ lo hi, 1 ≤ lo ∧ t.Segment b c roster lo hi := by
  rw [reportsOk_iff_query, BlocksTable.queryHistory, scan_eq_pure,
    consecutive_descending_iff t.nodup]
  simp only [mem_descending]
  constructor
  · rintro ⟨hrows, ⟨⟨lo, hi, hkeys⟩, hlinked⟩, -⟩
    by_cases hempty : hi < lo
    · exact ⟨1, 0, by omega, fun k => ⟨fun h => by have := (hkeys k).1 h; omega, by omega⟩,
        fun row hrow => (hrows row hrow).1, hlinked⟩
    · obtain ⟨row, hrow, hheight⟩ := (hkeys lo).2 ⟨by omega, by omega⟩
      have hpos := (hrows row hrow).2
      exact ⟨lo, hi, by omega, hkeys, fun row hrow => (hrows row hrow).1, hlinked⟩
  · rintro ⟨lo, hi, hlo, hkeys, hverified, hlinked⟩
    refine ⟨fun row hrow => ⟨hverified row hrow, ?_⟩, ⟨⟨lo, hi, hkeys⟩, hlinked⟩, ?_⟩
    · have := ((hkeys row.height).1 ⟨row, hrow, rfl⟩).1
      omega
    · exact fun row _ hlast => absurd hlast (by decide)

/-- The intervals of the keys of one table. -/
theorem segment_unique {t : BlocksTable} {lo hi lo' hi' : ℤ} (hne : lo ≤ hi)
    (h : KeysBetween StoredBlock.height t.rows lo hi)
    (h' : KeysBetween StoredBlock.height t.rows lo' hi') : lo = lo' ∧ hi = hi' := by
  have hlo := (h' lo).1 ((h lo).2 ⟨by omega, hne⟩)
  have hhi := (h' hi).1 ((h hi).2 ⟨hne, by omega⟩)
  have hlo' := (h lo').1 ((h' lo').2 ⟨by omega, by omega⟩)
  have hhi' := (h hi').1 ((h' hi').2 ⟨by omega, by omega⟩)
  omega

/-- **OK means a complete history exactly where the first blocks are not missing.**  The
verdict is right for every table but those that hold a run of blocks from a height above 1. -/
theorem reportsOk_iff_complete_iff (b : BlockReader) (c : Crypto) (roster : Roster)
    (t : BlocksTable) :
    (t.ReportsOk b c roster ↔ ∃ H : ℕ, t.Segment b c roster 1 H) ↔
      ¬ ∃ lo hi, 2 ≤ lo ∧ lo ≤ hi ∧ t.Segment b c roster lo hi := by
  rw [reportsOk_iff]
  constructor
  · rintro h ⟨lo, hi, hlo, hle, hsegment⟩
    obtain ⟨H, hcomplete⟩ := h.1 ⟨lo, hi, by omega, hsegment⟩
    have := (segment_unique hle hsegment.heights hcomplete.heights).1
    omega
  · intro h
    constructor
    · rintro ⟨lo, hi, hlo, hsegment⟩
      by_cases hempty : hi < lo
      · refine ⟨0, fun k => ?_, hsegment.verified, hsegment.linked⟩
        rw [hsegment.heights k]
        omega
      · obtain rfl : lo = 1 := by
          by_contra hne
          exact h ⟨lo, hi, by omega, by omega, hsegment⟩
        refine ⟨hi.toNat, fun k => ?_, hsegment.verified, hsegment.linked⟩
        rw [hsegment.heights k]
        omega
    · rintro ⟨H, hsegment⟩
      exact ⟨1, H, le_refl 1, hsegment⟩

/-- A reader to evaluate the definitions with: a header ends with its signature, and a list has
one vote, the node and the signature. -/
def plainReader : BlockReader where
  headerData header := if header.length < 64 then none else some (header.take (header.length - 64))
  headerSig header := if header.length < 64 then none else some (header.drop (header.length - 64))
  votes
    | [] => []
    | node :: sig => [⟨node.toNat, sig, 0⟩]
  headerData_le {header data} h := by
    split_ifs at h with hsize
    rw [← Option.some.inj h]
    exact List.length_take_le' _ _
  votes_le {list item} h := by
    cases list with
    | nil => exact absurd h List.not_mem_nil
    | cons node sig =>
        obtain rfl := List.mem_singleton.1 h
        exact Nat.le_succ sig.length

/-- The roster of one node, authorized by the first block. -/
def oneNodeRoster : Roster := ⟨[⟨List.replicate 33 1, 1, true, 1, 0, 0⟩], []⟩

/-- A block that this node has made and voted for. -/
def ownBlock (height : UInt8) (prevHash : Bytes) : StoredBlock :=
  let data := 1 :: List.replicate 8 0 ++ height :: prevHash ++ List.replicate 64 0 ++ [1]
  let sig := plainSign (List.replicate 33 1) data
  ⟨height.toNat, data ++ sig, none, 1 :: plainSign (List.replicate 33 1) (sig.take 32)⟩

/-- **A history without its first blocks is OK**: the table has the block of height 5 only, as
after a state update. -/
theorem reportsOk_without_first_blocks :
    let t : BlocksTable := ⟨[ownBlock 5 (List.replicate 32 1)], by decide⟩
    ¬(t.ReportsOk plainReader plainCrypto oneNodeRoster ↔
      ∃ H : ℕ, t.Segment plainReader plainCrypto oneNodeRoster 1 H) := by
  intro t h
  have hok : t.ReportsOk plainReader plainCrypto oneNodeRoster := by decide +kernel
  obtain ⟨H, hsegment⟩ := h.1 hok
  have hkeys := hsegment.heights
  have hfive := ((hkeys 5).1 ⟨_, List.mem_singleton_self _, rfl⟩).2
  obtain ⟨row, hrow, hone⟩ := (hkeys 1).2 ⟨by omega, by omega⟩
  rw [List.mem_singleton.1 hrow] at hone
  exact absurd hone (by decide)

/-- Two blocks are a history; without the link between them they are none. -/
example :
    let verdict rows hnodup :=
      BlocksTable.aergoliteVerifyHistory plainReader plainCrypto oneNodeRoster ⟨rows, hnodup⟩
    verdict [ownBlock 1 (List.replicate 32 0), ownBlock 2 (List.replicate 32 1)] (by decide) =
        some (.ok, "OK".toList) ∧
      verdict [ownBlock 1 (List.replicate 32 0), ownBlock 2 (List.replicate 32 0)] (by decide) =
        some (.invalid, "invalid".toList) := by
  decide +kernel

end Core
end AergoLite
