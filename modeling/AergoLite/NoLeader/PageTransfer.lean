/-
# The size of a page

A page of the database is copied twice on its way to another node: `on_request_state_update` reads
it into an array of 4096 bytes, as many bytes as the pager has for a page, and `write_page_data`
of the other node writes it into a page of its pager, as many bytes as the message has.  Nothing
compares one with the other, and a message without the blob is a null pointer.

A message is rejected or replaces one whole page exactly if something fails before the copy or the
blob is of the size of a page (`exact_iff`); and the pages can be sent where they have 4096 bytes
at most (`sendDbPages_isSome_iff`).
-/

import AergoLite.NoLeader.StateRequests
import Mathlib.Logic.Function.Basic

namespace AergoLite
namespace NoLeader

open AergoLite.Core

namespace SyncNode

/-! ## The pages that are written -/

/-- The worker database: its pages as they are committed, and in its transaction. -/
structure WorkerDb where
  pageSize : ℕ
  committed : UInt32 → Bytes
  pages : UInt32 → Bytes
  length_committed : ∀ pgno, (committed pgno).length = pageSize
  length_pages : ∀ pgno, (pages pgno).length = pageSize

/-- The transaction is rolled back. -/
def WorkerDb.rollback (db : WorkerDb) : WorkerDb :=
  { db with pages := db.committed, length_pages := db.length_committed }

/-- The transaction of an open block is rolled back, with `rollback_block`. -/
def WorkerDb.rollbackBlock (s : SyncNode) (db : WorkerDb) : WorkerDb :=
  if s.openBlock && s.activeBlock then db.rollback else db

/-- `memcpy` to the begin of a page. -/
def WorkerDb.copy (db : WorkerDb) (pgno : UInt32) (data : Bytes) (h : data.length ≤ db.pageSize) :
    WorkerDb :=
  { db with
    pages := Function.update db.pages pgno (data ++ (db.pages pgno).drop data.length)
    length_pages := fun n => by
      by_cases hn : n = pgno
      · rw [hn, Function.update_self, List.length_append, List.length_drop, db.length_pages]
        omega
      · rw [Function.update_of_ne hn, db.length_pages] }

/-- `sqlite3PagerGet`: there is no page 0, the numbers end at `PAGER_MAX_PGNO`, and the page of the
pending byte is not used.  `error` stands for `SQLITE_CORRUPT`. -/
def sqlite3PagerGet (rc : Rc) (pgno : UInt32) (db : WorkerDb) : Rc :=
  if pgno.toNat = 0 ∨ 2147483647 < pgno.toNat ∨ pgno.toNat = 0x40000000 / db.pageSize + 1 then .error
  else rc

/-- `write_page_data`, with the outcomes of the pager.  The result is `none` where the data is a
null pointer or does not fit into the page. -/
def writePageData (got wrote : Rc) (pgno : UInt32) (data : Option Bytes) (db : WorkerDb) :
    Option (Rc × WorkerDb) :=
  if sqlite3PagerGet got pgno db ≠ .ok then some (sqlite3PagerGet got pgno db, db)
  else if wrote ≠ .ok then some (wrote, db)
  else match data with
    | none => none
    | some data =>
      if h : data.length ≤ db.pageSize then some (.ok, db.copy pgno data h) else none

/-- A page message, with the blob if it has one. -/
structure DbPageMessage where
  height : ℤ
  pgno : UInt32
  dbpage : Option Bytes

/-- What `on_update_db_page` does with a page. -/
inductive PageOutcome
  | ignored
  /-- The update is cancelled, and the next node is asked. -/
  | failed (db : WorkerDb)
  | written (db : WorkerDb)
  | undefined

/-- The outcomes of what `on_update_db_page` calls. -/
structure PageOutcomes where
  begun : BeginOutcomes
  got : Rc
  wrote : Rc

/-- `on_update_db_page` once an update is open. -/
def updateDbPage (o : PageOutcomes) (msg : DbPageMessage) (db : WorkerDb) : PageOutcome :=
  match writePageData o.got o.wrote msg.pgno msg.dbpage db with
  | none => .undefined
  | some (rc, db) => if rc ≠ .ok then .failed db.rollback else .written db

/-- `on_update_db_page`, as far as the worker database goes. -/
def onUpdateDbPageData (o : PageOutcomes) (nodeId : ℤ) (msg : DbPageMessage) (s : SyncNode)
    (db : WorkerDb) : PageOutcome :=
  if nodeId ≠ s.contactedNodeId then .ignored
  else if msg.height ≤ s.currentHeight then .ignored
  else if s.syncDownState ≠ .synchronizing then .ignored
  else
    let db := db.rollbackBlock s
    let s := if s.openBlock then s.rollbackBlock else s
    if s.isUpdatingState then updateDbPage o msg db
    else if (s.aergoliteBeginStateUpdate o.begun).1 ≠ .ok then .failed db.rollback
    else updateDbPage o msg db

/-- The message is rejected, or one whole page is replaced, with as many bytes as a page has. -/
def PageOutcome.Exact (s : SyncNode) (db : WorkerDb) (msg : DbPageMessage) : PageOutcome → Prop
  | .ignored => True
  | .failed db' => db'.pages = db.committed
  | .written db' => ∃ data, msg.dbpage = some data ∧ data.length = db.pageSize ∧
      db'.pages = Function.update (db.rollbackBlock s).pages msg.pgno data
  | .undefined => False

/-- The message is not looked at, or the update cannot be begun, or the pager does not give the
page to write to. -/
def RejectedBeforeCopy (o : PageOutcomes) (nodeId : ℤ) (msg : DbPageMessage) (s : SyncNode)
    (db : WorkerDb) : Prop :=
  nodeId ≠ s.contactedNodeId ∨ msg.height ≤ s.currentHeight ∨ s.syncDownState ≠ .synchronizing ∨
    (s.isUpdatingState = false ∧
      ((if s.openBlock then s.rollbackBlock else s).aergoliteBeginStateUpdate o.begun).1 ≠ .ok) ∨
    sqlite3PagerGet o.got msg.pgno db ≠ .ok ∨ o.wrote ≠ .ok

section update

variable {o : PageOutcomes} {msg : DbPageMessage} {s : SyncNode} {db : WorkerDb}

@[simp] theorem pageSize_rollbackBlock : (db.rollbackBlock s).pageSize = db.pageSize := by
  unfold WorkerDb.rollbackBlock
  split_ifs <;> rfl

@[simp] theorem committed_rollbackBlock : (db.rollbackBlock s).committed = db.committed := by
  unfold WorkerDb.rollbackBlock
  split_ifs <;> rfl

/-- The page is written to what the worker database is then. -/
theorem exact_updateDbPage_iff :
    (updateDbPage o msg (db.rollbackBlock s)).Exact s db msg
      ↔ (sqlite3PagerGet o.got msg.pgno db ≠ .ok ∨ o.wrote ≠ .ok) ∨
        ∃ data, msg.dbpage = some data ∧ data.length = db.pageSize := by
  have hget : sqlite3PagerGet o.got msg.pgno (db.rollbackBlock s)
      = sqlite3PagerGet o.got msg.pgno db := by
    unfold sqlite3PagerGet
    rw [pageSize_rollbackBlock]
  unfold updateDbPage writePageData
  rw [hget]
  by_cases hgot : sqlite3PagerGet o.got msg.pgno db ≠ .ok
  · rw [if_pos hgot]
    dsimp only
    rw [if_pos hgot]
    exact iff_of_true committed_rollbackBlock (.inl (.inl hgot))
  rw [if_neg hgot]
  by_cases hwrote : o.wrote ≠ .ok
  · rw [if_pos hwrote]
    dsimp only
    rw [if_pos hwrote]
    exact iff_of_true committed_rollbackBlock (.inl (.inr hwrote))
  rw [if_neg hwrote]
  rw [or_iff_right (not_or.2 ⟨hgot, hwrote⟩)]
  cases hdata : msg.dbpage with
  | none => exact iff_of_false id fun ⟨_, h, _⟩ => nomatch h
  | some data =>
    dsimp only
    by_cases hfit : data.length ≤ (db.rollbackBlock s).pageSize
    · rw [dif_pos hfit]
      constructor
      · rintro ⟨data', hdata', hsize, -⟩
        exact ⟨data', hdata ▸ hdata', hsize⟩
      · rintro ⟨data', hdata', hsize⟩
        obtain rfl := Option.some.inj hdata'
        refine ⟨data, hdata, hsize, ?_⟩
        have hrest : ((db.rollbackBlock s).pages msg.pgno).drop data.length = [] := by
          rw [List.drop_eq_nil_iff, (db.rollbackBlock s).length_pages, pageSize_rollbackBlock]
          omega
        show Function.update (db.rollbackBlock s).pages msg.pgno (data ++ _) = _
        rw [hrest, List.append_nil]
    · rw [dif_neg hfit]
      rw [pageSize_rollbackBlock] at hfit
      refine iff_of_false id fun ⟨data', hdata', hsize⟩ => ?_
      obtain rfl := Option.some.inj hdata'
      omega

/-- **A page is replaced as a whole, or the message rejected, exactly if the blob has the size of
a page** where nothing has failed before. -/
theorem exact_iff (nodeId : ℤ) :
    (onUpdateDbPageData o nodeId msg s db).Exact s db msg
      ↔ RejectedBeforeCopy o nodeId msg s db ∨
        ∃ data, msg.dbpage = some data ∧ data.length = db.pageSize := by
  unfold onUpdateDbPageData RejectedBeforeCopy
  by_cases hnode : nodeId ≠ s.contactedNodeId
  · rw [if_pos hnode]
    exact iff_of_true trivial (.inl (.inl hnode))
  rw [if_neg hnode]
  by_cases hheight : msg.height ≤ s.currentHeight
  · rw [if_pos hheight]
    exact iff_of_true trivial (.inl (.inr (.inl hheight)))
  rw [if_neg hheight]
  by_cases hstate : s.syncDownState ≠ .synchronizing
  · rw [if_pos hstate]
    exact iff_of_true trivial (.inl (.inr (.inr (.inl hstate))))
  rw [if_neg hstate]
  simp only [hnode, hheight, hstate, false_or]
  have hflag : (if s.openBlock then s.rollbackBlock else s).isUpdatingState = s.isUpdatingState := by
    split_ifs <;> rfl
  rw [hflag]
  by_cases hupdating : s.isUpdatingState = true
  · rw [if_pos hupdating, exact_updateDbPage_iff]
    simp [hupdating]
  rw [if_neg hupdating]
  by_cases hbegun :
      ((if s.openBlock then s.rollbackBlock else s).aergoliteBeginStateUpdate o.begun).1 ≠ .ok
  · rw [if_pos hbegun]
    exact iff_of_true committed_rollbackBlock
      (.inl (.inl ⟨Bool.eq_false_of_not_eq_true hupdating, hbegun⟩))
  · rw [if_neg hbegun, exact_updateDbPage_iff]
    simp only [hbegun, and_false, false_or]

end update

/-! ## The pages that are read -/

/-- **The pages are sent where the array has room for one**, unless none is read. -/
theorem sendDbPages_isSome_iff (o : RequestOutcomes) (s : SyncNode) {pageSize : ℕ}
    (hsize : ∀ pgno, (s.store.pages pgno).length = pageSize) (pgnos : List UInt32) :
    (sendDbPages o s pgnos).isSome
      ↔ pageSize ≤ 4096 ∨ ∀ pgno ∈ pgnos.head?, o.readPage pgno ≠ .ok := by
  have hget : ∀ pgno, s.store.aergoliteGetDbPage pgno
      = if pageSize ≤ 4096 then some ⟨pgno, s.store.pages pgno⟩ else none := fun pgno => by
    unfold PageNode.aergoliteGetDbPage
    rw [hsize]
  by_cases hroom : pageSize ≤ 4096
  · refine iff_of_true ?_ (.inl hroom)
    induction pgnos with
    | nil => rfl
    | cons pgno pgnos ih =>
      rw [sendDbPages, hget, if_pos hroom, Option.bind_some]
      split_ifs
      · rfl
      · rfl
      · rw [Option.isSome_map]
        exact ih
  · rw [or_iff_right hroom]
    cases pgnos with
    | nil => exact iff_of_true rfl nofun
    | cons pgno pgnos =>
      rw [sendDbPages, hget, if_neg hroom, Option.bind_none]
      by_cases hread : o.readPage pgno ≠ .ok
      · rw [if_pos hread]
        exact iff_of_true rfl fun _ h => Option.some.inj h ▸ hread
      · rw [if_neg hread]
        exact iff_of_false nofun fun h => hread (h pgno rfl)

/-- **The two copies of a page are of its size exactly where its size is the one of the copy's
place.**  A node receives a page, and a peer is asked for pages. -/
theorem page_transfer_iff (o : PageOutcomes) (nodeId : ℤ) (msg : DbPageMessage) (s : SyncNode)
    (db : WorkerDb) (o' : RequestOutcomes) (peer : SyncNode) (pageSize : ℕ)
    (pgnos : List UInt32) (h : ∀ pgno, (peer.store.pages pgno).length = pageSize) :
    ((onUpdateDbPageData o nodeId msg s db).Exact s db msg
        ↔ RejectedBeforeCopy o nodeId msg s db ∨
          ∃ data, msg.dbpage = some data ∧ data.length = db.pageSize) ∧
      ((sendDbPages o' peer pgnos).isSome
        ↔ pageSize ≤ 4096 ∨ ∀ pgno ∈ pgnos.head?, o'.readPage pgno ≠ .ok) :=
  ⟨exact_iff nodeId, sendDbPages_isSome_iff o' peer h pgnos⟩

/-- A worker database of pages of one size that are empty. -/
def zeroDb (pageSize : ℕ) : WorkerDb :=
  ⟨pageSize, fun _ => List.replicate pageSize 0, fun _ => List.replicate pageSize 0,
    fun _ => List.length_replicate, fun _ => List.length_replicate⟩

/-- Nothing fails before the copy. -/
def pageOutcomes : PageOutcomes := ⟨⟨true, .ok, .ok⟩, .ok, .ok⟩

/-- `askingTwo`, with pages of one size. -/
def sizedNode (pageSize : ℕ) : SyncNode :=
  { askingTwo with store := { askingTwo.store with pages := fun _ => List.replicate pageSize 0 } }

theorem page_transfer_512 :
    (onUpdateDbPageData pageOutcomes 2 ⟨2, 3, some (List.replicate 512 7)⟩ askingTwo
      (zeroDb 512)).Exact askingTwo (zeroDb 512) ⟨2, 3, some (List.replicate 512 7)⟩ ∧
    (sendDbPages (requestOutcomes true) (sizedNode 512) [1, 2]).isSome := by
  have hblob : (List.replicate 512 7 : Bytes).length = 512 := List.length_replicate
  generalize (List.replicate 512 7 : Bytes) = blob at hblob ⊢
  obtain ⟨hupdate, hrequest⟩ := page_transfer_iff pageOutcomes 2 ⟨2, 3, some blob⟩ askingTwo
    (zeroDb 512) (requestOutcomes true) (sizedNode 512) 512 [1, 2] fun _ => List.length_replicate
  exact ⟨hupdate.2 (.inr ⟨blob, rfl, hblob⟩), hrequest.2 (.inl (by decide))⟩

/-- The contacted peer sends a byte of a page, or 513, or no blob, and a node with pages of 8192
bytes is asked for its state. -/
theorem wrong_sizes :
    (∀ dbpage ∈ [some [7], some (List.replicate 513 7), none],
      ¬(onUpdateDbPageData pageOutcomes 2 ⟨2, 3, dbpage⟩ askingTwo (zeroDb 512)).Exact askingTwo
        (zeroDb 512) ⟨2, 3, dbpage⟩) ∧
    ¬(sendDbPages (requestOutcomes true) (sizedNode 8192) [1, 2]).isSome := by
  have hnothing : ∀ dbpage,
      ¬RejectedBeforeCopy pageOutcomes 2 ⟨2, 3, dbpage⟩ askingTwo (zeroDb 512) := fun dbpage => by
    show ¬RejectedBeforeCopy pageOutcomes 2 ⟨2, 3, none⟩ askingTwo (zeroDb 512)
    unfold RejectedBeforeCopy
    decide
  constructor
  · intro dbpage hmem hexact
    obtain ⟨data, hdata, hsize⟩ := ((exact_iff 2).1 hexact).resolve_left (hnothing dbpage)
    obtain rfl : dbpage = some data := hdata
    simp only [List.mem_cons, Option.some.injEq, List.not_mem_nil, or_false, reduceCtorEq] at hmem
    rcases hmem with rfl | rfl
    · exact absurd hsize (by decide)
    · exact absurd (List.length_replicate.symm.trans hsize) (by decide)
  · rw [sendDbPages_isSome_iff _ _ (fun _ => List.length_replicate)]
    rintro (hroom | hread)
    · exact absurd hroom (by decide)
    · exact hread 1 rfl rfl

end SyncNode
end NoLeader
end AergoLite
