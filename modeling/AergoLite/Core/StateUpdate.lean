/-
# State updates

A node that is behind asks a peer for the pages that were modified since its last block.  The
peer reads them from its table `page_state` (`load_modified_pages`) and sends the pages of the
database, the list, and its last block; the node writes the pages, compares their hashes with
the list, compares the state hash with the one of the header, verifies the votes and saves the
list (`aergolite_apply_state_update`).

The two nodes have the same state afterwards (`synchronise_iff`) exactly where `Updates` says
so.  The signature and the votes are checked with the authorizations from before the update;
the heights in the list of a block are not compared with its height, so a page can be missing;
and there is room for pages of 4096 bytes, and for 32769 of them.
-/

import AergoLite.Common.SortedArray
import AergoLite.Core.BlockHeader
import AergoLite.Core.CommitPages

namespace AergoLite
namespace Core

open AergoLite.Common
open Transition

/-- What a function of the core returns: an error or a value.  `none` is undefined. -/
abbrev Fallible (α : Type) := ExceptT Rc Option α

/-- `if( rc ) goto loc_failed`. -/
def checkRc (rc : Rc) : Fallible Unit := if rc = .ok then pure () else throw rc

/-- `if( p ){ rc = …; goto loc_failed; }`. -/
def failIf (p : Prop) [Decidable p] (rc : Rc) : Fallible Unit := if p then throw rc else pure ()

/-- A page of a database. -/
structure DbPage where
  pgno : UInt32
  data : Bytes
  deriving DecidableEq, Repr

/-- A row of the table `blocks` with the height as its key; a state update has no body. -/
structure SavedBlock where
  height : ℤ
  header : Header
  votes : List VoteItem
  deriving DecidableEq, Repr

/-- What state updates read and write of a node: the pages of its worker database, the tables
`page_state` and `blocks`, the list of page hashes, and the last block (`current_block`). -/
structure PageNode where
  pages : UInt32 → Bytes
  pageState : List PageRow
  pagesHashes : ItemArray Bytes
  blocks : List SavedBlock
  current : Option SavedBlock

/-- The height of the last block, 0 if there is none. -/
def PageNode.height (n : PageNode) : ℤ := (n.current.map SavedBlock.height).getD 0

/-- `sha256` of a page. -/
def pageSha256 (c : Crypto) (data : Bytes) : Bytes := c.sha256 (textOf data)

/-- `sha256` of the list of page hashes. -/
def listSha256 (c : Crypto) (hashes : List Bytes) : Bytes := c.sha256 (textOf hashes.flatten)

/-! ## The node that sends -/

/-- `load_modified_pages`. -/
def PageNode.loadModifiedPages (n : PageNode) (fromHeight : ℤ) : Fallible (List PageRow) :=
  let list := n.pageState.filter fun row => fromHeight ≤ row.blockHeight
  if list.any fun row => row.hash.length ≠ 32 then throw .error else pure list

/-- `aergolite_get_db_page`; the caller has room for 4096 bytes. -/
def PageNode.aergoliteGetDbPage (n : PageNode) (pgno : UInt32) : Option DbPage :=
  if (n.pages pgno).length ≤ 4096 then some ⟨pgno, n.pages pgno⟩ else none

/-- An array in which no item is inserted in vain. -/
def insertedArray {α : Type} (result : Option (Except ArrayError (ItemArray α))) :
    Fallible (List α) := do
  match ← result with
  | .error _ => throw .nomem
  | .ok array => array.contents

/-- `compare_pgno`. -/
def comparePgno : UInt32 → UInt32 → ℤ := compareKeys UInt32.toNat

/-- The pages `on_request_state_update` sends: those of the list in turn, each once. -/
def PageNode.sendPages (n : PageNode) (list : List PageRow) : Fallible (List DbPage) := do
  let pages ← insertedArray
    (insertAll 0 comparePgno (list.map PageRow.pgno) (newArray 0 (2 ^ 4) 4))
  (pages.mapM n.aergoliteGetDbPage : Option (List DbPage))

/-! ## The node that receives -/

/-- `compare_mod_pages`. -/
def compareModPages : ModPage → ModPage → ℤ := compareKeys fun page => page.pgno.toNat

/-- What `log_modified_page` inserts. -/
def DbPage.modPage (c : Crypto) (page : DbPage) : ModPage := ⟨page.pgno, pageSha256 c page.data⟩

/-- The list `mod_pages` once `collect_modified_pages` has logged the pages, in some order. -/
def collectModifiedPages (c : Crypto) (logged : List DbPage) : Fallible (List ModPage) :=
  insertedArray (insertAll ⟨0, zeroHash⟩ compareModPages (logged.map (DbPage.modPage c))
    (newArray ⟨0, zeroHash⟩ (2 ^ 3) 36))

/-- `compare_modified_pages`: the height, item 2 of a row of the list, is not read. -/
def compareModPageList (list : List PageRow) (modPages : List ModPage) : Rc :=
  if list.map PageRow.page = modPages then .ok else .invalid

/-- The hash `calc_new_state_hash` calculates. -/
def newStateHash (c : Crypto) (modPages : List ModPage) (pagesHashes : ItemArray Bytes) :
    Fallible Bytes := do
  let (rc, array) ← setPages modPages (arrayCopy pagesHashes)
  checkRc rc
  let hashes ← calcStateHash array
  return listSha256 c hashes

/-- What a commit and a state update do once the block is verified: the pages, the list and the
block are saved, and the databases committed. -/
def PageNode.save (o : CommitOutcomes) (n : PageNode) (pages : UInt32 → Bytes)
    (block : SavedBlock) (list : List PageRow) : Fallible PageNode := do
  failIf (list = []) .error
  checkRc o.savePages
  let (rc, pagesHashes) ← updatePagesHashList (list.map PageRow.page) n.pagesHashes
  checkRc rc
  checkRc o.updateHashes
  checkRc o.saveBlock
  failIf (∃ other ∈ n.blocks, other.height = block.height) .constraint
  checkRc o.commitWorker
  checkRc o.commitState
  return {
    pages
    pageState := saveModifiedPages list n.pageState
    pagesHashes
    blocks := n.blocks ++ [block]
    current := some block }

/-- The pages of the database after some are written. -/
def writePages (written : List DbPage) (pages : UInt32 → Bytes) (pgno : UInt32) : Bytes :=
  ((written.find? fun page => page.pgno == pgno).map DbPage.data).getD (pages pgno)

/-- The outcomes of what a state update calls: with those of a commit, the ones of
`aergolite_begin_state_update`, of `write_page_data`, and of the allocations for the list and
for the copy of the page hashes. -/
structure UpdateOutcomes extends CommitOutcomes where
  beginUpdate : Rc
  writePages : Rc
  collectPages : Rc
  newHash : Rc

/-- What a node checks signatures with during an update: the list `authorizations`, and the rows
that a query of `aergolite_nodes` returns while the pages are being written. -/
structure Roster where
  authorizations : List NodeAuth
  queried : List AllowedNode

/-- The signature on the header, as `read_block_header` checks it. -/
def Roster.verifyHeader (c : Crypto) (roster : Roster) (header : Header) : Rc :=
  aergoliteVerifyRawById c roster.authorizations roster.queried (c.sha256 header.data)
    header.nodeId header.sig

/-- The votes on the block, as `verify_block_votes` checks them in a state update. -/
def Roster.verifyVotes (c : Crypto) (roster : Roster) (block : SavedBlock) : Rc :=
  verifyBlockVotes c roster.authorizations roster.queried block.header.height block.header.id
    block.votes true

/-- `aergolite_apply_state_update`, after the pages are written and logged. -/
def PageNode.aergoliteApplyStateUpdate (c : Crypto) (o : UpdateOutcomes) (roster : Roster)
    (n : PageNode) (logged : List DbPage) (block : SavedBlock) (list : List PageRow) :
    Fallible PageNode := do
  checkRc (roster.verifyHeader c block.header)
  checkRc o.collectPages
  let modPages ← collectModifiedPages c logged
  checkRc (compareModPageList list modPages)
  checkRc o.newHash
  let hash ← newStateHash c modPages n.pagesHashes
  failIf (hash ≠ block.header.stateHash) .invalid
  checkRc (roster.verifyVotes c block)
  n.save o.toCommitOutcomes (writePages logged n.pages) block list

/-- A state update: the sender reads its pages, and the receiver writes them, one
`aergolite_update_db_page` after the other, and applies the update.  The cache of the receiver
has the pages in an order of its own. -/
def synchronise (c : Crypto) (o : UpdateOutcomes) (roster : Roster)
    (order : List DbPage → List DbPage) (sender receiver : PageNode) (block : SavedBlock) :
    Fallible PageNode := do
  let list ← sender.loadModifiedPages (receiver.height + 1)
  let pages ← sender.sendPages list
  checkRc o.beginUpdate
  checkRc o.writePages
  receiver.aergoliteApplyStateUpdate c o roster (order pages) block list

/-! ## Reading the steps -/

section
variable {α β : Type}

@[simp] theorem bind_eq_pure {x : Fallible α} {f : α → Fallible β} {b : β} :
    x >>= f = pure b ↔ ∃ a, x = pure a ∧ f a = pure b := by
  constructor
  · intro h
    match hx : x with
    | none =>
        cases h
    | some (.error rc) => cases h
    | some (.ok a) => exact ⟨a, rfl, h⟩
  · rintro ⟨a, rfl, hf⟩
    exact hf

@[simp] theorem pure_eq_pure {a b : α} : (pure a : Fallible α) = pure b ↔ a = b := by
  constructor
  · intro h
    cases h
    rfl
  · rintro rfl
    rfl

@[simp] theorem lift_eq_pure {x : Option α} {a : α} : (liftM x : Fallible α) = pure a ↔ x = some a := by
  cases x with
  | none => exact ⟨nofun, nofun⟩
  | some b =>
      constructor
      · intro h
        cases h
        rfl
      · rintro h
        cases h
        rfl

@[simp] theorem throw_ne_pure {rc : Rc} {a : α} : (throw rc : Fallible α) ≠ pure a := nofun

@[simp] theorem checkRc_eq_pure {rc : Rc} {u : Unit} : checkRc rc = pure u ↔ rc = .ok := by
  unfold checkRc
  split_ifs with h
  · exact ⟨fun _ => h, fun _ => rfl⟩
  · exact ⟨nofun, fun h' => absurd h' h⟩

@[simp] theorem failIf_eq_pure {p : Prop} [Decidable p] {rc : Rc} {u : Unit} :
    failIf p rc = pure u ↔ ¬p := by
  unfold failIf
  split_ifs with h
  · exact ⟨nofun, fun h' => absurd h h'⟩
  · exact ⟨fun _ => h, fun _ => rfl⟩

end

/-- Nothing that a commit calls fails. -/
structure CommitOutcomes.Succeed (o : CommitOutcomes) : Prop where
  savePages : o.savePages = .ok
  updateHashes : o.updateHashes = .ok
  saveBlock : o.saveBlock = .ok
  commitWorker : o.commitWorker = .ok
  commitState : o.commitState = .ok

/-- Nothing that a state update calls fails. -/
structure UpdateOutcomes.Succeed (o : UpdateOutcomes) : Prop extends
    o.toCommitOutcomes.Succeed where
  beginUpdate : o.beginUpdate = .ok
  writePages : o.writePages = .ok
  collectPages : o.collectPages = .ok
  newHash : o.newHash = .ok

/-- **When a block is saved**, and what is saved. -/
theorem save_eq_pure {o : CommitOutcomes} {n t : PageNode} {pages : UInt32 → Bytes}
    {block : SavedBlock} {list : List PageRow} : n.save o pages block list = pure t ↔
      list ≠ [] ∧ o.Succeed ∧ (∀ other ∈ n.blocks, other.height ≠ block.height) ∧
        ∃ pagesHashes, updatePagesHashList (list.map PageRow.page) n.pagesHashes =
            some (.ok, pagesHashes) ∧
          t = ⟨pages, saveModifiedPages list n.pageState, pagesHashes, n.blocks ++ [block],
            some block⟩ := by
  unfold PageNode.save
  simp only [failIf_eq_pure, bind_eq_pure, checkRc_eq_pure, lift_eq_pure, pure_eq_pure,
    not_exists, not_and]
  constructor
  · rintro ⟨-, hlist, -, hpages, ⟨rc, pagesHashes⟩, hset, -, hrc, -, hhashes, -, hblock, -,
      hnew, -, hworker, -, hstate, rfl⟩
    dsimp only at hrc
    subst hrc
    exact ⟨hlist, ⟨hpages, hhashes, hblock, hworker, hstate⟩, hnew, pagesHashes, hset, rfl⟩
  · rintro ⟨hlist, ho, hnew, pagesHashes, hset, rfl⟩
    exact ⟨(), hlist, (), ho.savePages, (.ok, pagesHashes), hset, (), rfl, (), ho.updateHashes, (),
      ho.saveBlock, (), hnew, (), ho.commitWorker, (), ho.commitState, rfl⟩

/-- The hash of a list that is made without an error. -/
theorem newStateHash_eq_pure {c : Crypto} {modPages : List ModPage}
    {pagesHashes : ItemArray Bytes} {hash : Bytes} :
    newStateHash c modPages pagesHashes = pure hash ↔
      ∃ hashes, calcNewStateHash modPages pagesHashes = some hashes ∧
        listSha256 c hashes = hash := by
  unfold newStateHash calcNewStateHash listed
  simp only [bind_eq_pure, checkRc_eq_pure, lift_eq_pure, pure_eq_pure, Option.bind_eq_some_iff]
  constructor
  · rintro ⟨⟨rc, array⟩, hset, -, hrc, hashes, hlist, rfl⟩
    exact ⟨hashes, ⟨(rc, array), hset, (if_pos hrc).trans hlist⟩, rfl⟩
  · rintro ⟨hashes, ⟨⟨rc, array⟩, hset, hlist⟩, rfl⟩
    dsimp only at hlist
    split_ifs at hlist with hrc
    exact ⟨(rc, array), hset, (), hrc, hashes, hlist, rfl⟩

/-- **When a state update is accepted**, and what is saved. -/
theorem apply_eq_pure {c : Crypto} {o : UpdateOutcomes} {roster : Roster} {n t : PageNode}
    {logged : List DbPage} {block : SavedBlock} {list : List PageRow} :
    n.aergoliteApplyStateUpdate c o roster logged block list = pure t ↔
      roster.verifyHeader c block.header = .ok ∧ roster.verifyVotes c block = .ok ∧
        o.collectPages = .ok ∧ o.newHash = .ok ∧
        collectModifiedPages c logged = pure (list.map PageRow.page) ∧
        newStateHash c (list.map PageRow.page) n.pagesHashes = pure block.header.stateHash ∧
        n.save o.toCommitOutcomes (writePages logged n.pages) block list = pure t := by
  unfold PageNode.aergoliteApplyStateUpdate compareModPageList
  simp only [failIf_eq_pure, bind_eq_pure, checkRc_eq_pure, not_not]
  constructor
  · rintro ⟨-, hheader, -, hcollect, modPages, hpages, -, hcompare, -, hnew, hash, hhash, -, rfl, -,
      hvotes, hsave⟩
    split_ifs at hcompare with hsame
    exact ⟨hheader, hvotes, hcollect, hnew, hsame ▸ hpages, hsame ▸ hhash, hsave⟩
  · rintro ⟨hheader, hvotes, hcollect, hnew, hpages, hhash, hsave⟩
    exact ⟨(), hheader, (), hcollect, _, hpages, (), if_pos rfl, (), hnew, _, hhash, (), rfl, (), hvotes,
      hsave⟩

/-! ## The pages that are sent -/

theorem insertedArray_eq_pure {α : Type} {result : Option (Except ArrayError (ItemArray α))}
    {l : List α} : insertedArray result = pure l ↔
      ∃ array, result = some (.ok array) ∧ array.contents = some l := by
  unfold insertedArray
  rw [bind_eq_pure]
  constructor
  · rintro ⟨inserted, hresult, hcontents⟩
    rw [lift_eq_pure] at hresult
    cases inserted with
    | error e => cases hcontents
    | ok array => exact ⟨array, hresult, lift_eq_pure.1 hcontents⟩
  · rintro ⟨array, rfl, hcontents⟩
    exact ⟨.ok array, rfl, lift_eq_pure.2 hcontents⟩

/-- The rows of the table that were saved after a height. -/
def PageNode.modifiedSince (n : PageNode) (height : ℤ) : List PageRow :=
  n.pageState.filter fun row => height + 1 ≤ row.blockHeight

theorem mem_modifiedSince {n : PageNode} {height : ℤ} {row : PageRow} :
    row ∈ n.modifiedSince height ↔ row ∈ n.pageState ∧ height < row.blockHeight := by
  unfold PageNode.modifiedSince
  rw [List.mem_filter, decide_eq_true_eq]
  exact Iff.rfl

theorem PageTable.modifiedSince {n : PageNode} (h : PageTable n.pageState) (height : ℤ) :
    PageTable (n.modifiedSince height) :=
  ⟨h.sorted.filter _, fun row hrow => h.positive row (mem_modifiedSince.1 hrow).1,
    fun row hrow => h.sized row (mem_modifiedSince.1 hrow).1⟩

/-- The table has only hashes of the right size. -/
theorem loadModifiedPages_eq {n : PageNode} (h : PageTable n.pageState) (height : ℤ) :
    n.loadModifiedPages (height + 1) = pure (n.modifiedSince height) := by
  refine if_neg fun hany => ?_
  obtain ⟨row, hrow, hsize⟩ := List.any_eq_true.1 hany
  exact of_decide_eq_true hsize (h.sized row (List.mem_filter.1 hrow).1)

/-- The pages of the rows. -/
def PageNode.pagesOf (n : PageNode) (list : List PageRow) : List DbPage :=
  list.map fun row => ⟨row.pgno, n.pages row.pgno⟩

/-- **The pages that are sent**, if there is room for each and for their number. -/
theorem sendPages_eq_pure {n : PageNode} {list : List PageRow} (h : PageTable list)
    {sent : List DbPage} : n.sendPages list = pure sent ↔
      list.length ≤ 32769 ∧ (∀ row ∈ list, (n.pages row.pgno).length ≤ 4096) ∧
        sent = n.pagesOf list := by
  have hordered : (list.map PageRow.pgno).Pairwise fun a b => a.toNat < b.toNat :=
    List.pairwise_map.2 h.sorted
  obtain ⟨hfew, hmany⟩ := @insertAll_new UInt32 0 UInt32.toNat _ _ 4 4 (by decide) (by decide)
    hordered (List.Perm.refl _)
  rw [List.length_map] at hfew hmany
  have hread : (list.map PageRow.pgno).mapM n.aergoliteGetDbPage = some sent ↔
      (∀ row ∈ list, (n.pages row.pgno).length ≤ 4096) ∧ sent = n.pagesOf list := by
    rw [mapM_eq_some, List.map_map]
    constructor
    · intro hget
      have hsized : ∀ row ∈ list, (n.pages row.pgno).length ≤ 4096 := fun row hrow => by
        have hmem : n.aergoliteGetDbPage row.pgno ∈ sent.map some :=
          hget ▸ List.mem_map_of_mem (f := n.aergoliteGetDbPage ∘ PageRow.pgno) hrow
        obtain ⟨page, -, hpage⟩ := List.mem_map.1 hmem
        unfold PageNode.aergoliteGetDbPage at hpage
        split_ifs at hpage with hsize
        exact hsize
      refine ⟨hsized, List.map_injective_iff.2 (Option.some_injective _) (hget.symm.trans ?_)⟩
      unfold PageNode.pagesOf
      rw [List.map_map]
      exact List.map_congr_left fun row hrow => if_pos (hsized row hrow)
    · rintro ⟨hsized, rfl⟩
      unfold PageNode.pagesOf
      rw [List.map_map]
      exact List.map_congr_left fun row hrow => if_pos (hsized row hrow)
  unfold PageNode.sendPages
  simp only [bind_eq_pure, insertedArray_eq_pure, lift_eq_pure]
  constructor
  · rintro ⟨pgnos, ⟨array, hall, hcontents⟩, hsent⟩
    have hle : list.length ≤ 32769 := by
      by_contra hlt
      exact absurd ((hmany (by omega)).symm.trans hall) nofun
    obtain ⟨array', hall', hcontents'⟩ := hfew hle
    obtain rfl : array' = array := Except.ok.inj (Option.some.inj (hall'.symm.trans hall))
    obtain rfl := Option.some.inj (hcontents'.symm.trans hcontents)
    exact ⟨hle, hread.1 hsent⟩
  · rintro ⟨hle, hsent⟩
    obtain ⟨array, hall, hcontents⟩ := hfew hle
    exact ⟨_, ⟨array, hall, hcontents⟩, hread.2 hsent⟩

/-- The pages that are logged, in any order, make the list they are compared with. -/
theorem collectModifiedPages_eq {c : Crypto} {logged : List DbPage} {list : List PageRow}
    (h : PageTable list)
    (hlogged : (logged.map (DbPage.modPage c)).Perm (list.map PageRow.page))
    (hfew : list.length ≤ 32769) :
    collectModifiedPages c logged = pure (list.map PageRow.page) := by
  have hordered : (list.map PageRow.page).Pairwise fun a b => a.pgno.toNat < b.pgno.toNat :=
    List.pairwise_map.2 h.sorted
  obtain ⟨array, hall, hcontents⟩ := (@insertAll_new ModPage ⟨0, zeroHash⟩
    (fun page => page.pgno.toNat) _ _ 36 3 (by decide) (by decide) hordered hlogged).1 (by
      rwa [List.length_map])
  exact insertedArray_eq_pure.2 ⟨array, hall, hcontents⟩

/-- What is written is what the sender has, and the rest is as it was. -/
theorem writePages_pagesOf {n : PageNode} {list : List PageRow} {logged : List DbPage}
    (hlogged : logged.Perm (n.pagesOf list)) (pages : UInt32 → Bytes) (pgno : UInt32) :
    writePages logged pages pgno =
      if ∃ row ∈ list, row.pgno = pgno then n.pages pgno else pages pgno := by
  have hmem : ∀ page ∈ logged, (∃ row ∈ list, row.pgno = page.pgno) ∧
      page.data = n.pages page.pgno := fun page hpage => by
    obtain ⟨row, hrow, rfl⟩ := List.mem_map.1 (hlogged.mem_iff.1 hpage)
    exact ⟨⟨row, hrow, rfl⟩, rfl⟩
  unfold writePages
  split_ifs with hrow
  · obtain ⟨row, hrow, rfl⟩ := hrow
    have hpage : ⟨row.pgno, n.pages row.pgno⟩ ∈ logged :=
      hlogged.mem_iff.2 (List.mem_map_of_mem hrow)
    cases hfind : logged.find? fun page => page.pgno == row.pgno with
    | none => exact absurd (List.find?_eq_none.1 hfind _ hpage) (by simp)
    | some page =>
        have hpgno : page.pgno = row.pgno := by simpa using List.find?_some hfind
        rw [Option.map_some, Option.getD_some, (hmem page (List.mem_of_find?_eq_some hfind)).2,
          hpgno]
  · rw [List.find?_eq_none.2, Option.map_none, Option.getD_none]
    intro page hpage heq
    obtain ⟨row, hmemrow, hpgno⟩ := (hmem page hpage).1
    exact hrow ⟨row, hmemrow, hpgno.trans (by simpa using heq)⟩

/-! ## When the states agree -/

/-- The rows have the hashes of the pages, the list in memory has those of the rows, and the
header of the last block the hash of the list. -/
structure PageNode.Sound (c : Crypto) (n : PageNode) : Prop where
  table : PageTable n.pageState
  small : largest n.pageState ≤ 65535
  holds : Holds n.pageState n.pagesHashes
  hashes : ∀ row ∈ n.pageState, row.hash = pageSha256 c (n.pages row.pgno)
  stateHash : ∀ block, n.current = some block →
    block.header.stateHash = listSha256 c (pageHashes n.pageState)

/-- A node has gone on from the state of another one: it still has a row for each of its rows,
and has one for every page that is different. -/
structure Since (base n : PageNode) : Prop where
  kept : ∀ row ∈ base.pageState, ∃ other ∈ n.pageState, other.pgno = row.pgno
  written : ∀ pgno, n.pages pgno ≠ base.pages pgno → ∃ row ∈ n.pageState, row.pgno = pgno

/-- The pages, the page hashes and the table `page_state` are the same. -/
structure SameState (n t : PageNode) : Prop where
  pages : t.pages = n.pages
  pagesHashes : calcStateHash t.pagesHashes = calcStateHash n.pagesHashes
  pageState : t.pageState = n.pageState

/-- **When a state update works.**  The signature on the header and the votes are verified with
what the receiver knows, nothing fails, the receiver does not have the block, and the rows that
were saved after its height are all that are new to it; there are some, but no more than 32769,
their pages have no more than 4096 bytes, and they fit in the list of page hashes. -/
structure Updates (c : Crypto) (o : UpdateOutcomes) (roster : Roster)
    (sender receiver : PageNode) (block : SavedBlock) : Prop where
  header : roster.verifyHeader c block.header = .ok
  votes : roster.verifyVotes c block = .ok
  succeed : o.Succeed
  unknown : ∀ other ∈ receiver.blocks, other.height ≠ block.height
  covered : ∀ row ∈ sender.pageState, row ∉ receiver.pageState →
    receiver.height < row.blockHeight
  modified : sender.modifiedSince receiver.height ≠ []
  few : (sender.modifiedSince receiver.height).length ≤ 32769
  sized : ∀ row ∈ sender.modifiedSince receiver.height, (sender.pages row.pgno).length ≤ 4096
  fits : Fits receiver.pageState receiver.pagesHashes (sender.modifiedSince receiver.height)

/-- Rows of a table with one page number are the same. -/
theorem PageTable.eq_of_pgno {rows : List PageRow} (h : PageTable rows) {row other : PageRow}
    (hrow : row ∈ rows) (hother : other ∈ rows) (heq : row.pgno = other.pgno) : row = other := by
  have hnodup : (rows.map fun row => row.pgno.toNat).Nodup :=
    List.pairwise_map.2 (h.sorted.imp fun hlt => Nat.ne_of_lt hlt)
  exact List.inj_on_of_nodup_map hnodup hrow hother (congrArg UInt32.toNat heq)

/-- The rows that were saved since bring the table up to date if they are all that are new. -/
theorem saveModifiedPages_since {sender receiver : PageNode} (hs : PageTable sender.pageState)
    (hr : PageTable receiver.pageState) (hsince : Since receiver sender) :
    saveModifiedPages (sender.modifiedSince receiver.height) receiver.pageState =
        sender.pageState ↔
      ∀ row ∈ sender.pageState, row ∉ receiver.pageState → receiver.height < row.blockHeight := by
  have hlist := hs.modifiedSince receiver.height
  constructor
  · intro heq row hrow hnew
    rw [← heq, hlist.mem_saveModifiedPages hr] at hrow
    rcases hrow with hrow | ⟨hold, -⟩
    · exact (mem_modifiedSince.1 hrow).2
    · exact absurd hold hnew
  · intro hcovered
    have hasymm : Std.Irrefl fun row other : PageRow => row.pgno.toNat < other.pgno.toNat :=
      ⟨fun _ => Nat.lt_irrefl _⟩
    have hanti : Std.Antisymm fun row other : PageRow => row.pgno.toNat < other.pgno.toNat :=
      ⟨fun _ _ h h' => absurd h (Nat.lt_asymm h')⟩
    refine List.Pairwise.eq_of_mem_iff (hlist.saveModifiedPages hr).sorted hs.sorted fun row => ?_
    rw [hlist.mem_saveModifiedPages hr]
    constructor
    · rintro (hrow | ⟨hrow, hnot⟩)
      · exact (mem_modifiedSince.1 hrow).1
      · -- the sender still has a row for the page, and it is not a new one
        obtain ⟨other, hother, hpgno⟩ := hsince.kept row hrow
        by_cases hold : other ∈ receiver.pageState
        · exact hr.eq_of_pgno hold hrow hpgno ▸ hother
        · exact absurd hpgno.symm (hnot other (mem_modifiedSince.2 ⟨hother, hcovered _ hother hold⟩))
    · intro hrow
      by_cases hnew : receiver.height < row.blockHeight
      · exact Or.inl (mem_modifiedSince.2 ⟨hrow, hnew⟩)
      · refine Or.inr ⟨by_contra fun hnot => hnew (hcovered row hrow hnot), fun other hother heq => ?_⟩
        obtain ⟨hmem, hafter⟩ := mem_modifiedSince.1 hother
        exact hnew (hs.eq_of_pgno hrow hmem heq ▸ hafter)

/-- A page without a row that was saved since is as it was. -/
theorem eq_of_not_modified {c : Crypto} {sender receiver : PageNode} (hs : sender.Sound c)
    (hr : receiver.Sound c) (hsince : Since receiver sender)
    (hcollision : ∀ pgno, pageSha256 c (sender.pages pgno) = pageSha256 c (receiver.pages pgno) →
      sender.pages pgno = receiver.pages pgno)
    (hcovered : ∀ row ∈ sender.pageState, row ∉ receiver.pageState →
      receiver.height < row.blockHeight) {pgno : UInt32}
    (hnot : ¬∃ row ∈ sender.modifiedSince receiver.height, row.pgno = pgno) :
    receiver.pages pgno = sender.pages pgno := by
  by_contra hne
  obtain ⟨row, hrow, rfl⟩ := hsince.written pgno (Ne.symm hne)
  have hold : row ∈ receiver.pageState := by
    by_contra hnew
    exact hnot ⟨row, mem_modifiedSince.2 ⟨hrow, hcovered row hrow hnew⟩, rfl⟩
  exact hne (hcollision _ ((hs.hashes row hrow).symm.trans (hr.hashes row hold))).symm

/-- The sender's pages make its rows. -/
theorem modPage_pagesOf {c : Crypto} {n : PageNode} (h : n.Sound c) (height : ℤ) :
    (n.pagesOf (n.modifiedSince height)).map (DbPage.modPage c) =
      (n.modifiedSince height).map PageRow.page := by
  unfold PageNode.pagesOf
  rw [List.map_map]
  refine List.map_congr_left fun row hrow => ?_
  exact congrArg (ModPage.mk row.pgno) (h.hashes row (mem_modifiedSince.1 hrow).1).symm

/-- **When the two nodes have the same state after an update.** -/
theorem synchronise_iff {c : Crypto} {sender receiver : PageNode} (hs : sender.Sound c)
    (hr : receiver.Sound c) (hsince : Since receiver sender) {block : SavedBlock}
    (hcurrent : sender.current = some block)
    (hcollision : ∀ pgno, pageSha256 c (sender.pages pgno) = pageSha256 c (receiver.pages pgno) →
      sender.pages pgno = receiver.pages pgno)
    {order : List DbPage → List DbPage} (horder : ∀ l, (order l).Perm l) (o : UpdateOutcomes)
    (roster : Roster) :
    (∃ t, synchronise c o roster order sender receiver block = pure t ∧ SameState sender t) ↔
      Updates c o roster sender receiver block := by
  have hlist := hs.table.modifiedSince receiver.height
  have hsave := saveModifiedPages_since hs.table hr.table hsince
  have hpages := modPage_pagesOf hs receiver.height
  unfold synchronise
  rw [loadModifiedPages_eq hs.table]
  simp only [bind_eq_pure, pure_eq_pure, checkRc_eq_pure, sendPages_eq_pure hlist, apply_eq_pure,
    save_eq_pure, exists_eq_left']
  constructor
  · rintro ⟨t, ⟨pages, ⟨hfew, hsized, rfl⟩, -, hbegin, -, hwrite, hheader, hvotes, hcollect, hnew,
      -, hhash, hmodified, ho, hunknown, pagesHashes, hset, rfl⟩, hsame⟩
    have hcovered := hsave.1 hsame.pageState
    refine ⟨hheader, hvotes, ⟨ho, hbegin, hwrite, hcollect, hnew⟩, hunknown, hcovered, hmodified,
      hfew, hsized, fits_of_listed (fun _ => hr.holds) hlist ?_ ?_⟩
    · obtain ⟨hashes, hcalc, -⟩ := newStateHash_eq_pure.1 hhash
      rw [hcalc]
      nofun
    · rw [hset, hsave.2 hcovered, ← hs.holds.contents]
      exact hsame.pagesHashes
  · intro h
    have hperm := horder (sender.pagesOf (sender.modifiedSince receiver.height))
    obtain ⟨copied, hcopy, hcopied⟩ := hr.holds.setPages_arrayCopy hlist h.fits
    obtain ⟨pagesHashes, hset, hholds⟩ := hr.holds.setPages hlist h.fits
    have hstate := hsave.2 h.covered
    rw [hstate] at hcopied hholds
    refine ⟨_, ⟨_, ⟨h.few, h.sized, rfl⟩, (), h.succeed.beginUpdate, (), h.succeed.writePages,
      h.header, h.votes, h.succeed.collectPages, h.succeed.newHash, ?_, ?_, h.modified,
      h.succeed.toSucceed, h.unknown, pagesHashes, hset, rfl⟩, ?_, ?_, hstate⟩
    · exact collectModifiedPages_eq hlist (hpages ▸ hperm.map _) h.few
    · refine newStateHash_eq_pure.2 ⟨_, ?_, (hs.stateHash block hcurrent).symm⟩
      unfold calcNewStateHash
      rw [hcopy]
      exact listed_ok hcopied
    · funext pgno
      dsimp only
      rw [writePages_pagesOf hperm]
      split_ifs with hrow
      · rfl
      · exact eq_of_not_modified hs hr hsince hcollision h.covered hrow
    · exact hholds.contents.trans hs.holds.contents.symm

end Core
end AergoLite
