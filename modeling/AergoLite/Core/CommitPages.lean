/-
# Committing a block with its pages

`aergolite_commit_block` step by step, with the table `page_state` and the list of page hashes
it keeps next to what `Core.Blocks` has: the pages are saved, the list in memory is updated,
the block is saved, and then the worker database is committed and after it the state database.
Where a step fails, `aergolite_rollback_block` rolls both databases back and loads the list
again.

The commit is atomic (`commitBlock_atomic_iff`) unless the first database is committed and the
second is not, or the list is not loaded.
-/

import AergoLite.Core.Nonces
import AergoLite.Core.StateHash

namespace AergoLite
namespace Core

open AergoLite.Common
open Transition

/-- The body of a block, with the list of its modified pages. -/
structure PageBody where
  txnIds : List (BitVec 64)
  modPages : List PageRow
  deriving DecidableEq

/-- The environment, with the form in which modified pages and their hashes are compared. -/
structure PageEnv (D : Type) extends Env D where
  encodePages : List ModPage → Bytes

variable {D : Type}

/-- The body as `Core.Blocks` has it: the heights of the pages are not compared. -/
def PageEnv.body (env : PageEnv D) (body : PageBody) : Body :=
  ⟨body.txnIds, env.encodePages (body.modPages.map PageRow.page)⟩

/-- A node with its table `page_state` and its list `pages_hashes`.  Nothing but a commit
writes to that table, so a rollback leaves it as it is. -/
structure Storage (D : Type) where
  core : Aergolite D
  verifiedBody : Option PageBody
  pageState : List PageRow
  pagesHashes : ItemArray Bytes

/-- The outcomes of what `aergolite_commit_block` calls: `save_modified_pages`, the allocations
of `update_pages_hash_list`, `save_block`, the two commits, and the query of
`load_pages_hash_list`. -/
structure CommitOutcomes where
  savePages : Rc
  updateHashes : Rc
  saveBlock : Rc
  commitWorker : Rc
  commitState : Rc
  reload : Rc

/-- `aergolite_rollback_block`: where the query fails, the list is left empty. -/
def Storage.rollback (reload : Rc) (core : Aergolite D) (s : Storage D) : Option (Storage D) :=
  let loaded := if reload = .ok then loadPagesHashList s.pageState
    else some (reload, newArray zeroHash 16 32)
  loaded.map fun (_, pagesHashes) =>
    { s with
      core := aergoliteRollbackBlock core
      verifiedBody := none
      pagesHashes }

/-- A step fails, and the block is rolled back. -/
def Storage.failed (o : CommitOutcomes) (s : Storage D) (rc : Rc) (core : Aergolite D) :
    Option (Rc × Storage D) :=
  (s.rollback o.reload core).map fun s => (rc, s)

/-- `aergolite_commit_block`, once the pages are saved and the list is updated. -/
def Storage.storeBlock (env : PageEnv D) (o : CommitOutcomes) (s : Storage D) (header : Header)
    (body : PageBody) (votes : List VoteItem) (pagesHashes : ItemArray Bytes) :
    Option (Rc × Storage D) :=
  let a := s.core
  if o.updateHashes ≠ .ok then s.failed o o.updateHashes a
  else if o.saveBlock ≠ .ok then s.failed o o.saveBlock a
  else if a.db.state.blocks.any fun other => other.height == a.activeBlock.height then
    s.failed o .constraint a
  else
    let row := a.row header (env.body body) votes
    let state := { a.db.state with blocks := a.db.state.blocks ++ [row] }
    let a := { a with db := { a.db with state } }
    if o.commitWorker ≠ .ok then s.failed o o.commitWorker a
    else
      let saved := a.saved.map fun s => (a.db.worker, s.2)
      if o.commitState ≠ .ok then s.failed o o.commitState { a with saved }
      else
        let core := cleanupBlock { a with
          blockHeight := a.activeBlock.height
          blockId := a.activeBlock.id }
        some (.ok,
          { core := if core.db.nodesChanged then updateAuthorizations core else core
            verifiedBody := none
            pageState := saveModifiedPages body.modPages s.pageState
            pagesHashes })

/-- `aergolite_commit_block`. -/
def Storage.commitBlock (env : PageEnv D) (o : CommitOutcomes) (s : Storage D) (header : Header)
    (body : PageBody) (votes : List VoteItem) : Option (Rc × Storage D) :=
  let a := s.core
  if a.txnIds.isNone || a.activeBlock.height ≤ 0 then some (.misuse, s)
  else if a.activeBlock.verified ≠ some (header, env.body body) ∨ s.verifiedBody ≠ some body then
    some (.misuse, s)
  else if compareModifiedPages env.toEnv a (env.body body) ≠ .ok then s.failed o .invalid a
  -- an empty list is an error of `save_modified_pages` as well
  else if body.modPages = [] ∨ o.savePages ≠ .ok then s.failed o .busy a
  else
    (updatePagesHashList (body.modPages.map PageRow.page) s.pagesHashes).bind
      fun (rc, pagesHashes) =>
        if rc ≠ .ok then s.failed o rc a
        else s.storeBlock env o header body votes pagesHashes

/-! ## What is committed -/

/-- What a commit changes, and a rollback restores. -/
structure Values (D : Type) where
  worker : Worker D
  state : StateDb
  pageState : List PageRow
  pagesHashes : Option (List Bytes)
  blockHeight : ℤ
  blockId : Bytes
  lastNonces : List (ℤ × ℤ)

/-- The last nonce of every authorization. -/
def lastNonces (auths : List NodeAuth) : List (ℤ × ℤ) :=
  auths.map fun auth => (auth.nodeId, auth.lastNonce)

theorem lastNonces_congr {auths auths' : List NodeAuth}
    (h : authNonces auths = authNonces auths') : lastNonces auths = lastNonces auths' := by
  have hmap : ∀ l : List NodeAuth, lastNonces l = (authNonces l).map fun n => (n.1, n.2.1) :=
    fun l => by rw [authNonces, List.map_map]; rfl
  rw [hmap, hmap, h]

/-- What is stored and what is in memory. -/
def Storage.values (s : Storage D) : Values D :=
  ⟨s.core.db.worker, s.core.db.state, s.pageState, calcStateHash s.pagesHashes,
    s.core.blockHeight, s.core.blockId, lastNonces s.core.authorizations⟩

/-- The databases as of the last committed block. -/
def Storage.committed (s : Storage D) : Worker D × StateDb :=
  s.core.saved.getD (s.core.db.worker, s.core.db.state)

/-- The values as of the last committed block. -/
def Storage.lastBlock (s : Storage D) : Values D :=
  ⟨s.committed.1, s.committed.2, s.pageState, some (pageHashes s.pageState), s.core.blockHeight,
    s.core.blockId, lastNonces (reloadAuthNonces s.core.authorizations)⟩

/-- The values of the block that is open. -/
def Storage.openBlock (env : PageEnv D) (s : Storage D) (header : Header) (body : PageBody)
    (votes : List VoteItem) : Values D :=
  let row := s.core.row header (env.body body) votes
  let pageState := saveModifiedPages body.modPages s.pageState
  ⟨s.core.db.worker, { s.core.db.state with blocks := s.core.db.state.blocks ++ [row] }, pageState,
    some (pageHashes pageState), s.core.activeBlock.height, s.core.activeBlock.id,
    lastNonces s.core.authorizations⟩

/-- A commit makes all values those of the open block, or leaves all as of the last one. -/
def Atomic (env : PageEnv D) (o : CommitOutcomes) (s : Storage D) (header : Header)
    (body : PageBody) (votes : List VoteItem) : Prop :=
  ∃ rc t, s.commitBlock env o header body votes = some (rc, t) ∧
    t.values = if rc = .ok then s.openBlock env header body votes else s.lastBlock

/-- The block is open and has been verified. -/
structure Storage.Verified (env : PageEnv D) (s : Storage D) (header : Header)
    (body : PageBody) : Prop where
  opened : s.core.txnIds.isSome = true
  height : 0 < s.core.activeBlock.height
  header : s.core.activeBlock.verified = some (header, env.body body)
  body : s.verifiedBody = some body

/-- The list in memory holds the hashes of the table. -/
structure Storage.Listed (s : Storage D) : Prop where
  table : PageTable s.pageState
  small : largest s.pageState ≤ 65535
  holds : Holds s.pageState s.pagesHashes

/-- The commit of the worker database is reached, and succeeds. -/
structure WorkerCommits (env : PageEnv D) (o : CommitOutcomes) (s : Storage D)
    (body : PageBody) : Prop where
  same : compareModifiedPages env.toEnv s.core (env.body body) = .ok
  pages : body.modPages ≠ [] ∧ o.savePages = .ok
  updated : o.updateHashes = .ok
  saved : o.saveBlock = .ok
  unique : ∀ row ∈ s.core.db.state.blocks, row.height ≠ s.core.activeBlock.height
  committed : o.commitWorker = .ok

/-- **When a commit is atomic.**  Where the worker database is committed and the state database
is not, it must be as before; and where the block is rolled back, the list is loaded or there
is nothing to load. -/
structure CommitsAtOnce (env : PageEnv D) (o : CommitOutcomes) (s : Storage D)
    (body : PageBody) : Prop where
  both : WorkerCommits env o s body → o.commitState ≠ .ok → s.core.db.worker = s.committed.1
  reloads : ¬(WorkerCommits env o s body ∧ o.commitState = .ok) →
    o.reload = .ok ∨ s.pageState = []

/-- No row, no hash. -/
theorem pageHashes_eq_nil {rows : List PageRow} (h : PageTable rows) :
    pageHashes rows = [] ↔ rows = [] := by
  constructor
  · intro hnil
    cases rows with
    | nil => rfl
    | cons row rows =>
        have hlength := congrArg List.length hnil
        rw [pageHashes, List.length_map, List.length_range, largest_cons, List.length_nil]
          at hlength
        have := h.positive row List.mem_cons_self
        omega
  · rintro rfl
    rfl

/-- **A rollback.**  The list is what it was if it is loaded, or if it was empty. -/
theorem Storage.rollback_spec {s : Storage D} (h : s.Listed) (reload : Rc)
    (core : Aergolite D) :
    ∃ t, s.rollback reload core = some t ∧ t.core = aergoliteRollbackBlock core ∧
      t.pageState = s.pageState ∧
      (calcStateHash t.pagesHashes = some (pageHashes s.pageState) ↔
        reload = .ok ∨ s.pageState = []) := by
  unfold Storage.rollback
  by_cases hreload : reload = .ok
  · obtain ⟨array, hload, hgood⟩ := loadPagesHashList_good h.table h.small
    rw [if_pos hreload, hload]
    refine ⟨_, rfl, rfl, rfl, ?_⟩
    exact ⟨fun _ => Or.inl hreload, fun _ => Holds.contents (Or.inl hgood)⟩
  · rw [if_neg hreload]
    refine ⟨_, rfl, rfl, rfl, ?_⟩
    have hempty : calcStateHash (newArray zeroHash 16 32) = some [] := rfl
    dsimp only
    rw [hempty]
    constructor
    · intro hnil
      exact Or.inr ((pageHashes_eq_nil h.table).1 (Option.some.inj hnil).symm)
    · rintro (hok | hnil)
      · exact absurd hok hreload
      · rw [(pageHashes_eq_nil h.table).2 hnil]

/-- A rollback after which the hashes are the same loads the list, or there is none. -/
theorem Storage.Listed.rollback {s t : Storage D} (h : s.Listed) {reload : Rc}
    {core : Aergolite D} (hroll : s.rollback reload core = some t)
    (hhashes : calcStateHash t.pagesHashes = some (pageHashes s.pageState)) : t.Listed := by
  obtain ⟨t', hroll', -, hpages, hlist⟩ := Storage.rollback_spec h reload core
  obtain rfl : t' = t := Option.some.inj (hroll'.symm.trans hroll)
  refine ⟨hpages ▸ h.table, hpages ▸ h.small, ?_⟩
  unfold Storage.rollback at hroll
  obtain ⟨⟨rc, array⟩, hloaded, rfl⟩ := Option.map_eq_some_iff.1 hroll
  by_cases hreload : reload = .ok
  · obtain ⟨array', hload, hgood⟩ := loadPagesHashList_good h.table h.small
    rw [if_pos hreload, hload] at hloaded
    obtain rfl : array' = array := congrArg Prod.snd (Option.some.inj hloaded)
    exact Or.inl hgood
  · rw [if_neg hreload] at hloaded
    obtain rfl : newArray zeroHash 16 32 = array := congrArg Prod.snd (Option.some.inj hloaded)
    obtain hok | hnil := hlist.1 hhashes
    · exact absurd hok hreload
    · refine Or.inl ?_
      dsimp only
      rw [hnil]
      exact good_newArray

/-- What a call returns is atomic. -/
def Settles (env : PageEnv D) (s : Storage D) (header : Header) (body : PageBody)
    (votes : List VoteItem) (result : Option (Rc × Storage D)) : Prop :=
  ∃ rc t, result = some (rc, t) ∧
    t.values = if rc = .ok then s.openBlock env header body votes else s.lastBlock

/-- **A step fails.**  It is as of the last block if the databases are restored to what they
were then, and the list is. -/
theorem settles_failed {env : PageEnv D} {s : Storage D} (h : s.Listed) {header : Header}
    {body : PageBody} {votes : List VoteItem} {rc : Rc} (hrc : rc ≠ .ok) (o : CommitOutcomes)
    {core : Aergolite D} (hheight : core.blockHeight = s.core.blockHeight)
    (hid : core.blockId = s.core.blockId)
    (hauths : core.authorizations = s.core.authorizations) :
    Settles env s header body votes (s.failed o rc core) ↔
      core.saved.getD (core.db.worker, core.db.state) = s.committed ∧
        (o.reload = .ok ∨ s.pageState = []) := by
  obtain ⟨t, hroll, hcore, hpages, hlist⟩ := Storage.rollback_spec h o.reload core
  have hback := rolledBack core
  have hvalues : t.values = s.lastBlock ↔
      core.saved.getD (core.db.worker, core.db.state) = s.committed ∧
        (o.reload = .ok ∨ s.pageState = []) := by
    rw [← hlist, ← hback.restored]
    unfold Storage.values Storage.lastBlock
    rw [hcore, hpages, Values.mk.injEq, Prod.ext_iff, hback.blockHeight, hback.blockId,
      hback.authorizations, hheight, hid, hauths]
    tauto
  unfold Storage.failed
  rw [hroll, ← hvalues]
  constructor
  · rintro ⟨rc', t', hresult, hsettled⟩
    obtain ⟨rfl, rfl⟩ := Prod.mk.inj (Option.some.inj hresult)
    rwa [if_neg hrc] at hsettled
  · intro hsettled
    exact ⟨rc, t, rfl, by rwa [if_neg hrc]⟩

theorem saved_of_same {env : Env D} {a : Aergolite D} {body : Body}
    (h : compareModifiedPages env a body = .ok) : ∃ worker state, a.saved = some (worker, state) := by
  unfold compareModifiedPages at h
  split at h
  · cases h
  · rename_i worker state hsaved
    exact ⟨worker, state, hsaved⟩

/-- Where the worker database is not committed and the databases are restored, all depends on
the list. -/
theorem undone_iff {env : PageEnv D} {o : CommitOutcomes} {s : Storage D} {body : PageBody}
    {restored : Worker D × StateDb} (hnot : ¬WorkerCommits env o s body)
    (hrestored : restored = s.committed) :
    restored = s.committed ∧ (o.reload = .ok ∨ s.pageState = []) ↔ CommitsAtOnce env o s body := by
  constructor
  · rintro ⟨-, hreload⟩
    exact ⟨fun hcommits => absurd hcommits hnot, fun _ => hreload⟩
  · intro hatonce
    exact ⟨hrestored, hatonce.reloads fun hboth => hnot hboth.1⟩

/-- **When a commit is atomic**: for every outcome of what it calls. -/
theorem atomic_iff {env : PageEnv D} {s : Storage D} (h : s.Listed) (o : CommitOutcomes)
    {header : Header} {body : PageBody} (hverified : s.Verified env header body)
    (hbody : PageTable body.modPages) (hfits : Fits s.pageState s.pagesHashes body.modPages)
    (votes : List VoteItem) :
    Atomic env o s header body votes ↔ CommitsAtOnce env o s body := by
  -- where the worker database is not committed, the list has to be loaded
  have hundone : ∀ rc : Rc, rc ≠ .ok → ¬WorkerCommits env o s body →
      (Settles env s header body votes (s.failed o rc s.core) ↔ CommitsAtOnce env o s body) :=
    fun rc hrc hnot => (settles_failed h hrc o rfl rfl rfl).trans (undone_iff hnot rfl)
  obtain ⟨array, hset, hholds⟩ := h.holds.setPages hbody hfits
  change Settles env s header body votes _ ↔ _
  unfold Storage.commitBlock
  dsimp only
  have hopened := hverified.opened
  have hheight := hverified.height
  rw [if_neg (by simp [Option.isNone_iff_eq_none, Option.isSome_iff_ne_none.1 hopened, hheight]),
    if_neg (by simp [hverified.header, hverified.body])]
  by_cases hsame : compareModifiedPages env.toEnv s.core (env.body body) ≠ .ok
  · rw [if_pos hsame]
    exact hundone _ (by decide) fun hcommits => hsame hcommits.same
  rw [if_neg hsame]
  by_cases hpages : body.modPages = [] ∨ o.savePages ≠ .ok
  · rw [if_pos hpages]
    exact hundone _ (by decide) fun hcommits =>
      hpages.elim hcommits.pages.1 fun hfails => hfails hcommits.pages.2
  rw [if_neg hpages]
  unfold updatePagesHashList
  rw [hset, Option.bind_some]
  dsimp only
  rw [if_neg (by decide)]
  unfold Storage.storeBlock
  dsimp only
  by_cases hupdated : o.updateHashes ≠ .ok
  · rw [if_pos hupdated]
    exact hundone _ hupdated fun hcommits => hupdated hcommits.updated
  rw [if_neg hupdated]
  by_cases hsaved : o.saveBlock ≠ .ok
  · rw [if_pos hsaved]
    exact hundone _ hsaved fun hcommits => hsaved hcommits.saved
  rw [if_neg hsaved]
  by_cases hstored : (s.core.db.state.blocks.any fun other =>
      other.height == s.core.activeBlock.height) = true
  · rw [if_pos hstored]
    obtain ⟨row, hrow, heq⟩ := List.any_eq_true.1 hstored
    exact hundone _ (by decide) fun hcommits => hcommits.unique row hrow (by simpa using heq)
  rw [if_neg hstored]
  obtain ⟨worker, state, hopen⟩ := saved_of_same (not_not.1 hsame)
  by_cases hcommitted : o.commitWorker ≠ .ok
  · rw [if_pos hcommitted]
    refine Iff.trans (settles_failed h hcommitted o (by rfl) (by rfl) (by rfl)) ?_
    refine undone_iff (fun hcommits => hcommitted hcommits.committed) ?_
    unfold Storage.committed
    rw [hopen]
    rfl
  rw [if_neg hcommitted]
  have hcommits : WorkerCommits env o s body :=
    ⟨not_not.1 hsame, ⟨fun hnil => hpages (Or.inl hnil), not_not.1 fun hfails =>
      hpages (Or.inr hfails)⟩, not_not.1 hupdated, not_not.1 hsaved, fun row hrow heq =>
        hstored (List.any_eq_true.2 ⟨row, hrow, by simpa using heq⟩), not_not.1 hcommitted⟩
  by_cases hstate : o.commitState ≠ .ok
  · -- only the worker database is committed
    rw [if_pos hstate]
    refine Iff.trans (settles_failed h hstate o (by rfl) (by rfl) (by rfl)) ?_
    unfold Storage.committed
    rw [hopen]
    constructor
    · rintro ⟨hboth, hreload⟩
      refine ⟨fun _ _ => ?_, fun _ => hreload⟩
      unfold Storage.committed
      rw [hopen]
      exact congrArg Prod.fst hboth
    · intro hatonce
      have hworker := hatonce.both hcommits hstate
      unfold Storage.committed at hworker
      rw [hopen] at hworker
      exact ⟨Prod.ext hworker rfl, hatonce.reloads fun hboth => hstate hboth.2⟩
  · rw [if_neg hstate]
    refine iff_of_true ⟨_, _, rfl, ?_⟩ ⟨fun _ hfails => absurd hfails hstate, fun hnot =>
      absurd ⟨hcommits, not_not.1 hstate⟩ hnot⟩
    rw [if_pos rfl]
    unfold Storage.openBlock Storage.values
    dsimp only
    rw [hholds.contents]
    split_ifs
    · obtain ⟨-, hdata, hnonces, hblockHeight, hblockId, -⟩ := updated_updateAuthorizations
        (cleanupBlock { s.core with
          db := { s.core.db with state := { s.core.db.state with
            blocks := s.core.db.state.blocks ++ [s.core.row header (env.body body) votes] } }
          blockHeight := s.core.activeBlock.height
          blockId := s.core.activeBlock.id })
      rw [hdata.worker, hdata.state, hblockHeight, hblockId, lastNonces_congr hnonces]
      rfl
    · rfl

/-! ## The commit of the core -/

/-- What a commit does to the pages: nothing, a rollback, or what is right. -/
inductive PagesOutcome (o : CommitOutcomes) (s : Storage D) (body : PageBody) :
    Rc → Storage D → Prop
  | misuse : PagesOutcome o s body .misuse s
  | failed {rc : Rc} {core : Aergolite D} {t : Storage D} (fails : rc ≠ .ok)
      (rolledBack : s.rollback o.reload core = some t) : PagesOutcome o s body rc t
  | committed {t : Storage D} (saved : t.pageState = saveModifiedPages body.modPages s.pageState)
      (updated : updatePagesHashList (body.modPages.map PageRow.page) s.pagesHashes =
        some (.ok, t.pagesHashes)) : PagesOutcome o s body .ok t

theorem commitBlock_pages {env : PageEnv D} {o : CommitOutcomes} {s t : Storage D}
    {header : Header} {body : PageBody} {votes : List VoteItem} {rc : Rc}
    (h : s.commitBlock env o header body votes = some (rc, t)) : PagesOutcome o s body rc t := by
  have hfailed : ∀ {rc' : Rc} {core : Aergolite D}, rc' ≠ .ok →
      s.failed o rc' core = some (rc, t) → PagesOutcome o s body rc t := by
    intro rc' core hrc hresult
    obtain ⟨t', hroll, heq⟩ := Option.map_eq_some_iff.1 hresult
    obtain ⟨rfl, rfl⟩ := Prod.mk.inj heq
    exact .failed hrc hroll
  unfold Storage.commitBlock at h
  dsimp only at h
  split_ifs at h with hopen hverified hsame hpages
  · obtain ⟨rfl, rfl⟩ := Prod.mk.inj (Option.some.inj h)
    exact .misuse
  · obtain ⟨rfl, rfl⟩ := Prod.mk.inj (Option.some.inj h)
    exact .misuse
  · exact hfailed (by decide) h
  · exact hfailed (by decide) h
  obtain ⟨⟨rc', array⟩, hset, hresult⟩ := Option.bind_eq_some_iff.1 h
  dsimp only at hresult
  unfold Storage.storeBlock at hresult
  dsimp only at hresult
  split_ifs at hresult with hrc hupdated hsaved hstored hcommitted hstate
  · exact hfailed hrc hresult
  · exact hfailed hupdated hresult
  · exact hfailed hsaved hresult
  · exact hfailed (by decide) hresult
  · exact hfailed hcommitted hresult
  · exact hfailed hstate hresult
  all_goals
    obtain ⟨rfl, rfl⟩ := Prod.mk.inj (Option.some.inj hresult)
    exact .committed rfl (by rw [hset, not_not.1 hrc])

theorem failed_core {o : CommitOutcomes} {s t : Storage D} {rc rc' : Rc} {core : Aergolite D}
    (h : s.failed o rc core = some (rc', t)) :
    rc' = rc ∧ t.core = aergoliteRollbackBlock core := by
  obtain ⟨t', hroll, heq⟩ := Option.map_eq_some_iff.1 h
  obtain ⟨rfl, rfl⟩ := Prod.mk.inj heq
  obtain ⟨loaded, -, rfl⟩ := Option.map_eq_some_iff.1 hroll
  exact ⟨rfl, rfl⟩

/-- The outcomes of coming commands. -/
def Aergolite.fails (a : Aergolite D) (faults : List Rc) : Aergolite D :=
  { a with db := { a.db with faults := faults ++ a.db.faults } }

/-- The commit of an open block, from its first command on. -/
theorem aergoliteCommitBlock_fails {env : Env D} {a : Aergolite D} {header : Header} {body : Body}
    {votes : List VoteItem} (faults : List Rc)
    (hopen : ¬(a.txnIds.isNone || decide (a.activeBlock.height ≤ 0)) = true)
    (hverified : a.activeBlock.verified = some (header, body))
    (hsame : compareModifiedPages env a body = .ok) :
    aergoliteCommitBlock env (a.fails faults) header body votes =
      (let r := Core.storeBlock (a.row header body votes) (a.fails faults).db
       if r.1 ≠ .ok then (r.1, aergoliteRollbackBlock { a with db := r.2 })
       else
         let saved := a.saved.map fun s => (r.2.worker, s.2)
         if r.2.command.1 ≠ .ok then
           (r.2.command.1, aergoliteRollbackBlock { a with db := r.2.command.2, saved })
         else
           let b := cleanupBlock { a with
             db := r.2.command.2
             blockHeight := a.activeBlock.height
             blockId := a.activeBlock.id }
           (.ok, if b.db.nodesChanged then updateAuthorizations b else b)) := by
  have hsame' : compareModifiedPages env (a.fails faults) body = .ok := hsame
  unfold aergoliteCommitBlock
  rw [if_neg (show ¬((a.fails faults).txnIds.isNone ||
      decide ((a.fails faults).activeBlock.height ≤ 0)) = true from hopen),
    if_neg (not_not.2 (show (a.fails faults).activeBlock.verified = some (header, body) from
      hverified)), if_neg (not_not.2 hsame')]
  rfl

/-- The commands of the core up to the commit of the worker database, by their outcomes. -/
theorem storeBlock_fails (a : Aergolite D) (row : BlockRow) {rc : Rc} (hrc : rc ≠ .ok) :
    Core.storeBlock row (a.fails [rc]).db = (.busy, a.db) ∧
      Core.storeBlock row (a.fails [.ok, rc]).db = (rc, a.db) ∧
      Core.storeBlock row (a.fails [.ok, .ok, rc]).db = (rc, a.db) := by
  refine ⟨if_pos hrc, if_pos hrc, ?_⟩
  simp [Core.storeBlock, saveBlock, Databases.command, Aergolite.fails, hrc]

theorem storeBlock_duplicate {a : Aergolite D} {row : BlockRow}
    (h : (a.db.state.blocks.any fun other => other.height == row.height) = true) :
    Core.storeBlock row (a.fails [.ok, .ok, .ok]).db = (.constraint, a.db) := by
  simp only [Core.storeBlock, saveBlock, Databases.command, Aergolite.fails, List.cons_append,
    List.nil_append, h]
  rfl

theorem storeBlock_unique {a : Aergolite D} {row : BlockRow}
    (h : ¬(a.db.state.blocks.any fun other => other.height == row.height) = true) (rc : Rc)
    (faults : List Rc) :
    Core.storeBlock row (a.fails (.ok :: .ok :: .ok :: rc :: faults)).db =
      (rc, { a.db with
        state := { a.db.state with blocks := a.db.state.blocks ++ [row] }
        faults := faults ++ a.db.faults }) := by
  simp only [Core.storeBlock, saveBlock, Databases.command, Aergolite.fails, List.cons_append, h]
  rfl

/-- **The commit of `Core.Blocks`.**  What is done besides the pages is what
`aergoliteCommitBlock` does where the same commands fail. -/
theorem commitBlock_core {env : PageEnv D} {o : CommitOutcomes} {s t : Storage D}
    {header : Header} {body : PageBody} {votes : List VoteItem} {rc : Rc}
    (h : s.commitBlock env o header body votes = some (rc, t)) :
    t = s ∨ ∃ faults, aergoliteCommitBlock env.toEnv (s.core.fails faults) header (env.body body)
      votes = (rc, t.core) := by
  unfold Storage.commitBlock at h
  dsimp only at h
  split_ifs at h with hopen hverified hsame hpages
  · exact Or.inl (Prod.mk.inj (Option.some.inj h)).2.symm
  · exact Or.inl (Prod.mk.inj (Option.some.inj h)).2.symm
  · -- the pages differ
    obtain ⟨rfl, hcore⟩ := failed_core h
    rw [not_or, not_not] at hverified
    refine Or.inr ⟨[], ?_⟩
    unfold aergoliteCommitBlock
    rw [hcore]
    exact (if_neg hopen).trans ((if_neg (not_not.2 hverified.1)).trans (if_pos hsame))
  all_goals
    refine Or.inr ?_
    rw [not_or, not_not] at hverified
    have hcommit := fun faults => @aergoliteCommitBlock_fails D env.toEnv s.core header
      (env.body body) votes faults hopen hverified.1 (not_not.1 hsame)
    have hstore := @storeBlock_fails D s.core (s.core.row header (env.body body) votes)
  · obtain ⟨rfl, hcore⟩ := failed_core h
    refine ⟨[.error], ?_⟩
    rw [hcommit, (hstore (by decide)).1, hcore]
    rfl
  obtain ⟨⟨rc', array⟩, -, hresult⟩ := Option.bind_eq_some_iff.1 h
  dsimp only at hresult
  unfold Storage.storeBlock at hresult
  dsimp only at hresult
  split_ifs at hresult with hrc hupdated hsaved hstored hcommitted hstate hnodes
  · obtain ⟨rfl, hcore⟩ := failed_core hresult
    refine ⟨[.ok, rc], ?_⟩
    rw [hcommit, (hstore hrc).2.1, hcore]
    exact if_pos hrc
  · obtain ⟨rfl, hcore⟩ := failed_core hresult
    refine ⟨[.ok, o.updateHashes], ?_⟩
    rw [hcommit, (hstore hupdated).2.1, hcore]
    exact if_pos hupdated
  · obtain ⟨rfl, hcore⟩ := failed_core hresult
    refine ⟨[.ok, .ok, o.saveBlock], ?_⟩
    rw [hcommit, (hstore hsaved).2.2, hcore]
    exact if_pos hsaved
  · obtain ⟨rfl, hcore⟩ := failed_core hresult
    refine ⟨[.ok, .ok, .ok], ?_⟩
    rw [hcommit, storeBlock_duplicate hstored, hcore]
    rfl
  · obtain ⟨rfl, hcore⟩ := failed_core hresult
    refine ⟨[.ok, .ok, .ok, o.commitWorker], ?_⟩
    rw [hcommit, storeBlock_unique hstored, hcore]
    exact if_pos hcommitted
  · obtain ⟨rfl, hcore⟩ := failed_core hresult
    refine ⟨[.ok, .ok, .ok, .ok, o.commitState], ?_⟩
    rw [hcommit, storeBlock_unique hstored, hcore]
    exact (if_neg (not_not.2 rfl)).trans (if_pos hstate)
  · obtain ⟨rfl, rfl⟩ := Prod.mk.inj (Option.some.inj hresult)
    refine ⟨[.ok, .ok, .ok, .ok, .ok], ?_⟩
    rw [hcommit, storeBlock_unique hstored]
    exact (if_neg (not_not.2 rfl)).trans ((if_neg (not_not.2 rfl)).trans
      (Prod.ext rfl (if_pos hnodes)))
  · obtain ⟨rfl, rfl⟩ := Prod.mk.inj (Option.some.inj hresult)
    refine ⟨[.ok, .ok, .ok, .ok, .ok], ?_⟩
    rw [hcommit, storeBlock_unique hstored]
    exact (if_neg (not_not.2 rfl)).trans ((if_neg (not_not.2 rfl)).trans
      (Prod.ext rfl (if_neg hnodes)))

/-! ## Every run -/

/-- A call of another function, a query of the list, or a commit. -/
inductive Storage.Action
  | call (call : BlockCall) (verifiedBody : Option PageBody)
  | load
  | commit (o : CommitOutcomes) (header : Header) (body : PageBody) (votes : List VoteItem)

/-- The call is not a commit. -/
def BlockCall.isCommit : BlockCall → Bool
  | .commitBlock _ _ _ => true
  | _ => false

/-- What is done then; a call may verify or make a block with a body. -/
def Storage.step (env : PageEnv D) (s : Storage D) : Action → Option (Storage D)
  | .call call verifiedBody =>
      if call.isCommit then none
      else some { s with core := (call.result env.toEnv s.core).2, verifiedBody }
  | .load => (loadPagesHashList s.pageState).map fun (_, pagesHashes) => { s with pagesHashes }
  | .commit o header body votes => (s.commitBlock env o header body votes).map Prod.snd

/-- A commit of the verified block has its pages in order, they fit, and the commit is atomic. -/
def Storage.Regular (env : PageEnv D) (s : Storage D) : Action → Prop
  | .commit o header body _ => s.Verified env header body →
      PageTable body.modPages ∧ Fits s.pageState s.pagesHashes body.modPages ∧
        CommitsAtOnce env o s body
  | _ => True

/-- A node that has loaded its list. -/
def Storage.system (env : PageEnv D) : System (Storage D) Storage.Action :=
  .ofStep (fun s => PageTable s.pageState ∧
    loadPagesHashList s.pageState = some (.ok, s.pagesHashes)) (Storage.step env)

/-- A block that is not verified is not committed. -/
theorem commitBlock_misuse {env : PageEnv D} {o : CommitOutcomes} {s : Storage D}
    {header : Header} {body : PageBody} {votes : List VoteItem}
    (h : ¬ s.Verified env header body) :
    s.commitBlock env o header body votes = some (.misuse, s) := by
  unfold Storage.commitBlock
  dsimp only
  by_cases hopen : (s.core.txnIds.isNone || decide (s.core.activeBlock.height ≤ 0)) = true
  · rw [if_pos hopen]
  rw [if_neg hopen, if_pos]
  by_contra hboth
  rw [not_or, not_not, not_not] at hboth
  simp only [Bool.or_eq_true, decide_eq_true_eq, not_or, Option.isNone_iff_eq_none,
    not_le] at hopen
  exact h ⟨Option.isSome_iff_ne_none.2 hopen.1, hopen.2, hboth.1, hboth.2⟩

/-- The list in memory holds the hashes of the table, as far as they can be counted. -/
theorem Storage.invariant_listed (env : PageEnv D) :
    ((system env).restrict (Regular env)).Invariant fun s =>
      PageTable s.pageState ∧ (largest s.pageState ≤ 65535 → s.Listed) where
  init s h := by
    refine ⟨h.1, fun hsmall => ⟨h.1, hsmall, ?_⟩⟩
    obtain ⟨array, hload, hgood⟩ := loadPagesHashList_good h.1 hsmall
    obtain rfl : array = s.pagesHashes :=
      congrArg Prod.snd (Option.some.inj (hload.symm.trans h.2))
    exact Or.inl hgood
  step s a t h hs := by
    obtain ⟨hregular, hs⟩ := hs
    have hs : Storage.step env s a = some t := hs
    cases a with
    | call call verifiedBody =>
        dsimp only [Storage.step] at hs
        split_ifs at hs
        obtain rfl := Option.some.inj hs
        exact ⟨h.1, fun hsmall => ⟨h.1, hsmall, (h.2 hsmall).holds⟩⟩
    | load =>
        obtain ⟨⟨rc, array⟩, hload, rfl⟩ := Option.map_eq_some_iff.1 hs
        refine ⟨h.1, fun hsmall => ⟨h.1, hsmall, ?_⟩⟩
        obtain ⟨array', hload', hgood⟩ := loadPagesHashList_good h.1 hsmall
        obtain rfl : array' = array :=
          congrArg Prod.snd (Option.some.inj (hload'.symm.trans hload))
        exact Or.inl hgood
    | commit o header body votes =>
        obtain ⟨⟨rc, t'⟩, hcommit, rfl⟩ := Option.map_eq_some_iff.1 hs
        by_cases hverified : s.Verified env header body
        · obtain ⟨hbody, hfits, hatonce⟩ := hregular hverified
          have hlargest := largest_saveModifiedPages body.modPages s.pageState
          have hsmall := hfits.small
          have hlisted := h.2 (by omega)
          obtain ⟨rc', t, hresult, hvalues⟩ := (atomic_iff hlisted o hverified hbody hfits votes).2
            hatonce
          obtain ⟨rfl, rfl⟩ := Prod.mk.inj (Option.some.inj (hcommit.symm.trans hresult))
          cases commitBlock_pages hcommit with
          | misuse => exact h
          | failed hrc hroll =>
              rw [if_neg hrc] at hvalues
              have ht := hlisted.rollback hroll (congrArg Values.pagesHashes hvalues)
              exact ⟨ht.table, fun _ => ht⟩
          | committed hsaved hupdated =>
              obtain ⟨array, hset, hholds⟩ := hlisted.holds.setPages hbody hfits
              obtain rfl : array = _ :=
                congrArg Prod.snd (Option.some.inj (hset.symm.trans hupdated))
              have ht : (_ : Storage D).Listed :=
                ⟨hsaved ▸ hbody.saveModifiedPages h.1, hsaved ▸ hsmall, hsaved ▸ hholds⟩
              exact ⟨ht.table, fun _ => ht⟩
        · rw [commitBlock_misuse hverified] at hcommit
          obtain ⟨-, rfl⟩ := Prod.mk.inj (Option.some.inj hcommit)
          exact h

/-- The environment of `Core.Blocks`, in which no pages are compared. -/
def plainPageEnv : PageEnv Unit := { plainEnv with encodePages := fun _ => [] }

/-- A node that has loaded an empty list. -/
def startStorage : Storage Unit := ⟨startRecorded.core, none, [], newArray zeroHash 16 32⟩

/-- The block with the next transaction of the node modifies page 1. -/
def nextBody : PageBody := ⟨[buildTransactionId 1 6], [⟨1, 2, zeroHash⟩]⟩

/-- The header of that block. -/
def nextHeader : Header := ⟨2, [], [], [], 1, [], plainSign (List.replicate 33 1) []⟩

/-- A call that neither commits nor loads. -/
def Storage.Action.isCall : Storage.Action → Bool
  | .call _ _ => true
  | _ => false

/-- The node after the calls that make the block. -/
def openStorage : Option (Storage Unit) :=
  System.run (System.checked (fun _ a => a.isCall) (Storage.step plainPageEnv)) startStorage
    [.call .beginBlock none,
      .call (.executeTransaction 1 6 [.int64 6, .string "CALL a()".toList]) none,
      .call (.createBlock 0) (some nextBody)]

/-- The node is in a regular run, and has verified the block. -/
theorem openStorage_verified {s : Storage Unit} (h : openStorage = some s) :
    ((Storage.system plainPageEnv).restrict (Storage.Regular plainPageEnv)).Reachable s ∧
      s.Verified plainPageEnv nextHeader nextBody ∧ PageTable nextBody.modPages ∧
      Fits s.pageState s.pagesHashes nextBody.modPages := by
  refine ⟨System.reachable_restrict_of_run (fun {s a} hcall => ?_)
    ⟨⟨List.Pairwise.nil, by decide, by decide⟩, rfl⟩ h, ?_⟩
  · cases a with
    | call call verifiedBody => trivial
    | load => trivial
    | commit o header body votes => cases hcall
  · obtain rfl := Option.some.inj h
    refine ⟨⟨by decide +kernel, by decide +kernel, by decide +kernel, rfl⟩,
      ⟨by decide, by decide, by decide⟩, ⟨by decide +kernel, fun q _ hlt => ?_, fun _ hdouble => ?_⟩⟩
    · exact absurd hlt (Nat.not_lt_zero q)
    · exact absurd hdouble (by decide +kernel)

/-- A commit in which nothing fails but the one of the state database. -/
def commitStateFails (rc : Rc) : CommitOutcomes := ⟨.ok, .ok, .ok, .ok, rc, .ok⟩

end Core
end AergoLite
