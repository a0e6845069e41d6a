/-
# The download of the history

A full node that has finished a state update downloads the blocks before it
(`request_missing_blocks`, `no-leader/requests.c`), one request after the other: each block that
arrives is followed by the search for the next one.

The answers of the peers are not read, so a node ends with what it had.  If they were, the node
would still miss blocks (`downloads_iff`).  The search goes through ranges of 513 heights, but its
statement is not reset between them, so only the first range is searched, and again for each of
the others (`missingBlock_eq`); it takes the lowest height of the range and goes on below it; and
a block that is stored without its body is refused when it is downloaded.
-/

import AergoLite.NoLeader.BlockRequests
import Mathlib.Data.Int.Interval

namespace AergoLite
namespace NoLeader

open AergoLite.Core

/-! ## The search -/

/-- The first missing height of a sequence. -/
theorem firstMissing_eq_some {t : BlocksTable} {start stop x : ℤ}
    (h : firstMissing t start stop = some x) :
    t.has x = false ∧ start ≤ x ∧ x ≤ max start stop ∧
      ∀ y, start ≤ y → y < x → t.has y = true := by
  unfold firstMissing at h
  rw [List.find?_map, Option.map_eq_some_iff] at h
  obtain ⟨i, hi, rfl⟩ := h
  rw [List.find?_range_eq_some] at hi
  obtain ⟨hmissing, hrange, hbefore⟩ := hi
  rw [List.mem_range] at hrange
  refine ⟨by simpa using hmissing, by omega, by omega, fun y hstart hy => ?_⟩
  obtain ⟨j, rfl⟩ : ∃ j : ℕ, y = start + j := ⟨(y - start).toNat, by omega⟩
  simpa using hbefore j (by omega)

/-- No height of the sequence is missing. -/
theorem firstMissing_eq_none {t : BlocksTable} {start stop : ℤ}
    (h : firstMissing t start stop = none) {y : ℤ} (hstart : start ≤ y) (hstop : y ≤ stop) :
    t.has y = true := by
  unfold firstMissing at h
  rw [List.find?_eq_none] at h
  have hy := h y (List.mem_map.2 ⟨(y - start).toNat, List.mem_range.2 (by omega), by omega⟩)
  simpa using hy

/-- The values of a statement that has come to its end stay. -/
theorem searchRanges_halted {t : BlocksTable} {q : PreparedQuery} (hhalted : q.halted = true)
    (hnone : firstMissing t q.start q.stop = none) (fuel : ℕ) (stop : ℤ) :
    searchRanges t fuel stop q = none := by
  induction fuel generalizing stop with
  | zero => rfl
  | succ fuel ih =>
      have hbind : ∀ start stop, q.bind start stop = q := fun _ _ => if_pos hhalted
      have hsame : { q with halted := true } = q := by rw [← hhalted]
      unfold searchRanges
      split_ifs
      · rfl
      · simp only [hbind, hnone, hsame]
        exact ih _

/-- **Only the first range is searched.** -/
theorem searchRanges_eq (t : BlocksTable) {fuel : ℕ} (hfuel : 0 < fuel) {stop : ℤ}
    (hstop : 0 < stop) (q : PreparedQuery) (hq : q.halted = false) :
    searchRanges t fuel stop q = firstMissing t (max (stop - 512) 1) stop := by
  obtain ⟨fuel, rfl⟩ : ∃ k, fuel = k + 1 := ⟨fuel - 1, by omega⟩
  have hbind : ∀ start stop, q.bind start stop = { q with start, stop } := fun _ _ =>
    if_neg (by rw [hq]; exact Bool.false_ne_true)
  unfold searchRanges
  rw [if_neg (by omega)]
  simp only [hbind]
  cases hfirst : firstMissing t (max (stop - 512) 1) stop with
  | some height => rfl
  | none => exact searchRanges_halted rfl hfirst _ _

/-- The rows of a node: their heights are between 1 and the last one, which is stored. -/
structure StoredUpTo (t : BlocksTable) (last : ℤ) : Prop where
  bounds : ∀ row ∈ t.rows, 1 ≤ row.height ∧ row.height ≤ last
  top : t.has last = true

/-- Where the count of the rows is the last height, no block is missing. -/
theorem has_of_hasAllBlocks {t : BlocksTable} {last : ℤ} (ht : StoredUpTo t last)
    (hall : hasAllBlocks t = true) {h : ℤ} (hlo : 1 ≤ h) (hhi : h ≤ last) : t.has h = true := by
  have hheights : ∀ x ∈ t.rows.map StoredBlock.height, 1 ≤ x ∧ x ≤ last := by
    intro x hx
    obtain ⟨row, hrow, rfl⟩ := List.mem_map.1 hx
    exact ht.bounds row hrow
  obtain ⟨top, htop, hheight⟩ := BlocksTable.has_iff.1 ht.top
  have hmax := List.max?_eq_some_iff.1 (beq_iff_eq.1 hall)
  have hlength : (t.rows.length : ℤ) = last :=
    le_antisymm (hheights _ hmax.1).2 (hmax.2 last (List.mem_map.2 ⟨top, htop, hheight⟩))
  have hsub : (t.rows.map StoredBlock.height).toFinset ⊆ Finset.Icc 1 last := by
    intro x hx
    exact Finset.mem_Icc.2 (hheights x (List.mem_toFinset.1 hx))
  have heq : (t.rows.map StoredBlock.height).toFinset = Finset.Icc 1 last := by
    refine Finset.eq_of_subset_of_card_le hsub ?_
    rw [List.toFinset_card_of_nodup t.nodup, List.length_map, Int.card_Icc]
    omega
  have hmem : h ∈ (t.rows.map StoredBlock.height).toFinset := by
    rw [heq]
    exact Finset.mem_Icc.2 ⟨hlo, hhi⟩
  obtain ⟨row, hrow, hrowheight⟩ := List.mem_map.1 (List.mem_toFinset.1 hmem)
  exact BlocksTable.has_iff.2 ⟨row, hrow, hrowheight⟩

/-- **What the search finds**: the lowest missing height of the 513 below the last block that was
retrieved. -/
theorem missingBlock_eq {t : BlocksTable} {last top : ℤ} (ht : StoredUpTo t top) (hlo : 1 < last)
    (hhi : last ≤ top) :
    missingBlock t last = firstMissing t (max (last - 513) 1) (last - 1) := by
  unfold missingBlock
  have hsearch : searchRanges t last.toNat (last - 1) ⟨0, 0, false⟩ =
      firstMissing t (max (last - 513) 1) (last - 1) := by
    rw [searchRanges_eq t (by omega) (by omega) _ rfl]
    congr 2
    omega
  split_ifs with hall
  · cases hfirst : firstMissing t (max (last - 513) 1) (last - 1) with
    | none => rfl
    | some x =>
        obtain ⟨hmissing, hstart, hstop, -⟩ := firstMissing_eq_some hfirst
        rw [has_of_hasAllBlocks ht hall (by omega) (by omega)] at hmissing
        cases hmissing
  · exact hsearch

/-- Below the first block there is nothing to search. -/
theorem missingBlock_one (t : BlocksTable) {last : ℤ} (hlast : last ≤ 1) :
    missingBlock t last = none := by
  unfold missingBlock
  split_ifs
  · rfl
  · cases last.toNat with
    | zero => rfl
    | succ fuel =>
        unfold searchRanges
        rw [if_pos (by omega)]

/-- What the search finds is missing, and below the last block that was retrieved. -/
theorem missingBlock_some {t : BlocksTable} {last x : ℤ} (h : missingBlock t last = some x) :
    t.has x = false ∧ x < last := by
  by_cases hlast : last ≤ 1
  · rw [missingBlock_one t hlast] at h
    cases h
  · unfold missingBlock at h
    split_ifs at h
    rw [searchRanges_eq t (by omega) (by omega) _ rfl] at h
    obtain ⟨hmissing, -, hstop, -⟩ := firstMissing_eq_some h
    exact ⟨hmissing, by omega⟩

/-! ## What a step does -/

section
variable {M : Type} {maps : BinnMaps M} {b : BodyReader} {c : Crypto} {roster : Roster}

/-- A request is for a block that is in none of the running ones, while a peer is connected. -/
theorem requestBlock_cases (n : HistoryNode) (height : ℤ) :
    n.requestBlock height = n ∨
      n.requestBlock height = n.setRequests (n.requests ++ [blockRequest height]) := by
  unfold HistoryNode.requestBlock
  split_ifs
  · exact .inl rfl
  · exact .inl rfl
  · exact .inr rfl

/-- The block without a body that is asked for is stored. -/
theorem requestBlockWithoutBody_cases (n : HistoryNode) (lastRetrieved : ℤ) :
    n.requestBlockWithoutBody lastRetrieved = n ∨
      ∃ height, n.table.has height = true ∧
        n.requestBlockWithoutBody lastRetrieved = n.requestBlock height := by
  unfold HistoryNode.requestBlockWithoutBody
  dsimp only
  split
  · rename_i height hmax
    obtain ⟨row, hrow, hheight⟩ := List.mem_map.1 (List.max?_eq_some_iff.1 hmax).1
    exact .inr ⟨height, BlocksTable.has_iff.2 ⟨row, List.mem_of_mem_filter hrow, hheight⟩, rfl⟩
  · exact .inl rfl

variable (b c roster) in
/-- **What the search does.**  It sets the flag of the download, and asks for a stored block, for
the missing block it finds, or for none. -/
theorem searchMissingBlocks_cases (n : HistoryNode) (lastBlock lastRetrieved : ℤ) :
    ∃ downloading, n.searchMissingBlocks b c roster lastBlock lastRetrieved =
        n.setDownloading downloading ∨
      ∃ height, (n.table.has height = true ∨ missingBlock n.table lastRetrieved = some height) ∧
        n.searchMissingBlocks b c roster lastBlock lastRetrieved =
          (n.setDownloading downloading).requestBlock height := by
  have hsame : n.setDownloading n.downloadingBlockBodies = n := rfl
  unfold HistoryNode.searchMissingBlocks
  by_cases hdownloading : n.downloadingBlockBodies = true
  · rw [if_pos hdownloading]
    refine ⟨n.downloadingBlockBodies, ?_⟩
    rw [hsame]
    rcases requestBlockWithoutBody_cases n lastRetrieved with h | ⟨height, hhas, h⟩
    · exact .inl h
    · exact .inr ⟨height, .inl hhas, h⟩
  · rw [if_neg hdownloading]
    cases hmissing : missingBlock n.table lastRetrieved with
    | some height =>
        refine ⟨n.downloadingBlockBodies, .inr ⟨height, .inr rfl, ?_⟩⟩
        rw [hsame]
    | none =>
        dsimp only
        split_ifs
        · refine ⟨true, ?_⟩
          rcases requestBlockWithoutBody_cases (n.setDownloading true) (lastBlock + 1) with
            h | ⟨height, hhas, h⟩
          · exact .inl h
          · exact .inr ⟨height, .inl hhas, h⟩
        · exact ⟨n.downloadingBlockBodies, .inl hsame.symm⟩

variable (b c roster) in
/-- After a block has arrived, the next one that is asked for is stored or below it. -/
theorem requestMissingBlocks_cases (n : HistoryNode) {last : ℤ} (hlast : last ≠ 0) :
    ∃ downloading, n.requestMissingBlocks b c roster last = n.setDownloading downloading ∨
      ∃ height, (n.table.has height = true ∨ height < last) ∧
        n.requestMissingBlocks b c roster last =
          (n.setDownloading downloading).requestBlock height := by
  unfold HistoryNode.requestMissingBlocks
  cases n.currentHeight with
  | none => exact ⟨n.downloadingBlockBodies, .inl rfl⟩
  | some lastBlock =>
      dsimp only
      rw [if_neg hlast]
      obtain ⟨downloading, h | ⟨height, hheight, h⟩⟩ :=
        searchMissingBlocks_cases b c roster n lastBlock last
      · exact ⟨downloading, .inl h⟩
      · exact ⟨downloading, .inr ⟨height, hheight.imp_right fun h => (missingBlock_some h).2, h⟩⟩

/-- The requests for the transactions of a block. -/
def txnRequests (height : ℤ) : List (BitVec 64) → ℕ → List Request
  | [], _ => []
  | tid :: tids, seq => ⟨0, unflagged tid, height, seq + 1⟩ :: txnRequests height tids (seq + 1)

theorem blockHeight_of_txnRequests {height : ℤ} {tids : List (BitVec 64)} {seq : ℕ}
    {request : Request} (h : request ∈ txnRequests height tids seq) : request.blockHeight = 0 := by
  induction tids generalizing seq with
  | nil => exact absurd h List.not_mem_nil
  | cons tid tids ih =>
      rcases List.mem_cons.1 h with rfl | h
      · rfl
      · exact ih h

theorem map_txnRequests (height : ℤ) (tids : List (BitVec 64)) (seq : ℕ) :
    (txnRequests height tids seq).map Request.transactionId = tids.map unflagged := by
  induction tids generalizing seq with
  | nil => rfl
  | cons tid tids ih => rw [txnRequests, List.map_cons, List.map_cons, ih]

/-- The transactions of a block are requested, if a peer is connected. -/
theorem requestTransactions_eq {height : ℤ} {tids : List (BitVec 64)} {seq : ℕ}
    {n m : HistoryNode} (h : HistoryNode.requestTransactions height tids seq n = some m) :
    m = n.setRequests (n.requests ++ if n.connected then txnRequests height tids seq else []) := by
  induction tids generalizing seq n with
  | nil =>
      obtain rfl := Option.some.inj h
      simp [txnRequests, HistoryNode.setRequests]
  | cons tid tids ih =>
      obtain ⟨next, hnext, hrest⟩ := Option.bind_eq_some_iff.1 h
      unfold HistoryNode.requestTransaction at hnext
      split_ifs at hnext with hrunning hconnected
      · obtain rfl := Option.some.inj hnext
        rw [ih hrest]
        have hfalse : n.connected = false := by simpa using hconnected
        simp [hfalse]
      · obtain rfl := Option.some.inj hnext
        rw [ih hrest]
        have htrue : n.connected = true := by simpa using hconnected
        simp [htrue, txnRequests, HistoryNode.setRequests]

/-- Where a peer is connected, the transactions can be requested unless one of them is already. -/
theorem requestTransactions_isSome {height : ℤ} {tids : List (BitVec 64)} {seq : ℕ}
    {n : HistoryNode} (hconnected : n.connected = true) :
    (HistoryNode.requestTransactions height tids seq n).isSome = true ↔
      (tids.map unflagged).Nodup ∧
        ∀ id ∈ tids.map unflagged, id ∉ n.requests.map Request.transactionId := by
  induction tids generalizing seq n with
  | nil => simp [HistoryNode.requestTransactions]
  | cons tid tids ih =>
      have hrunning : (n.requests.any fun request =>
          request.transactionId == unflagged tid) = true ↔
          unflagged tid ∈ n.requests.map Request.transactionId := by
        simp [List.mem_map]
      unfold HistoryNode.requestTransactions HistoryNode.requestTransaction
      rw [List.map_cons, List.nodup_cons, List.forall_mem_cons]
      by_cases hrun : (n.requests.any fun request =>
          request.transactionId == unflagged tid) = true
      · rw [if_pos hrun]
        exact ⟨nofun, fun h => absurd (hrunning.1 hrun) h.2.1⟩
      · have hnext := @ih (seq + 1) (n.setRequests
          (n.requests ++ [⟨0, unflagged tid, height, seq + 1⟩])) hconnected
        rw [if_neg hrun, if_neg (by simp [hconnected]), Option.bind_some, hnext]
        rw [hrunning] at hrun
        simp only [setRequests_requests, List.map_append, List.map_singleton, List.mem_append,
          List.mem_singleton, not_or]
        constructor
        · rintro ⟨hnodup, hfresh⟩
          exact ⟨⟨fun hmem => (hfresh _ hmem).2 rfl, hnodup⟩, hrun, fun id hid => (hfresh id hid).1⟩
        · rintro ⟨⟨hnew, hnodup⟩, -, hfresh⟩
          exact ⟨hnodup, fun id hid => ⟨hfresh id hid, fun heq => hnew (heq ▸ hid)⟩⟩

/-- **What an answer does**, if it is not ignored: the block that it carries is saved, its
transactions are requested, and the next block. -/
theorem onRequestedBlock_cases {n n' : HistoryNode} {msg : M}
    (h : n.onRequestedBlock maps b c roster msg = some n') :
    n' = n ∨ ∃ height header body votes table requests,
      readRequestedBlock maps msg = some (height, header, body, votes) ∧
        n.table.aergoliteSaveBlock b c roster n.inTransaction header body votes = pure table ∧
        (∀ request ∈ requests, request ∈ n.requests ∨ request.blockHeight = 0) ∧
        n' = ((n.setTable table).setRequests requests).requestMissingBlocks b c roster height := by
  unfold HistoryNode.onRequestedBlock at h
  split at h
  · exact .inl (Option.some.inj h).symm
  · rename_i height header body votes hread
    split_ifs at h with hrunning
    · exact .inl (Option.some.inj h).symm
    · split at h
      · cases h
      · exact .inl (Option.some.inj h).symm
      · rename_i table hsave
        obtain ⟨m, hm, hlast⟩ := Option.map_eq_some_iff.1 h
        obtain rfl := requestTransactions_eq hm
        refine .inr ⟨height, header, body, votes, table, _, hread, hsave, ?_, hlast.symm⟩
        intro request hrequest
        rcases List.mem_append.1 (List.mem_of_mem_eraseP hrequest) with hmem | hmem
        · exact .inl hmem
        · split_ifs at hmem
          · exact .inr (blockHeight_of_txnRequests hmem)
          · exact absurd hmem List.not_mem_nil

end

/-! ## The download -/

section
variable {M : Type} (maps : BinnMaps M) (b : BodyReader) (c : Crypto) (roster : Roster)
  (peer : ℤ → M)

/-- The answer to the first request for a block arrives. -/
def HistoryNode.answerRequest (n : HistoryNode) : Option HistoryNode :=
  match n.requests.find? fun request => decide (0 < request.blockHeight) with
  | none => some n
  | some request => n.onRequestedBlock maps b c roster (peer request.blockHeight)

/-- A number of answers arrive, one after the other. -/
def HistoryNode.answers : ℕ → HistoryNode → Option HistoryNode
  | 0, n => some n
  | k + 1, n => (n.answerRequest maps b c roster peer).bind (HistoryNode.answers k)

/-- Every block up to the last one is stored with its body. -/
def HistoryNode.Complete (n : HistoryNode) : Prop :=
  ∀ last ∈ n.currentHeight, ∀ height, 1 ≤ height → height ≤ last →
    ∃ row ∈ n.table.rows, row.height = height ∧ row.body.isSome = true

/-- The node has a complete history once enough answers have arrived. -/
def HistoryNode.Completes (n : HistoryNode) : Prop :=
  ∃ k final, n.answers maps b c roster peer k = some final ∧ final.Complete

/-- The download that `request_missing_blocks(0)` starts ends with a complete history. -/
def HistoryNode.Downloads (n : HistoryNode) : Prop :=
  (n.requestMissingBlocks b c roster 0).Completes maps b c roster peer

end

section
variable {M : Type} {maps : BinnMaps M} {b : BodyReader} {c : Crypto} {roster : Roster}
  {peer : ℤ → M} {n : HistoryNode}

/-- Where an answer changes nothing, nothing more arrives. -/
theorem completes_of_fixed (h : n.answerRequest maps b c roster peer = some n) :
    n.Completes maps b c roster peer ↔ n.Complete := by
  have hfixed : ∀ k, n.answers maps b c roster peer k = some n := by
    intro k
    induction k with
    | zero => rfl
    | succ k ih =>
        unfold HistoryNode.answers
        rw [h]
        exact ih
  constructor
  · rintro ⟨k, final, hrun, hcomplete⟩
    rw [hfixed k] at hrun
    cases hrun
    exact hcomplete
  · exact fun hcomplete => ⟨0, n, rfl, hcomplete⟩

/-- Where the history is not complete, an answer has to arrive. -/
theorem completes_iff_next {next : HistoryNode}
    (h : n.answerRequest maps b c roster peer = some next) (hn : ¬n.Complete) :
    n.Completes maps b c roster peer ↔ next.Completes maps b c roster peer := by
  constructor
  · rintro ⟨k, final, hrun, hcomplete⟩
    cases k with
    | zero =>
        cases hrun
        exact absurd hcomplete hn
    | succ k =>
        unfold HistoryNode.answers at hrun
        rw [h] at hrun
        exact ⟨k, final, hrun, hcomplete⟩
  · rintro ⟨k, final, hrun, hcomplete⟩
    refine ⟨k + 1, final, ?_, hcomplete⟩
    unfold HistoryNode.answers
    rw [h]
    exact hrun

/-- An undefined step is the end of the download. -/
theorem not_completes_of_none (h : n.answerRequest maps b c roster peer = none)
    (hn : ¬n.Complete) : ¬n.Completes maps b c roster peer := by
  rintro ⟨k, final, hrun, hcomplete⟩
  cases k with
  | zero =>
      cases hrun
      exact hn hcomplete
  | succ k =>
      unfold HistoryNode.answers at hrun
      rw [h] at hrun
      cases hrun

@[simp] theorem requestBlock_table (n : HistoryNode) (height : ℤ) :
    (n.requestBlock height).table = n.table := by
  rcases requestBlock_cases n height with h | h
  · rw [h]
  · rw [h, setRequests_table]

@[simp] theorem requestBlock_currentHeight (n : HistoryNode) (height : ℤ) :
    (n.requestBlock height).currentHeight = n.currentHeight := by
  rcases requestBlock_cases n height with h | h
  · rw [h]
  · rw [h, setRequests_currentHeight]

variable (b c roster) in
/-- The search leaves the table. -/
theorem searchMissingBlocks_frame (n : HistoryNode) (lastBlock last : ℤ) :
    (n.searchMissingBlocks b c roster lastBlock last).table = n.table ∧
      (n.searchMissingBlocks b c roster lastBlock last).currentHeight = n.currentHeight := by
  obtain ⟨downloading, h | ⟨height, -, h⟩⟩ :=
    searchMissingBlocks_cases b c roster n lastBlock last
  · rw [h]
    exact ⟨rfl, rfl⟩
  · rw [h, requestBlock_table, requestBlock_currentHeight]
    exact ⟨rfl, rfl⟩

variable (b c roster) in
theorem requestMissingBlocks_frame (n : HistoryNode) (last : ℤ) :
    (n.requestMissingBlocks b c roster last).table = n.table ∧
      (n.requestMissingBlocks b c roster last).currentHeight = n.currentHeight := by
  unfold HistoryNode.requestMissingBlocks
  split
  · exact ⟨rfl, rfl⟩
  · split_ifs
    · exact searchMissingBlocks_frame _ _ _ _ _ _
    · exact searchMissingBlocks_frame _ _ _ _ _ _

/-- Whether the history is complete depends on the table and on the last block. -/
theorem complete_congr {n n' : HistoryNode} (htable : n'.table = n.table)
    (hcurrent : n'.currentHeight = n.currentHeight) : n'.Complete ↔ n.Complete := by
  unfold HistoryNode.Complete
  rw [htable, hcurrent]

/-- Answers that are not read change nothing. -/
theorem downloads_of_ignored
    (hignored : ∀ (n : HistoryNode) height, 0 < height →
      n.onRequestedBlock maps b c roster (peer height) = some n) :
    n.Downloads maps b c roster peer ↔ n.Complete := by
  have hfixed : ∀ n : HistoryNode, n.answerRequest maps b c roster peer = some n := by
    intro n
    unfold HistoryNode.answerRequest
    split
    · rfl
    · rename_i request hfind
      exact hignored n _ (by simpa using List.find?_some hfind)
  have hframe := requestMissingBlocks_frame b c roster n 0
  exact (completes_of_fixed (hfixed _)).trans (complete_congr hframe.1 hframe.2)

/-! ### Answers that are read -/

/-- The blocks up to a height, as peers hold them: each has its body, and the node verifies it. -/
structure PeerBlocks (b : BodyReader) (c : Crypto) (roster : Roster) (last : ℤ) where
  header : ℤ → Bytes
  body : ℤ → Bytes
  votes : ℤ → Bytes
  valid : ∀ height, 1 ≤ height → height ≤ last → ∃ read,
    b.verifySaved c roster (header height) (body height) (votes height) = pure read ∧
      read.height = height

/-- The ids of the transactions of a block, without the flag of those that failed. -/
def PeerBlocks.ids {last : ℤ} (blocks : PeerBlocks b c roster last) (height : ℤ) :
    List (BitVec 64) :=
  (b.txnIds (blocks.body height)).map unflagged

/-- The answers carry the blocks, with the header where it is read. -/
def Answers (maps : BinnMaps M) {last : ℤ} (blocks : PeerBlocks b c roster last)
    (peer : ℤ → M) : Prop :=
  ∀ height, 1 ≤ height → height ≤ last → Carries maps pluginState (peer height) height
    (blocks.header height) (blocks.body height) (blocks.votes height)

variable {top : ℤ} {blocks : PeerBlocks b c roster top}

theorem readRequestedBlock_of_answers (hpeer : Answers maps blocks peer) {height : ℤ}
    (hlo : 1 ≤ height) (hhi : height ≤ top) :
    readRequestedBlock maps (peer height) =
      some (height, blocks.header height, blocks.body height, blocks.votes height) := by
  have hcarries := hpeer height hlo hhi
  unfold readRequestedBlock
  rw [hcarries.header, hcarries.body, hcarries.votes, hcarries.height]
  exact if_neg (by omega)

/-- What is saved of the block that peers hold. -/
theorem save_of_blocks {t t' : BlocksTable} {inTransaction : Bool} {height : ℤ} (hlo : 1 ≤ height)
    (hhi : height ≤ top) :
    t.aergoliteSaveBlock b c roster inTransaction (blocks.header height) (blocks.body height)
        (blocks.votes height) = pure t' ↔
      inTransaction = false ∧ t.has height = false ∧
        t'.rows = t.rows ++ [⟨height, blocks.header height, some (blocks.body height),
          blocks.votes height⟩] := by
  obtain ⟨read, hread, hheight⟩ := blocks.valid height hlo hhi
  rw [aergoliteSaveBlock_eq_pure]
  constructor
  · rintro ⟨hfree, other, hother, hhas, hrows⟩
    obtain rfl : read = other := pure_eq_pure.1 (hread.symm.trans hother)
    rw [hheight] at hhas hrows
    exact ⟨hfree, hhas, hrows⟩
  · rintro ⟨hfree, hhas, hrows⟩
    refine ⟨hfree, read, hread, ?_, ?_⟩
    · rw [hheight]
      exact hhas
    · rw [hheight]
      exact hrows

/-- A block that is not saved is refused, with an error. -/
theorem refused_of_blocks {t : BlocksTable} {inTransaction : Bool} {height : ℤ}
    (hlo : 1 ≤ height) (hhi : height ≤ top)
    (hrefused : inTransaction = true ∨ t.has height = true) :
    ∃ rc, t.aergoliteSaveBlock b c roster inTransaction (blocks.header height)
      (blocks.body height) (blocks.votes height) = throw rc := by
  obtain ⟨read, hread, hheight⟩ := blocks.valid height hlo hhi
  unfold BlocksTable.aergoliteSaveBlock
  cases inTransaction with
  | true => exact ⟨.busy, rfl⟩
  | false =>
      refine ⟨.constraint, ?_⟩
      have hhas : t.has height = true := by simpa using hrefused
      have hmem : read.height ∈ t.rows.map StoredBlock.height := by
        rw [hheight]
        exact List.mem_map.2 (BlocksTable.has_iff.1 hhas)
      rw [hread]
      exact dif_pos hmem

/-- Only blocks that would be refused are requested. -/
def HistoryNode.Stuck (n : HistoryNode) (top : ℤ) : Prop :=
  ∀ request ∈ n.requests, 0 < request.blockHeight →
    request.blockHeight ≤ top ∧ (n.inTransaction = true ∨ n.table.has request.blockHeight = true)

/-- Nothing more is saved then. -/
theorem HistoryNode.Stuck.answer (hpeer : Answers maps blocks peer) (hn : n.Stuck top) :
    n.answerRequest maps b c roster peer = some n := by
  unfold HistoryNode.answerRequest
  cases hfind : n.requests.find? fun request => decide (0 < request.blockHeight) with
  | none => rfl
  | some request =>
      have hpos : 0 < request.blockHeight := by simpa using List.find?_some hfind
      obtain ⟨htop, hrefused⟩ := hn request (List.mem_of_find?_eq_some hfind) hpos
      obtain ⟨rc, hsave⟩ : ∃ rc, n.table.aergoliteSaveBlock b c roster n.inTransaction
          (blocks.header request.blockHeight) (blocks.body request.blockHeight)
          (blocks.votes request.blockHeight) = throw rc :=
        refused_of_blocks (by omega) htop hrefused
      unfold HistoryNode.onRequestedBlock
      simp only [readRequestedBlock_of_answers hpeer (by omega) htop, hsave]
      split_ifs
      · rfl
      · rfl

/-- A height that is missing, while only lower or stored blocks are requested. -/
structure HistoryNode.Skips (n : HistoryNode) (top y : ℤ) : Prop where
  current : n.currentHeight = some top
  stored : StoredUpTo n.table top
  missing : n.table.has y = false
  requests : ∀ request ∈ n.requests,
    request.blockHeight < y ∨ n.table.has request.blockHeight = true

theorem has_append {t t' : BlocksTable} {row : StoredBlock} (hrows : t'.rows = t.rows ++ [row])
    (height : ℤ) : t'.has height = (t.has height || row.height == height) := by
  unfold BlocksTable.has
  rw [hrows, List.any_append]
  simp

theorem StoredUpTo.append {t t' : BlocksTable} {row : StoredBlock} (ht : StoredUpTo t top)
    (hrows : t'.rows = t.rows ++ [row]) (hlo : 1 ≤ row.height) (hhi : row.height ≤ top) :
    StoredUpTo t' top := by
  constructor
  · intro other hother
    rw [hrows, List.mem_append, List.mem_singleton] at hother
    rcases hother with hother | rfl
    · exact ht.bounds other hother
    · exact ⟨hlo, hhi⟩
  · rw [has_append hrows, ht.top]
    rfl

theorem StoredUpTo.le_of_has {t : BlocksTable} (ht : StoredUpTo t top) {height : ℤ}
    (h : t.has height = true) : height ≤ top := by
  obtain ⟨row, hrow, rfl⟩ := BlocksTable.has_iff.1 h
  exact (ht.bounds row hrow).2

/-- The requests after a step of the download. -/
theorem requests_after (n : HistoryNode) {height : ℤ} (hheight : height ≠ 0) {request : Request}
    (h : request ∈ (n.requestMissingBlocks b c roster height).requests) :
    request ∈ n.requests ∨ n.table.has request.blockHeight = true ∨
      request.blockHeight < height := by
  obtain ⟨downloading, hsearch | ⟨next, hnext, hsearch⟩⟩ :=
    requestMissingBlocks_cases b c roster n hheight
  · rw [hsearch] at h
    exact .inl h
  · rw [hsearch] at h
    rcases requestBlock_cases (n.setDownloading downloading) next with hcase | hcase
    · rw [hcase] at h
      exact .inl h
    · rw [hcase] at h
      rcases List.mem_append.1 h with h | h
      · exact .inl h
      · rw [List.mem_singleton.1 h]
        exact .inr hnext

/-- **A height that is passed stays missing.** -/
theorem HistoryNode.Skips.answer (hpeer : Answers maps blocks peer) {y : ℤ} (hytop : y ≤ top)
    {n' : HistoryNode} (hs : n.Skips top y)
    (h : n.answerRequest maps b c roster peer = some n') : n'.Skips top y := by
  unfold HistoryNode.answerRequest at h
  cases hfind : n.requests.find? fun request => decide (0 < request.blockHeight) with
  | none =>
      rw [hfind] at h
      cases h
      exact hs
  | some request =>
      rw [hfind] at h
      have hpos : 0 < request.blockHeight := by simpa using List.find?_some hfind
      have hrequest := hs.requests request (List.mem_of_find?_eq_some hfind)
      have htop : request.blockHeight ≤ top := by
        rcases hrequest with hlt | hhas
        · omega
        · exact hs.stored.le_of_has hhas
      have hread := readRequestedBlock_of_answers hpeer (show 1 ≤ request.blockHeight by omega) htop
      rcases onRequestedBlock_cases h with rfl | ⟨height, header, body, votes, table, requests, hmsg,
        hsave, hrequests, rfl⟩
      · exact hs
      rw [hread] at hmsg
      cases hmsg
      obtain ⟨-, hnew, hrows⟩ := (save_of_blocks (by omega) htop).1 hsave
      -- the block that is saved was requested, so it is below the height
      have hlt : request.blockHeight < y := by
        rcases hrequest with hlt | hhas
        · exact hlt
        · rw [hnew] at hhas
          cases hhas
      have hhas : ∀ x, n.table.has x = true → table.has x = true := fun x hx => by
        rw [has_append hrows, hx]
        rfl
      have hframe := requestMissingBlocks_frame b c roster
      refine ⟨(hframe _ _).2.trans hs.current, ?_, ?_, ?_⟩
      · rw [(hframe _ _).1]
        exact hs.stored.append hrows (by dsimp only; omega) htop
      · rw [(hframe _ _).1, setRequests_table, setTable_table, has_append hrows, hs.missing]
        simp only [Bool.false_or, beq_eq_false_iff_ne, ne_eq]
        omega
      · intro other hother
        rw [(hframe _ _).1]
        rcases requests_after _ (by omega) hother with hother | hother | hother
        · rcases hrequests other hother with hmem | hzero
          · exact (hs.requests other hmem).imp_right (hhas _)
          · exact .inl (by omega)
        · exact .inr hother
        · exact .inl (by omega)

theorem HistoryNode.Skips.not_complete {y : ℤ} (hy : 1 ≤ y) (hytop : y ≤ top) (hs : n.Skips top y) :
    ¬n.Complete := by
  intro hcomplete
  obtain ⟨row, hrow, hheight, -⟩ := hcomplete top hs.current y hy hytop
  have hhas := BlocksTable.has_iff.2 ⟨row, hrow, hheight⟩
  rw [hs.missing] at hhas
  cases hhas

/-- So the history is never complete. -/
theorem HistoryNode.Skips.not_completes (hpeer : Answers maps blocks peer) {y : ℤ} (hy : 1 ≤ y)
    (hytop : y ≤ top) (hs : n.Skips top y) : ¬n.Completes maps b c roster peer := by
  rintro ⟨k, final, hrun, hcomplete⟩
  induction k generalizing n with
  | zero =>
      cases hrun
      exact hs.not_complete hy hytop hcomplete
  | succ k ih =>
      obtain ⟨next, hnext, hrest⟩ := Option.bind_eq_some_iff.1 hrun
      exact ih (hs.answer hpeer hytop hnext) hrest

/-! ### The missing heights in turn -/

/-- The missing heights below one, from the highest down. -/
def missingHeights (t : BlocksTable) (last : ℤ) : List ℤ :=
  ((List.range (last - 1).toNat).map fun (i : ℕ) => last - 1 - i).filter fun h => !t.has h

/-- A list of the missing heights below one, from the highest down. -/
structure MissingBelow (t : BlocksTable) (last : ℤ) (heights : List ℤ) : Prop where
  sorted : heights.Pairwise (· > ·)
  mem : ∀ {height}, height ∈ heights ↔ 1 ≤ height ∧ height < last ∧ t.has height = false

theorem missingBelow_missingHeights (t : BlocksTable) (last : ℤ) :
    MissingBelow t last (missingHeights t last) := by
  constructor
  · refine List.Pairwise.filter _ (List.pairwise_map.2 ?_)
    exact List.pairwise_lt_range.imp fun h => by omega
  · intro height
    unfold missingHeights
    rw [List.mem_filter, List.mem_map, Bool.not_eq_true']
    constructor
    · rintro ⟨⟨i, hi, rfl⟩, hmissing⟩
      rw [List.mem_range] at hi
      exact ⟨by omega, by omega, hmissing⟩
    · rintro ⟨hlo, hhi, hmissing⟩
      exact ⟨⟨(last - 1 - height).toNat, List.mem_range.2 (by omega), by omega⟩, hmissing⟩

/-- The highest missing height is filled: those below it are left. -/
theorem MissingBelow.tail {t t' : BlocksTable} {last height : ℤ} {heights : List ℤ}
    {row : StoredBlock} (h : MissingBelow t last (height :: heights)) (hrow : row.height = height)
    (hrows : t'.rows = t.rows ++ [row]) : MissingBelow t' height heights := by
  obtain ⟨hbelow, htail⟩ := List.pairwise_cons.1 h.sorted
  refine ⟨htail, fun {x} => ?_⟩
  rw [has_append hrows, hrow]
  simp only [Bool.or_eq_false_iff, beq_eq_false_iff_ne, ne_eq]
  constructor
  · intro hx
    obtain ⟨hlo, -, hmissing⟩ := h.mem.1 (List.mem_cons_of_mem _ hx)
    have := hbelow x hx
    exact ⟨hlo, by omega, hmissing, by omega⟩
  · rintro ⟨hlo, hlt, hmissing, -⟩
    have hlast := (h.mem.1 List.mem_cons_self).2.1
    rcases List.mem_cons.1 (h.mem.2 ⟨hlo, by omega, hmissing⟩) with rfl | hx
    · omega
    · exact hx

variable {t : BlocksTable} {last : ℤ} {heights : List ℤ}

/-- Missing heights that are too low are not found. -/
theorem missingBlock_far (ht : StoredUpTo t top) (hlast : last ≤ top)
    (hmissing : MissingBelow t last heights) (hfar : ∀ height ∈ heights, height < last - 513) :
    missingBlock t last = none := by
  by_cases hone : last ≤ 1
  · exact missingBlock_one t hone
  rw [missingBlock_eq ht (by omega) hlast]
  cases hfirst : firstMissing t (max (last - 513) 1) (last - 1) with
  | none => rfl
  | some x =>
      obtain ⟨hx, hstart, hstop, -⟩ := firstMissing_eq_some hfirst
      have := hfar x (hmissing.mem.2 ⟨by omega, by omega, hx⟩)
      omega

/-- Of those within reach the lowest is found. -/
theorem missingBlock_near (ht : StoredUpTo t top) (hlast : last ≤ top)
    (hmissing : MissingBelow t last heights) {height : ℤ} (hmem : height ∈ heights)
    (hnear : last - 513 ≤ height) :
    ∃ x ∈ heights, missingBlock t last = some x ∧ last - 513 ≤ x ∧ x ≤ height := by
  obtain ⟨hlo, hhi, hheight⟩ := hmissing.mem.1 hmem
  rw [missingBlock_eq ht (by omega) hlast]
  cases hfirst : firstMissing t (max (last - 513) 1) (last - 1) with
  | none =>
      rw [firstMissing_eq_none hfirst (by omega) (by omega)] at hheight
      cases hheight
  | some x =>
      obtain ⟨hx, hstart, hstop, hbefore⟩ := firstMissing_eq_some hfirst
      refine ⟨x, hmissing.mem.2 ⟨by omega, by omega, hx⟩, rfl, by omega, ?_⟩
      by_contra hlt
      rw [hbefore height (by omega) (by omega)] at hheight
      cases hheight

/-- The search finds the missing heights one by one, from the highest down: each is at most 513
below the one before it, and the next one is more; and the ids of their transactions are in no
running request. -/
def InReach (ids : ℤ → List (BitVec 64)) : ℤ → List (BitVec 64) → List ℤ → Prop
  | _, _, [] => True
  | last, running, height :: heights =>
    last - 513 ≤ height ∧ (∀ next ∈ heights.head?, next < last - 513) ∧
      (ids height).Nodup ∧ (∀ id ∈ ids height, id ≠ 0 ∧ id ∉ running) ∧
        InReach ids height (running ++ ids height) heights

/-- Every block that is stored has its body. -/
def AllBodies (t : BlocksTable) : Prop := ∀ row ∈ t.rows, row.body.isSome = true

/-- A node that searches below a height: nothing above it is missing, and no block is requested. -/
structure HistoryNode.Ready (n : HistoryNode) (last top : ℤ) : Prop where
  current : n.currentHeight = some top
  stored : StoredUpTo n.table top
  requests : ∀ request ∈ n.requests, request.blockHeight = 0
  connected : n.connected = true
  downloading : n.downloadingBlockBodies = false
  last_le : last ≤ top
  above : ∀ height, last ≤ height → height ≤ top → n.table.has height = true

/-- Where no height is missing, the history is complete when every block has its body. -/
theorem complete_iff_allBodies (hready : n.Ready last top) (hmissing : MissingBelow n.table last []) :
    n.Complete ↔ AllBodies n.table := by
  have hall : ∀ height, 1 ≤ height → height ≤ top → n.table.has height = true := by
    intro height hlo hhi
    by_cases hlast : last ≤ height
    · exact hready.above height hlast hhi
    · by_contra hnot
      exact List.not_mem_nil (hmissing.mem.2 ⟨hlo, by omega, Bool.eq_false_iff.2 hnot⟩)
  constructor
  · intro hcomplete row hrow
    obtain ⟨hlo, hhi⟩ := hready.stored.bounds row hrow
    obtain ⟨other, hother, hheight, hbody⟩ := hcomplete top hready.current _ hlo hhi
    obtain rfl := List.inj_on_of_nodup_map n.table.nodup hother hrow hheight
    exact hbody
  · intro hbodies current hcurrent height hlo hhi
    obtain rfl : top = current := Option.some.inj (hready.current.symm.trans hcurrent)
    obtain ⟨row, hrow, hheight⟩ := BlocksTable.has_iff.1 (hall height hlo hhi)
    exact ⟨row, hrow, hheight, hbodies row hrow⟩

theorem not_complete_of_missing (hready : n.Ready last top) {height : ℤ}
    (hmissing : MissingBelow n.table last (height :: heights)) : ¬n.Complete := by
  obtain ⟨hlo, hhi, hheight⟩ := hmissing.mem.1 List.mem_cons_self
  have hlast := hready.last_le
  intro hcomplete
  obtain ⟨row, hrow, hrowheight, -⟩ := hcomplete top hready.current height hlo (by omega)
  rw [BlocksTable.has_iff.2 ⟨row, hrow, hrowheight⟩] at hheight
  cases hheight

/-- A search that finds no block leaves the table as it is. -/
theorem completes_of_missingBlock_none (hpeer : Answers maps blocks peer)
    (hready : n.Ready last top) (hnone : missingBlock n.table last = none) :
    (n.searchMissingBlocks b c roster top last).Completes maps b c roster peer ↔ n.Complete := by
  have hframe := searchMissingBlocks_frame b c roster n top last
  have hstuck : (n.searchMissingBlocks b c roster top last).Stuck top := by
    intro request hrequest hpos
    obtain ⟨downloading, hsearch | ⟨height, hheight, hsearch⟩⟩ :=
      searchMissingBlocks_cases b c roster n top last
    · rw [hsearch] at hrequest
      have := hready.requests request hrequest
      omega
    · have hhas : n.table.has height = true := by
        rcases hheight with hhas | hfound
        · exact hhas
        · rw [hnone] at hfound
          cases hfound
      rw [hframe.1]
      rw [hsearch] at hrequest
      rcases requestBlock_cases (n.setDownloading downloading) height with hcase | hcase
      · rw [hcase] at hrequest
        have := hready.requests request hrequest
        omega
      · rw [hcase] at hrequest
        rcases List.mem_append.1 hrequest with hrequest | hrequest
        · have := hready.requests request hrequest
          omega
        · rw [List.mem_singleton.1 hrequest]
          exact ⟨hready.stored.le_of_has hhas, .inr hhas⟩
  exact (completes_of_fixed (hstuck.answer hpeer)).trans (complete_congr hframe.1 hframe.2)

/-- A missing block that is found is requested. -/
theorem search_requests (hready : n.Ready last top) {height : ℤ} (hpos : 0 < height)
    (hfound : missingBlock n.table last = some height) :
    n.searchMissingBlocks b c roster top last =
      n.setRequests (n.requests ++ [blockRequest height]) := by
  unfold HistoryNode.searchMissingBlocks
  rw [if_neg (by rw [hready.downloading]; exact Bool.false_ne_true), hfound]
  dsimp only
  unfold HistoryNode.requestBlock
  rw [if_neg, if_neg]
  · rw [hready.connected]
    exact Bool.false_ne_true
  · intro hany
    obtain ⟨request, hrequest, hheight⟩ := List.any_eq_true.1 hany
    rw [hready.requests request hrequest, beq_iff_eq] at hheight
    omega

/-- The one request for a block is closed. -/
theorem eraseP_request {l l' : List Request} {height : ℤ} (hpos : 0 < height)
    (hl : ∀ request ∈ l, request.blockHeight = 0) :
    (l ++ [blockRequest height] ++ l').eraseP (fun request => request.blockHeight == height) =
      l ++ l' := by
  rw [List.append_assoc, List.eraseP_append_right]
  · rw [List.singleton_append, List.eraseP_cons_of_pos (by simp [blockRequest])]
  · intro request hrequest heq
    rw [hl request hrequest, beq_iff_eq] at heq
    omega

/-- The first request for a block is the one that was added. -/
theorem find?_request {l : List Request} {height : ℤ} (hpos : 0 < height)
    (hl : ∀ request ∈ l, request.blockHeight = 0) :
    (l ++ [blockRequest height]).find? (fun request => decide (0 < request.blockHeight)) =
      some (blockRequest height) := by
  have hnone : l.find? (fun request => decide (0 < request.blockHeight)) = none := by
    rw [List.find?_eq_none]
    intro request hrequest
    rw [hl request hrequest]
    exact Bool.false_ne_true
  rw [List.find?_append, hnone, Option.none_or]
  exact List.find?_cons_of_pos (decide_eq_true hpos)

/-- None of the transactions of a block is requested already. -/
def FreshIds (running ids : List (BitVec 64)) : Prop :=
  ids.Nodup ∧ ∀ id ∈ ids, id ≠ 0 ∧ id ∉ running

/-- The node after the block that it has requested is saved. -/
def HistoryNode.saved (n : HistoryNode) (blocks : PeerBlocks b c roster top) (height : ℤ)
    (table : BlocksTable) : HistoryNode :=
  (n.setTable table).setRequests
    (n.requests ++ txnRequests height (b.txnIds (blocks.body height)) 0)

/-- **What the answer to a request does.**  If no block is open and none of its transactions is
requested already, the block is saved and the search goes on below it. -/
theorem answer_request (hpeer : Answers maps blocks peer) (hready : n.Ready last top) {height : ℤ}
    (hlo : 1 ≤ height) (hhi : height ≤ top) (hfree : n.inTransaction = false)
    {table : BlocksTable} (hrows : table.rows = n.table.rows ++
      [⟨height, blocks.header height, some (blocks.body height), blocks.votes height⟩])
    (hnew : n.table.has height = false) (next : HistoryNode) :
    (n.setRequests (n.requests ++ [blockRequest height])).answerRequest maps b c roster peer =
        some next ↔
      FreshIds (n.requests.map Request.transactionId) (blocks.ids height) ∧
        next = (n.saved blocks height table).requestMissingBlocks b c roster height := by
  have hany : ((n.requests ++ [blockRequest height]).any fun request =>
      request.blockHeight == height) = true := by
    rw [List.any_append]
    simp [blockRequest]
  have hsave : n.table.aergoliteSaveBlock b c roster n.inTransaction (blocks.header height)
      (blocks.body height) (blocks.votes height) = pure table :=
    (save_of_blocks hlo hhi).2 ⟨hfree, hnew, hrows⟩
  have hanswer : (n.setRequests (n.requests ++ [blockRequest height])).answerRequest maps b c roster
      peer = ((n.setRequests (n.requests ++ [blockRequest height])).setTable table).onSavedBlock b c
        roster height (blocks.body height) := by
    unfold HistoryNode.answerRequest
    rw [setRequests_requests, find?_request (by omega) hready.requests]
    unfold HistoryNode.onRequestedBlock
    have hread := readRequestedBlock_of_answers hpeer hlo hhi
    simp only [blockRequest] at hany ⊢
    simp only [hread, setRequests_requests, hany, setRequests_table, setRequests_inTransaction,
      hsave]
    rfl
  have hids : FreshIds (n.requests.map Request.transactionId) (blocks.ids height) ↔
      (blocks.ids height).Nodup ∧ ∀ id ∈ blocks.ids height,
        id ∉ (n.requests ++ [blockRequest height]).map Request.transactionId := by
    simp only [FreshIds, List.map_append, List.map_singleton, List.mem_append, List.mem_singleton,
      not_or, blockRequest]
    refine and_congr_right fun _ => forall₂_congr fun id _ => ?_
    exact and_comm
  have hsome : (HistoryNode.requestTransactions height (b.txnIds (blocks.body height)) 0
      ((n.setRequests (n.requests ++ [blockRequest height])).setTable table)).isSome = true ↔ _ :=
    requestTransactions_isSome hready.connected
  have hfresh := hids.trans hsome.symm
  rw [hanswer, hfresh]
  unfold HistoryNode.onSavedBlock
  cases hrequest : HistoryNode.requestTransactions height (b.txnIds (blocks.body height)) 0
      ((n.setRequests (n.requests ++ [blockRequest height])).setTable table) with
  | none => exact ⟨nofun, fun h => absurd h.1 Bool.false_ne_true⟩
  | some m =>
      have hm : m.blockArrived height = n.saved blocks height table := by
        rw [requestTransactions_eq hrequest]
        unfold HistoryNode.blockArrived HistoryNode.saved
        simp only [setRequests_requests, setTable_requests, setTable_connected,
          setRequests_connected, hready.connected, if_true]
        rw [eraseP_request (by omega) hready.requests]
        rfl
      rw [Option.map_some, hm]
      constructor
      · intro h
        exact ⟨rfl, (Option.some.inj h).symm⟩
      · rintro ⟨-, rfl⟩
        rfl

/-- The node is ready to search below the block that it has saved. -/
theorem HistoryNode.Ready.saved (hready : n.Ready last top) {height : ℤ} {heights : List ℤ}
    (hmissing : MissingBelow n.table last (height :: heights)) {table : BlocksTable}
    (hrows : table.rows = n.table.rows ++
      [⟨height, blocks.header height, some (blocks.body height), blocks.votes height⟩]) :
    (n.saved blocks height table).Ready height top := by
  obtain ⟨hlo, hhi, -⟩ := hmissing.mem.1 List.mem_cons_self
  have hlast := hready.last_le
  constructor
  · exact hready.current
  · exact hready.stored.append hrows hlo (by dsimp only; omega)
  · intro request hrequest
    rcases List.mem_append.1 hrequest with hmem | hmem
    · exact hready.requests request hmem
    · exact blockHeight_of_txnRequests hmem
  · exact hready.connected
  · exact hready.downloading
  · omega
  · intro x hx hxtop
    change table.has x = true
    rw [has_append hrows, Bool.or_eq_true, beq_iff_eq]
    by_cases heq : height = x
    · exact .inr heq
    by_cases hxlast : last ≤ x
    · exact .inl (hready.above x hxlast hxtop)
    · -- between the two heights nothing is missing
      refine .inl ?_
      by_contra hnot
      have hmem := hmissing.mem.2 ⟨show 1 ≤ x by omega, by omega, Bool.eq_false_iff.2 hnot⟩
      rcases List.mem_cons.1 hmem with rfl | hmem
      · exact heq rfl
      · have := (List.pairwise_cons.1 hmissing.sorted).1 x hmem
        omega

/-- A block that is downloaded has its body. -/
theorem allBodies_append {t t' : BlocksTable} {row : StoredBlock}
    (hrows : t'.rows = t.rows ++ [row]) (hbody : row.body.isSome = true) :
    AllBodies t' ↔ AllBodies t := by
  unfold AllBodies
  rw [hrows, List.forall_mem_append, List.forall_mem_singleton]
  exact and_iff_left hbody

/-- **The step**: the highest missing height is requested, and the search ends with a complete
history if the block can be saved and the search below it does. -/
theorem completes_step (hpeer : Answers maps blocks peer) (hready : n.Ready last top) {height : ℤ}
    (hmissing : MissingBelow n.table last (height :: heights))
    (hfound : missingBlock n.table last = some height) :
    (n.searchMissingBlocks b c roster top last).Completes maps b c roster peer ↔
      n.inTransaction = false ∧
        FreshIds (n.requests.map Request.transactionId) (blocks.ids height) ∧
          ∃ table, table.rows = n.table.rows ++
              [⟨height, blocks.header height, some (blocks.body height), blocks.votes height⟩] ∧
            ((n.saved blocks height table).searchMissingBlocks b c roster top height).Completes maps
              b c roster peer := by
  obtain ⟨hlo, hhi, hnew⟩ := hmissing.mem.1 List.mem_cons_self
  have hlast := hready.last_le
  have hnot : ¬(n.setRequests (n.requests ++ [blockRequest height])).Complete := by
    rw [complete_congr (setRequests_table n _) (setRequests_currentHeight n _)]
    exact not_complete_of_missing hready hmissing
  rw [search_requests hready (by omega) hfound]
  cases hfree : n.inTransaction with
  | true =>
      have hstuck : (n.setRequests (n.requests ++ [blockRequest height])).Stuck top := by
        intro request hrequest hpos
        rcases List.mem_append.1 hrequest with hmem | hmem
        · have := hready.requests request hmem
          omega
        · rw [List.mem_singleton.1 hmem]
          exact ⟨show height ≤ top by omega, .inl hfree⟩
      rw [completes_of_fixed (hstuck.answer hpeer)]
      exact ⟨fun h => absurd h hnot, fun h => absurd h.1.symm Bool.false_ne_true⟩
  | false =>
      obtain ⟨table, -, hrows⟩ := exists_saveBlock n.table ⟨height,
        blocks.header height, some (blocks.body height), blocks.votes height⟩ hnew
      have hanswer := fun {table : BlocksTable} (hrows : table.rows = n.table.rows ++ [⟨height,
          blocks.header height, some (blocks.body height), blocks.votes height⟩]) =>
        answer_request hpeer hready hlo (show height ≤ top by omega) hfree hrows hnew
      have hcurrent : ∀ table : BlocksTable,
          (n.saved blocks height table).requestMissingBlocks b c roster height =
            (n.saved blocks height table).searchMissingBlocks b c roster top height := by
        intro table
        unfold HistoryNode.requestMissingBlocks
        rw [show (n.saved blocks height table).currentHeight = some top from hready.current]
        exact if_neg (by omega)
      by_cases hfresh : FreshIds (n.requests.map Request.transactionId) (blocks.ids height)
      · have hcompletes : ∀ table : BlocksTable, table.rows = n.table.rows ++ [⟨height,
            blocks.header height, some (blocks.body height), blocks.votes height⟩] →
            ((n.setRequests (n.requests ++ [blockRequest height])).Completes maps b c roster peer ↔
              ((n.saved blocks height table).searchMissingBlocks b c roster top height).Completes
                maps b c roster peer) := by
          intro table hrows
          rw [completes_iff_next ((hanswer hrows _).2 ⟨hfresh, rfl⟩) hnot, hcurrent]
        constructor
        · exact fun h => ⟨rfl, hfresh, table, hrows, (hcompletes table hrows).1 h⟩
        · rintro ⟨-, -, table, hrows, h⟩
          exact (hcompletes table hrows).2 h
      · have hnone : (n.setRequests (n.requests ++ [blockRequest height])).answerRequest maps b c
            roster peer = none := by
          rw [Option.eq_none_iff_forall_ne_some]
          exact fun next h => hfresh ((hanswer hrows next).1 h).1
        exact ⟨fun h => absurd h (not_completes_of_none hnone hnot), fun h => absurd h.2.1 hfresh⟩

/-- **When the search below a height ends with a complete history.**  The induction is on the
missing heights: the highest of them is requested, saved and passed, or the history is never
complete. -/
theorem completes_iff (hpeer : Answers maps blocks peer) (hready : n.Ready last top)
    (hmissing : MissingBelow n.table last heights) :
    (n.searchMissingBlocks b c roster top last).Completes maps b c roster peer ↔
      AllBodies n.table ∧ (heights = [] ∨ n.inTransaction = false) ∧
        InReach blocks.ids last (n.requests.map Request.transactionId) heights := by
  induction heights generalizing n last with
  | nil =>
      have hnone := missingBlock_far hready.stored hready.last_le hmissing (by simp)
      rw [completes_of_missingBlock_none hpeer hready hnone, complete_iff_allBodies hready hmissing]
      simp [InReach]
  | cons height heights ih =>
      obtain ⟨hlo, hhi, hnew⟩ := hmissing.mem.1 List.mem_cons_self
      have hlast := hready.last_le
      have hbelow := (List.pairwise_cons.1 hmissing.sorted).1
      by_cases hnear : last - 513 ≤ height
      · by_cases hnext : ∀ next ∈ heights.head?, next < last - 513
        · -- the others are too low, so the highest one is found
          have hfar : ∀ x ∈ heights, x < last - 513 := by
            intro x hx
            cases heights with
            | nil => exact absurd hx List.not_mem_nil
            | cons next heights =>
                have hlt := hnext next rfl
                rcases List.mem_cons.1 hx with rfl | hx
                · exact hlt
                · have := (List.pairwise_cons.1 (List.pairwise_cons.1 hmissing.sorted).2).1 x hx
                  omega
          have hfound : missingBlock n.table last = some height := by
            obtain ⟨x, hx, hfound, hxnear, -⟩ :=
              missingBlock_near hready.stored hlast hmissing List.mem_cons_self hnear
            rcases List.mem_cons.1 hx with rfl | hx
            · exact hfound
            · have := hfar x hx
              omega
          have hih := fun (table : BlocksTable) hrows => ih (n := n.saved blocks height table)
            (hready.saved hmissing hrows) (hmissing.tail rfl hrows)
          have hrunning : ∀ table, (n.saved blocks height table).requests.map
              Request.transactionId =
                n.requests.map Request.transactionId ++ blocks.ids height := fun _ => by
            simp only [HistoryNode.saved, setRequests_requests, List.map_append, map_txnRequests,
              PeerBlocks.ids]
          rw [completes_step hpeer hready hmissing hfound]
          constructor
          · rintro ⟨hfree, hfresh, table, hrows, hcompletes⟩
            obtain ⟨hbodies, -, hreach⟩ := (hih table hrows).1 hcompletes
            rw [hrunning] at hreach
            exact ⟨(allBodies_append hrows rfl).1 hbodies, .inr hfree, hnear, hnext, hfresh.1,
              hfresh.2, hreach⟩
          · rintro ⟨hbodies, hfree, -, -, hnodup, hfresh, hreach⟩
            have hfree : n.inTransaction = false := hfree.resolve_left (List.cons_ne_nil _ _)
            obtain ⟨table, -, hrows⟩ := exists_saveBlock n.table ⟨height,
              blocks.header height, some (blocks.body height), blocks.votes height⟩ hnew
            refine ⟨hfree, ⟨hnodup, hfresh⟩, table, hrows, (hih table hrows).2 ⟨?_, .inr hfree, ?_⟩⟩
            · exact (allBodies_append hrows rfl).2 hbodies
            · rw [hrunning]
              exact hreach
        · -- a lower one is found, and the highest is passed
          have hskip : ∃ next ∈ heights, last - 513 ≤ next := by
            by_contra hnone
            refine hnext fun next hhead => ?_
            by_contra hle
            exact hnone ⟨next, List.mem_of_head? hhead, by omega⟩
          obtain ⟨next, hmem, hle⟩ := hskip
          obtain ⟨x, hx, hfound, -, hxle⟩ := missingBlock_near hready.stored hlast hmissing
            (List.mem_cons_of_mem _ hmem) hle
          have hlt : x < height := by
            have := hbelow next hmem
            omega
          have hxpos := (hmissing.mem.1 hx).1
          rw [search_requests hready (by omega) hfound]
          have hskips : (n.setRequests (n.requests ++ [blockRequest x])).Skips top height := by
            refine ⟨hready.current, hready.stored, hnew, fun request hrequest => .inl ?_⟩
            rcases List.mem_append.1 hrequest with hmem | hmem
            · rw [hready.requests request hmem]
              omega
            · rw [List.mem_singleton.1 hmem]
              exact hlt
          exact ⟨fun h => absurd h (hskips.not_completes hpeer hlo (by omega)),
            fun h => absurd h.2.2.2.1 hnext⟩
      · -- the highest missing height is too low, so nothing is found
        have hfar : ∀ x ∈ height :: heights, x < last - 513 := by
          intro x hx
          rcases List.mem_cons.1 hx with rfl | hx
          · omega
          · have := hbelow x hx
            omega
        rw [completes_of_missingBlock_none hpeer hready
          (missingBlock_far hready.stored hlast hmissing hfar)]
        exact ⟨fun h => absurd h (not_complete_of_missing hready hmissing),
          fun h => absurd h.2.2.1 hnear⟩

/-- A full node with a peer, where no block is requested and the last block is stored. -/
structure HistoryNode.AtRest (n : HistoryNode) (top : ℤ) : Prop where
  current : n.currentHeight = some top
  stored : StoredUpTo n.table top
  requests : ∀ request ∈ n.requests, request.blockHeight = 0
  connected : n.connected = true

/-- The search of the whole history. -/
theorem downloads_iff_inReach (hpeer : Answers maps blocks peer) (hn : n.AtRest top) :
    n.Downloads maps b c roster peer ↔
      AllBodies n.table ∧ (missingHeights n.table top = [] ∨ n.inTransaction = false) ∧
        InReach blocks.ids top (n.requests.map Request.transactionId)
          (missingHeights n.table top) := by
  have hready : (n.setDownloading false).Ready top top := by
    refine ⟨hn.current, hn.stored, hn.requests, hn.connected, rfl, le_refl top, ?_⟩
    intro height hlo hhi
    rw [setDownloading_table, le_antisymm hhi hlo]
    exact hn.stored.top
  have hsearch : n.requestMissingBlocks b c roster 0 =
      (n.setDownloading false).searchMissingBlocks b c roster top top := by
    unfold HistoryNode.requestMissingBlocks
    rw [hn.current]
    exact if_pos rfl
  unfold HistoryNode.Downloads
  rw [hsearch]
  exact completes_iff hpeer hready (missingBelow_missingHeights n.table top)

/-- **When the history is downloaded.**  With the answers that peers make, a node ends with a
complete history exactly if it has one.  If the answers had the header where it is read, the
download would succeed exactly if every stored block has its body, no block is open, and each
missing height is at most 513 below the one before it and the next one is more. -/
theorem downloads_iff (hn : n.AtRest top) (hpeer : Answers maps blocks peer) {served : ℤ → M}
    (hserved : ∀ height, 0 < height →
      ∃ s : BlockServer, s.onGetBlock maps b height = some (served height)) :
    (n.Downloads maps b c roster served ↔ n.Complete) ∧
      (n.Downloads maps b c roster peer ↔
        AllBodies n.table ∧ (missingHeights n.table top = [] ∨ n.inTransaction = false) ∧
          InReach blocks.ids top (n.requests.map Request.transactionId)
            (missingHeights n.table top)) := by
  refine ⟨downloads_of_ignored fun m height hpos => ?_, downloads_iff_inReach hpeer hn⟩
  obtain ⟨s, hs⟩ := hserved height hpos
  exact (ignored_of_get_state (onGetBlock_state hs) b c roster m).2

end

/-- A peer with three blocks. -/
def threeBlockServer : BlockServer :=
  ⟨some (fullBlock 3), true, ⟨[fullBlock 1, fullBlock 2, fullBlock 3], by decide⟩⟩

/-- A node that has the third block only. -/
def thirdBlockNode : HistoryNode := ⟨⟨[fullBlock 3], by decide⟩, false, some 3, [], false, true⟩

/-- Its three blocks are verified. -/
theorem verifySaved_fullBlock : ∀ height ∈ [1, 2, 3], ∃ read,
    plainBodyReader.verifySaved plainCrypto oneNodeRoster (fullBlock height).header [0]
      (fullBlock height).votes = pure read ∧ read.height = (height.toNat : ℤ) := by
  have hvalid : ∀ height ∈ [1, 2, 3],
      (plainBodyReader.header? (fullBlock height).header).isSome = true ∧
        ∀ read ∈ plainBodyReader.header? (fullBlock height).header,
          oneNodeRoster.verifyHeader plainCrypto read = .ok ∧
            plainBodyReader.txnsHash (plainBodyReader.txnIds [0]) = read.txnsHash ∧
              verifyBlockVotes plainCrypto oneNodeRoster.authorizations oneNodeRoster.queried
                read.height read.id (plainBodyReader.votes (fullBlock height).votes) false = .ok ∧
                read.height = (height.toNat : ℤ) := by
    decide +kernel
  intro height hheight
  obtain ⟨hsome, hall⟩ := hvalid height hheight
  obtain ⟨read, hread, hverify⟩ := exists_verifySaved hsome fun read hread =>
    ⟨(hall read hread).1, (hall read hread).2.1, (hall read hread).2.2.1⟩
  exact ⟨read, hverify, (hall read hread).2.2.2⟩

/-- The three blocks of a peer. -/
def threeBlocks : PeerBlocks plainBodyReader plainCrypto oneNodeRoster 3 where
  header height := (fullBlock height.toNat.toUInt8).header
  body _ := [0]
  votes height := (fullBlock height.toNat.toUInt8).votes
  valid height hlo hhi := by
    obtain rfl | rfl | rfl : height = 1 ∨ height = 2 ∨ height = 3 := by omega
    · exact verifySaved_fullBlock 1 (by decide)
    · exact verifySaved_fullBlock 2 (by decide)
    · exact verifySaved_fullBlock 3 (by decide)

/-- What the peer sends. -/
def servedMessage (height : ℤ) : List (ℕ × BinnItem) :=
  (threeBlockServer.onGetBlock plainMaps plainBodyReader height).getD []

/-- The peer answers every request. -/
theorem servedMessage_eq {height : ℤ} (hpos : 0 < height) :
    threeBlockServer.onGetBlock plainMaps plainBodyReader height = some (servedMessage height) := by
  have hload : ∃ parts, threeBlockServer.table.aergoliteGetBlock plainBodyReader height =
      .ok parts := by
    unfold BlocksTable.aergoliteGetBlock
    cases hfind : threeBlockServer.table.rows.find? fun row => row.height == height with
    | none => exact ⟨_, rfl⟩
    | some row =>
        have hall : ∀ row ∈ threeBlockServer.table.rows,
            (plainBodyReader.loadBlockCb row).isOk = true := by
          decide +kernel
        have hok := hall row (List.mem_of_find?_eq_some hfind)
        dsimp only
        cases hrow : plainBodyReader.loadBlockCb row with
        | error rc =>
            rw [hrow] at hok
            cases hok
        | ok parts => exact ⟨parts, rfl⟩
  obtain ⟨parts, hparts⟩ := hload
  suffices h : (threeBlockServer.onGetBlock plainMaps plainBodyReader height).isSome = true by
    obtain ⟨msg, hmsg⟩ := Option.isSome_iff_exists.1 h
    rw [servedMessage, hmsg]
    rfl
  unfold BlockServer.onGetBlock
  rw [if_neg (by omega), hparts]
  split
  · rfl
  · rfl

/-- An answer with the header where it is read. -/
def readMessage (height : ℤ) : List (ℕ × BinnItem) :=
  [(pluginHeight, .int64 height), (pluginState, .blob (threeBlocks.header height)),
    (pluginBody, .blob [0]), (pluginVotes, .list (threeBlocks.votes height))]

theorem answers_readMessage : Answers plainMaps threeBlocks readMessage :=
  fun _ _ _ => ⟨rfl, rfl, rfl, rfl⟩

theorem thirdBlockNode_atRest : thirdBlockNode.AtRest 3 :=
  ⟨rfl, ⟨by decide, by decide⟩, fun _ h => absurd h List.not_mem_nil, rfl⟩

/-- The hypotheses hold of a node with the third block and a peer with three. -/
theorem downloads_iff_three :
    (thirdBlockNode.Downloads plainMaps plainBodyReader plainCrypto oneNodeRoster servedMessage ↔
        thirdBlockNode.Complete) ∧
      (thirdBlockNode.Downloads plainMaps plainBodyReader plainCrypto oneNodeRoster readMessage ↔
        AllBodies thirdBlockNode.table ∧
          (missingHeights thirdBlockNode.table 3 = [] ∨ thirdBlockNode.inTransaction = false) ∧
          InReach threeBlocks.ids 3 (thirdBlockNode.requests.map Request.transactionId)
            (missingHeights thirdBlockNode.table 3)) :=
  downloads_iff thirdBlockNode_atRest answers_readMessage
    fun _ hpos => ⟨threeBlockServer, servedMessage_eq hpos⟩

/-- **Two missing blocks are not downloaded**: not from a peer that has them, and not if its
answers were read, as then the first block arrives and the second is not asked for. -/
theorem history_not_downloaded :
    ¬thirdBlockNode.Downloads plainMaps plainBodyReader plainCrypto oneNodeRoster servedMessage ∧
      ¬thirdBlockNode.Downloads plainMaps plainBodyReader plainCrypto oneNodeRoster readMessage := by
  have hmissing : missingHeights thirdBlockNode.table 3 = [2, 1] := by decide
  constructor
  · rw [downloads_of_ignored fun m height hpos =>
      (ignored_of_get_state (onGetBlock_state (servedMessage_eq hpos)) _ _ _ m).2]
    intro hcomplete
    obtain ⟨row, hrow, hheight, -⟩ := hcomplete 3 rfl 1 (by decide) (by decide)
    rw [List.mem_singleton.1 hrow] at hheight
    exact absurd hheight (by decide)
  · rw [downloads_iff_inReach answers_readMessage thirdBlockNode_atRest, hmissing]
    rintro ⟨-, -, -, hnext, -⟩
    exact absurd (hnext 1 rfl) (by decide)

end NoLeader
end AergoLite
