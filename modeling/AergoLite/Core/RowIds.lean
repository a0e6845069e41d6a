/-
# The row ids

The nodes insert rows in their own copies of a table at the same time, and their transactions reach
a block in another order than the one in which they were executed.  So a new row id has the id of
the node that executes the statement in its upper half, and in the lower half one more than the
largest that this node has in the table (`OP_NewRowid`).  The search ends on either side of the
place where the next node would start, as the pages of the tree have it; the id that comes out is
the same (`nodeRowid_eq`), it depends on the rows of this node alone, and it is new
(`newRowid_fresh`).  Nodes that execute the same statements in different orders give the rows the
same ids, and have the same table at the end (`interleaved_rows_agree`).
-/

import AergoLite.Core.Basic
import AergoLite.Library.Partition
import Mathlib.Data.List.Sort

namespace AergoLite
namespace Core

section Halves

def aergoliteBuildRowId (nodeId seqNum : BitVec 32) : BitVec 64 :=
  (nodeId.signExtend 64 <<< 32) ||| seqNum.setWidth 64

def aergoliteNodeIdFromRowId (value : BitVec 64) : BitVec 32 := (value.sshiftRight 32).setWidth 32

def aergoliteSeqFromRowId (value : BitVec 64) : BitVec 32 :=
  (value &&& 0xFFFFFFFF#64).setWidth 32

/-- The bits of two halves. -/
theorem getLsbD_halves (nodeId seqNum : BitVec 32) (i : ℕ) :
    (nodeId ++ seqNum : BitVec 64).getLsbD i =
      if i < 32 then seqNum.getLsbD i else nodeId.getLsbD (i - 32) :=
  BitVec.getLsbD_append

theorem aergoliteBuildRowId_eq (nodeId seqNum : BitVec 32) :
    aergoliteBuildRowId nodeId seqNum = nodeId ++ seqNum := by
  unfold aergoliteBuildRowId
  refine BitVec.eq_of_getLsbD_eq fun i hi => ?_
  rw [getLsbD_halves, BitVec.getLsbD_or, BitVec.getLsbD_shiftLeft, BitVec.getLsbD_setWidth]
  by_cases h : i < 32
  · simp [h, hi]
  · have hlow : i - 32 < 32 := by omega
    have hwide : i - 32 < 64 := by omega
    simp [h, hi, BitVec.getElem_signExtend, hlow, hwide, BitVec.getLsbD_of_ge seqNum i (by omega)]

theorem aergoliteNodeIdFromRowId_append (nodeId seqNum : BitVec 32) :
    aergoliteNodeIdFromRowId (nodeId ++ seqNum) = nodeId := by
  unfold aergoliteNodeIdFromRowId
  refine BitVec.eq_of_getLsbD_eq fun i hi => ?_
  have hhigh : 32 + i < 64 := by omega
  have hnot : ¬ 32 + i < 32 := by omega
  rw [BitVec.getLsbD_setWidth, BitVec.getLsbD_sshiftRight, if_pos hhigh, getLsbD_halves,
    if_neg hnot, Nat.add_sub_cancel_left]
  simp [hi, show ¬ 64 ≤ i by omega]

theorem aergoliteSeqFromRowId_append (nodeId seqNum : BitVec 32) :
    aergoliteSeqFromRowId (nodeId ++ seqNum) = seqNum := by
  have hmask : (0xFFFFFFFF#64).setWidth 32 = BitVec.allOnes 32 := by decide
  unfold aergoliteSeqFromRowId
  rw [BitVec.setWidth_and, hmask, BitVec.and_allOnes, BitVec.setWidth_append_eq_right]

theorem append_parts (value : BitVec 64) :
    aergoliteNodeIdFromRowId value ++ aergoliteSeqFromRowId value = value := by
  have h : (value.extractLsb' 32 32 ++ value.extractLsb' 0 32 : BitVec 64) = value := by
    refine BitVec.eq_of_getLsbD_eq fun i hi => ?_
    rw [getLsbD_halves]
    by_cases hlow : i < 32
    · simp [hlow]
    · have hsub : 32 + (i - 32) = i := by omega
      have hhigh : i - 32 < 32 := by omega
      simp [hlow, hsub, hhigh]
  rw [← h, aergoliteNodeIdFromRowId_append, aergoliteSeqFromRowId_append]

/-- A row id is the id of a node and a number of its rows. -/
theorem toInt_rowId (value : BitVec 64) :
    value.toInt = 4294967296 * (aergoliteNodeIdFromRowId value).toInt +
      (aergoliteSeqFromRowId value).toNat :=
  calc value.toInt
      = (aergoliteNodeIdFromRowId value ++ aergoliteSeqFromRowId value).toInt :=
        congrArg BitVec.toInt (append_parts value).symm
    _ = _ := BitVec.toInt_append

theorem nodeId_build (nodeId seqNum : BitVec 32) :
    aergoliteNodeIdFromRowId (aergoliteBuildRowId nodeId seqNum) = nodeId := by
  rw [aergoliteBuildRowId_eq, aergoliteNodeIdFromRowId_append]

theorem seq_build (nodeId seqNum : BitVec 32) :
    aergoliteSeqFromRowId (aergoliteBuildRowId nodeId seqNum) = seqNum := by
  rw [aergoliteBuildRowId_eq, aergoliteSeqFromRowId_append]

theorem toInt_build (nodeId seqNum : BitVec 32) :
    (aergoliteBuildRowId nodeId seqNum).toInt = 4294967296 * nodeId.toInt + seqNum.toNat := by
  rw [toInt_rowId, nodeId_build, seq_build]

end Halves

/-- The rows of a table, in the order of the keys, as the leaves of its B-tree have them. -/
structure TableRows (D : Type) where
  rows : List (BitVec 64 × D)
  sorted : rows.Pairwise fun a b => a.1.toInt < b.1.toInt

variable {D : Type}

namespace TableRows

/-- The keys of the rows. -/
def keys (t : TableRows D) : List (BitVec 64) := t.rows.map Prod.fst

theorem keys_sorted (t : TableRows D) : t.keys.Pairwise fun a b => a.toInt < b.toInt :=
  List.pairwise_map.2 t.sorted

/-- Two tables with the same rows are one. -/
theorem ext_mem {t u : TableRows D} (h : ∀ row, row ∈ t.rows ↔ row ∈ u.rows) : t = u := by
  have hrows : t.rows = u.rows := by
    refine List.Perm.eq_of_pairwise (fun a b _ _ hab hba => ?_) t.sorted u.sorted
      ((List.perm_ext_iff_of_nodup ?_ ?_).2 h)
    · exact absurd (hab.trans hba) (lt_irrefl _)
    · exact t.sorted.imp fun hlt heq => absurd (heq ▸ hlt) (lt_irrefl _)
    · exact u.sorted.imp fun hlt heq => absurd (heq ▸ hlt) (lt_irrefl _)
  cases t
  cases u
  congr

/-- The rows that satisfy a condition. -/
def filter (t : TableRows D) (p : BitVec 64 → Bool) : TableRows D where
  rows := t.rows.filter fun row => p row.1
  sorted := t.sorted.filter _

theorem mem_filter {t : TableRows D} {p : BitVec 64 → Bool} {row : BitVec 64 × D} :
    row ∈ (t.filter p).rows ↔ row ∈ t.rows ∧ p row.1 = true :=
  List.mem_filter

theorem keys_filter (t : TableRows D) (p : BitVec 64 → Bool) :
    (t.filter p).keys = t.keys.filter p := by
  unfold keys filter
  rw [List.filter_map]
  rfl

/-- `sqlite3BtreeInsert` writes the data under the key, whether or not there is a row. -/
def sqlite3BtreeInsert (t : TableRows D) (key : BitVec 64) (data : D) : TableRows D where
  rows := (t.rows.filter fun row => row.1.toInt < key.toInt) ++
    (key, data) :: t.rows.filter fun row => key.toInt < row.1.toInt
  sorted := by
    refine List.pairwise_append.2 ⟨t.sorted.filter _, ?_, ?_⟩
    · refine List.pairwise_cons.2 ⟨fun row hrow => ?_, t.sorted.filter _⟩
      exact of_decide_eq_true (List.mem_filter.1 hrow).2
    · intro low hlow high hhigh
      have hbelow : low.1.toInt < key.toInt := of_decide_eq_true (List.mem_filter.1 hlow).2
      rcases List.mem_cons.1 hhigh with rfl | hmem
      · exact hbelow
      · exact hbelow.trans (of_decide_eq_true (List.mem_filter.1 hmem).2)

theorem mem_insert {t : TableRows D} {key : BitVec 64} {data : D} {row : BitVec 64 × D} :
    row ∈ (t.sqlite3BtreeInsert key data).rows ↔
      row = (key, data) ∨ (row.1 ≠ key ∧ row ∈ t.rows) := by
  unfold sqlite3BtreeInsert
  rw [List.mem_append, List.mem_cons, List.mem_filter, List.mem_filter, decide_eq_true_eq,
    decide_eq_true_eq]
  constructor
  · rintro (⟨hmem, hlt⟩ | heq | ⟨hmem, hlt⟩)
    · exact Or.inr ⟨fun heq => absurd (heq ▸ hlt) (lt_irrefl _), hmem⟩
    · exact Or.inl heq
    · exact Or.inr ⟨fun heq => absurd (heq ▸ hlt) (lt_irrefl _), hmem⟩
  · rintro (heq | ⟨hne, hmem⟩)
    · exact Or.inr (Or.inl heq)
    · rcases lt_or_gt_of_ne fun heq => hne (BitVec.eq_of_toInt_eq heq) with hlt | hgt
      · exact Or.inl ⟨hmem, hlt⟩
      · exact Or.inr (Or.inr ⟨hmem, hgt⟩)

/-- `sqlite3BtreeDelete`, on the row that the cursor was moved to. -/
def sqlite3BtreeDelete (t : TableRows D) (key : BitVec 64) : TableRows D :=
  t.filter fun k => k != key

end TableRows

section Cursor

variable (t : TableRows D)

/-- The largest key before a place. -/
def lastBelow (key : BitVec 64) : Option (BitVec 64) :=
  (t.keys.filter fun k => k.toInt < key.toInt).getLast?

/-- The smallest key after a place. -/
def firstAbove (key : BitVec 64) : Option (BitVec 64) :=
  (t.keys.filter fun k => key.toInt < k.toInt).head?

/-- `sqlite3BtreeMovetoUnpacked` leaves the cursor on the row with the key (`res` is 0), or on a
neighbour of its place, the one before it (`res < 0`) or the one after it (`res > 0`).  Which of the
two depends on the pages of the tree (`before`), where there are two.  On an empty table the cursor
is not valid, and `res < 0`. -/
def sqlite3BtreeMovetoUnpacked (before : Bool) (key : BitVec 64) : Option (BitVec 64) × ℤ :=
  if key ∈ t.keys then (some key, 0)
  else
    match lastBelow t key, firstAbove t key with
    | none, none => (none, -1)
    | some low, none => (some low, -1)
    | none, some high => (some high, 1)
    | some low, some high => if before then (some low, -1) else (some high, 1)

/-- `sqlite3BtreePrevious`, which makes the cursor invalid on the first row. -/
def sqlite3BtreePrevious : Option (BitVec 64) → Option (BitVec 64)
  | none => none
  | some key => lastBelow t key

/-- Between a key that is not in the table and the first one after it there is nothing. -/
theorem lastBelow_firstAbove {key high : BitVec 64} (hkey : key ∉ t.keys)
    (hhigh : firstAbove t key = some high) : lastBelow t high = lastBelow t key := by
  unfold firstAbove at hhigh
  obtain ⟨rest, hrest⟩ := List.head?_eq_some_iff.1 hhigh
  have hsorted := t.keys_sorted.filter fun k => decide (key.toInt < k.toInt)
  rw [hrest, List.pairwise_cons] at hsorted
  have habove : key.toInt < high.toInt := by
    have hmem : high ∈ t.keys.filter fun k => key.toInt < k.toInt := hrest ▸ List.mem_cons_self
    exact of_decide_eq_true (List.mem_filter.1 hmem).2
  unfold lastBelow
  congr 1
  refine List.filter_congr fun k hk => decide_eq_decide.2 ⟨fun hlt => ?_, fun hlt =>
    hlt.trans habove⟩
  by_contra hnot
  have hgt : key.toInt < k.toInt := by
    refine lt_of_le_of_ne (not_lt.1 hnot) fun heq => hkey ?_
    exact BitVec.eq_of_toInt_eq heq ▸ hk
  have hmem : k ∈ high :: rest := hrest ▸ List.mem_filter.2 ⟨hk, decide_eq_true hgt⟩
  rcases List.mem_cons.1 hmem with rfl | hmem
  · exact lt_irrefl _ hlt
  · exact absurd (hsorted.1 k hmem) (not_lt.2 hlt.le)

/-- The cursor after a search, moved back when it is not before the place already. -/
def cursorBefore (before : Bool) (key : BitVec 64) : Option (BitVec 64) :=
  let (cursor, res) := sqlite3BtreeMovetoUnpacked t before key
  if res ≥ 0 then sqlite3BtreePrevious t cursor else cursor

/-- **Where the search ends does not matter** to the row that the cursor is moved to. -/
theorem cursorBefore_eq (before : Bool) (key : BitVec 64) :
    cursorBefore t before key = lastBelow t key := by
  unfold cursorBefore sqlite3BtreeMovetoUnpacked
  by_cases hkey : key ∈ t.keys
  · rw [if_pos hkey]
    rfl
  · rw [if_neg hkey]
    have hhigh : ∀ high, firstAbove t key = some high → lastBelow t high = lastBelow t key :=
      fun _ => lastBelow_firstAbove t hkey
    rcases hlow : lastBelow t key with _ | low <;> rcases hfirst : firstAbove t key with _ | high
    · rfl
    · exact (hhigh high hfirst).trans hlow
    · rfl
    · cases before
      · exact (hhigh high hfirst).trans hlow
      · rfl

end Cursor

section NewRowid

/-- The errors of the opcode. -/
inductive RowIdError
  | perm
  | full
  deriving DecidableEq, Repr

/-- What the opcode reads of the pager: the id of this node with its mode (`this_node`), and which
log the pager reads. -/
structure RowIdPager where
  useBlockchain : Bool
  thisNode : Option (BitVec 32 × Bool)
  isWorker : Bool
  deriving DecidableEq, Repr

/-- What the opcode reads of the connection and of the statement: `nodeId` is the node that sent
the command, and less than 0 for the statements of the library itself. -/
structure RowIdContext where
  pPager : Option RowIdPager
  nodeId : BitVec 32
  useNormalRowids : Bool
  deriving DecidableEq, Repr

/-- Where the new id comes from. -/
inductive RowIdSource
  | node (nodeId : BitVec 32)
  | normal
  | denied
  deriving DecidableEq, Repr

/-- The choice that the opcode makes. -/
def rowIdSource (ctx : RowIdContext) : RowIdSource :=
  match ctx.pPager with
  | none => .normal
  | some pager =>
    match pager.useBlockchain, pager.thisNode with
    | true, some (id, false) =>
      let nodeId := if pager.isWorker then ctx.nodeId else id
      if pager.isWorker ∧ nodeId.toInt < 0 then .normal
      else if nodeId = 0 ∧ ctx.useNormalRowids then .normal
      else if nodeId.toInt ≤ 0 then .denied
      else .node nodeId
    | _, _ => .normal

/-- The statement of a node, executed on this node (`me`) from its local log and elsewhere from
the log of the others. -/
def contextOn (me i : BitVec 32) : RowIdContext :=
  { pPager := some { useBlockchain := true, thisNode := some (me, false), isWorker := i != me }
    nodeId := i
    useNormalRowids := false }

/-- The id in the range of a node that comes after the row of the cursor. -/
def idAfter (nodeId : BitVec 32) : Option (BitVec 64) → Except RowIdError (BitVec 64)
  | none => .ok (aergoliteBuildRowId nodeId 1)
  | some key =>
    if aergoliteNodeIdFromRowId key = nodeId then
      if aergoliteSeqFromRowId key = 0xFFFFFFFF#32 then .error .full
      else .ok (aergoliteBuildRowId nodeId (aergoliteSeqFromRowId key + 1))
    else .ok (aergoliteBuildRowId nodeId 1)

/-- The new id of a node, one after the last row before the range of the next node. -/
def nodeRowid (t : TableRows D) (before : Bool) (nodeId : BitVec 32) :
    Except RowIdError (BitVec 64) :=
  idAfter nodeId (cursorBefore t before (aergoliteBuildRowId (nodeId + 1) 0))

/-- `MAX_ROWID` -/
def maxRowid : BitVec 64 := 0x7FFFFFFFFFFFFFFF#64

/-- The normal row id, one after the last row.  At the end of the range there is none, and the
cursor is set to pick one (`useRandomRowid`). -/
def normalRowid (t : TableRows D) : Option (BitVec 64) :=
  match t.keys.getLast? with
  | none => some 1
  | some v => if v = maxRowid then none else some (v + 1)

/-- The loop that picks a row id, with the tries that are left.  On a blockchain the nodes have to
pick the same one, so the candidates are the numbers from the count of the rows on; else they are
random. -/
def pickRowid (useBlockchain : Bool) (random : ℕ → BitVec 64) (t : TableRows D) :
    ℕ → BitVec 64 → Except RowIdError (BitVec 64)
  | 0, _ => .error .full
  | tries + 1, v =>
    if useBlockchain ∧ v = maxRowid then .error .full
    else
      let candidate :=
        if useBlockchain then v + 1 else (random tries &&& (maxRowid >>> 1)) + 1
      if candidate ∈ t.keys then pickRowid useBlockchain random t tries candidate
      else .ok candidate

/-- `v` when the register of `AUTOINCREMENT` (`P3`) is not used or on a blockchain; else no less
than what comes after the register. -/
def autoincrement (useBlockchain : Bool) (p3 : Option (BitVec 64)) (v : Option (BitVec 64)) :
    Except RowIdError (Option (BitVec 64)) :=
  match p3, useBlockchain with
  | some register, false =>
    match v with
    | none => .error .full
    | some v =>
      if register = maxRowid then .error .full
      else .ok (some (if v.toInt < (register + 1).toInt then register + 1 else v))
  | _, _ => .ok v

/-- The id that comes of the rows at hand, before the register of `AUTOINCREMENT`. -/
def rowIdCandidate (ctx : RowIdContext) (before useRandomRowid : Bool) (t : TableRows D) :
    Except RowIdError (Option (BitVec 64)) :=
  if useRandomRowid then .ok none
  else
    match rowIdSource ctx with
    | .node nodeId => (nodeRowid t before nodeId).map some
    | .normal => .ok (normalRowid t)
    | .denied => .error .perm

/-- `pPager && pPager->useBlockchain` -/
def RowIdContext.useBlockchain (ctx : RowIdContext) : Bool :=
  (ctx.pPager.map RowIdPager.useBlockchain).getD false

/-- `OP_NewRowid`.  `before` tells where the search of the cursor ends, `useRandomRowid` whether
an earlier row of the statement came to the end of the range. -/
def newRowid (ctx : RowIdContext) (before : Bool) (random : ℕ → BitVec 64)
    (p3 : Option (BitVec 64)) (useRandomRowid : Bool) (t : TableRows D) :
    Except RowIdError (BitVec 64) :=
  match rowIdCandidate ctx before useRandomRowid t with
  | .error e => .error e
  | .ok candidate =>
    match autoincrement ctx.useBlockchain p3 candidate with
    | .error e => .error e
    | .ok (some v) => .ok v
    | .ok none =>
      pickRowid ctx.useBlockchain random t 100
        (if ctx.useBlockchain then BitVec.ofNat 64 t.keys.length else 0)

end NewRowid

section Range

/-- The rows in the range of a node. -/
def TableRows.own (nodeId : BitVec 32) (t : TableRows D) : TableRows D :=
  t.filter fun key => aergoliteNodeIdFromRowId key = nodeId

theorem TableRows.mem_own {nodeId : BitVec 32} {t : TableRows D} {row : BitVec 64 × D} :
    row ∈ (t.own nodeId).rows ↔ row ∈ t.rows ∧ aergoliteNodeIdFromRowId row.1 = nodeId := by
  unfold TableRows.own
  rw [TableRows.mem_filter, decide_eq_true_eq]

theorem TableRows.mem_keys_own {nodeId : BitVec 32} {t : TableRows D} {key : BitVec 64} :
    key ∈ (t.own nodeId).keys ↔ key ∈ t.keys ∧ aergoliteNodeIdFromRowId key = nodeId := by
  unfold TableRows.own
  rw [TableRows.keys_filter, List.mem_filter, decide_eq_true_eq]

theorem toInt_succ {w : ℕ} (hw : 1 < w) {v : BitVec w} (h : v.toNat + 1 ≠ 2 ^ (w - 1)) :
    (v + 1).toInt = v.toInt + 1 := by
  have hpow : 2 ^ w = 2 * 2 ^ (w - 1) := by
    rw [← Nat.pow_succ', Nat.succ_eq_add_one, Nat.sub_add_cancel hw.le]
  have hhalf : 2 ≤ 2 ^ (w - 1) := Nat.le_self_pow (by omega) 2
  have hlt := v.isLt
  have hone : (1 : BitVec w).toNat = 1 := BitVec.toNat_one (by omega)
  rw [BitVec.toInt_eq_toNat_cond, BitVec.toInt_eq_toNat_cond, BitVec.toNat_add, hone]
  by_cases hend : v.toNat + 1 = 2 ^ w
  · rw [hend, Nat.mod_self]
    split_ifs <;> omega
  · rw [Nat.mod_eq_of_lt (by omega)]
    split_ifs <;> omega

/-- The id where the range of the next node starts. -/
theorem lt_next_range {nodeId : BitVec 32} (hmax : nodeId ≠ 0x7FFFFFFF#32) (key : BitVec 64) :
    key.toInt < (aergoliteBuildRowId (nodeId + 1) 0).toInt ↔
      (aergoliteNodeIdFromRowId key).toInt ≤ nodeId.toInt := by
  have hseq := (aergoliteSeqFromRowId key).isLt
  have hzero : (0 : BitVec 32).toNat = 0 := rfl
  have hne : nodeId.toNat + 1 ≠ 2 ^ (32 - 1) := fun heq =>
    hmax (BitVec.eq_of_toNat_eq (Nat.succ.inj heq))
  rw [toInt_build, toInt_rowId key, toInt_succ (by decide) hne, hzero]
  omega

/-- **The new id of a node comes after its own last row**, wherever the search ends. -/
theorem nodeRowid_eq (t : TableRows D) (before : Bool) {nodeId : BitVec 32}
    (hmax : nodeId ≠ 0x7FFFFFFF#32) :
    nodeRowid t before nodeId = idAfter nodeId (t.own nodeId).keys.getLast? := by
  have hown : (t.own nodeId).keys =
      (t.keys.filter fun k => k.toInt < (aergoliteBuildRowId (nodeId + 1) 0).toInt).filter
        fun k => aergoliteNodeIdFromRowId k = nodeId := by
    unfold TableRows.own
    rw [TableRows.keys_filter, List.filter_filter]
    refine List.filter_congr fun k _ => ?_
    by_cases hk : aergoliteNodeIdFromRowId k = nodeId
    · have hlt := (lt_next_range hmax k).2 (hk ▸ le_refl _)
      rw [decide_eq_true hk, decide_eq_true hlt]
      rfl
    · rw [decide_eq_false hk]
      rfl
  have hsorted := t.keys_sorted.filter fun k =>
    decide (k.toInt < (aergoliteBuildRowId (nodeId + 1) 0).toInt)
  have hbelow : ∀ k ∈ t.keys.filter fun k =>
      decide (k.toInt < (aergoliteBuildRowId (nodeId + 1) 0).toInt),
      (aergoliteNodeIdFromRowId k).toInt ≤ nodeId.toInt := fun k hk =>
    (lt_next_range hmax k).1 (of_decide_eq_true (List.mem_filter.1 hk).2)
  unfold nodeRowid
  rw [cursorBefore_eq, hown]
  unfold lastBelow
  generalize t.keys.filter (fun k =>
    decide (k.toInt < (aergoliteBuildRowId (nodeId + 1) 0).toInt)) = low at hsorted hbelow ⊢
  rcases List.eq_nil_or_concat low with rfl | ⟨init, key, rfl⟩
  · rfl
  · rw [List.concat_eq_append] at hsorted hbelow ⊢
    rw [List.getLast?_concat, List.filter_append]
    by_cases hk : aergoliteNodeIdFromRowId key = nodeId
    · have hkeep : [key].filter (fun k => aergoliteNodeIdFromRowId k = nodeId) = [key] :=
        List.filter_cons_of_pos (decide_eq_true hk)
      rw [hkeep, List.getLast?_concat]
    · -- the last row before the next range is of a node before this one, and so are the others
      have hlt : (aergoliteNodeIdFromRowId key).toInt < nodeId.toInt :=
        lt_of_le_of_ne (hbelow key (List.mem_append_right _ List.mem_cons_self)) fun heq =>
          hk (BitVec.eq_of_toInt_eq heq)
      have hnone : (init.filter fun k => aergoliteNodeIdFromRowId k = nodeId) = [] := by
        refine List.filter_eq_nil_iff.2 fun k hmem heq => ?_
        have hkey := (List.pairwise_append.1 hsorted).2.2 k hmem key List.mem_cons_self
        have hseq := (aergoliteSeqFromRowId key).isLt
        rw [toInt_rowId k, toInt_rowId key, of_decide_eq_true heq] at hkey
        omega
      have hdrop : [key].filter (fun k => aergoliteNodeIdFromRowId k = nodeId) = [] :=
        List.filter_cons_of_neg fun heq => hk (of_decide_eq_true heq)
      rw [hdrop, hnone]
      exact if_neg hk

/-- The id that `idAfter` gives is in the range of the node. -/
theorem nodeId_idAfter {nodeId : BitVec 32} {last : Option (BitVec 64)} {v : BitVec 64}
    (h : idAfter nodeId last = .ok v) : aergoliteNodeIdFromRowId v = nodeId := by
  unfold idAfter at h
  split at h
  · cases h
    exact nodeId_build _ _
  · split_ifs at h
    · cases h
      exact nodeId_build _ _
    · cases h
      exact nodeId_build _ _

/-- The id after a row of the node comes after this row. -/
theorem lt_idAfter {nodeId : BitVec 32} {key v : BitVec 64}
    (hkey : aergoliteNodeIdFromRowId key = nodeId) (h : idAfter nodeId (some key) = .ok v) :
    key.toInt < v.toInt := by
  unfold idAfter at h
  dsimp only at h
  rw [if_pos hkey] at h
  split_ifs at h with hfull
  cases h
  have hne : (aergoliteSeqFromRowId key).toNat ≠ 4294967295 := fun heq =>
    hfull (BitVec.eq_of_toNat_eq heq)
  have hlt := (aergoliteSeqFromRowId key).isLt
  have hseq : (aergoliteSeqFromRowId key + 1).toNat = (aergoliteSeqFromRowId key).toNat + 1 := by
    have hone : (1 : BitVec 32).toNat = 1 := rfl
    rw [BitVec.toNat_add, hone]
    omega
  rw [toInt_build, toInt_rowId key, hkey, hseq]
  omega

/-- The last key is the largest. -/
theorem le_getLast {t : TableRows D} {key k : BitVec 64} (hlast : t.keys.getLast? = some key)
    (hk : k ∈ t.keys) : k.toInt ≤ key.toInt := by
  have hsorted := t.keys_sorted
  obtain ⟨init, hinit⟩ := List.getLast?_eq_some_iff.1 hlast
  rw [hinit] at hsorted hk
  rcases List.mem_append.1 hk with hmem | hmem
  · exact ((List.pairwise_append.1 hsorted).2.2 k hmem key List.mem_cons_self).le
  · rw [List.mem_singleton.1 hmem]

/-- **The new id of a node is in its range, after all its rows there.** -/
theorem nodeRowid_spec {t : TableRows D} {before : Bool} {nodeId : BitVec 32} {v : BitVec 64}
    (hmax : nodeId ≠ 0x7FFFFFFF#32) (h : nodeRowid t before nodeId = .ok v) :
    aergoliteNodeIdFromRowId v = nodeId ∧ ∀ k ∈ (t.own nodeId).keys, k.toInt < v.toInt := by
  rw [nodeRowid_eq t before hmax] at h
  refine ⟨nodeId_idAfter h, fun k hk => ?_⟩
  rcases hlast : (t.own nodeId).keys.getLast? with _ | key
  · rw [List.getLast?_eq_none_iff] at hlast
    exact absurd (hlast ▸ hk) List.not_mem_nil
  · rw [hlast] at h
    have hmem := List.mem_of_getLast? hlast
    exact (le_getLast hlast hk).trans_lt (lt_idAfter (TableRows.mem_keys_own.1 hmem).2 h)

end Range

section Fresh

theorem normalRowid_above {t : TableRows D} {v : BitVec 64} (h : normalRowid t = some v) :
    ∀ k ∈ t.keys, k.toInt < v.toInt := by
  intro k hk
  unfold normalRowid at h
  rcases hlast : t.keys.getLast? with _ | key
  · rw [List.getLast?_eq_none_iff] at hlast
    exact absurd (hlast ▸ hk) List.not_mem_nil
  · rw [hlast] at h
    dsimp only at h
    split_ifs at h with hmax
    cases h
    have hne : key.toNat + 1 ≠ 2 ^ (64 - 1) := fun heq =>
      hmax (BitVec.eq_of_toNat_eq (Nat.succ.inj heq))
    rw [toInt_succ (by decide) hne]
    exact (le_getLast hlast hk).trans_lt (Int.lt_succ _)

/-- The register of `AUTOINCREMENT` only moves an id up, and not at all on a blockchain. -/
theorem autoincrement_le {useBlockchain : Bool} {p3 c : Option (BitVec 64)} {v : BitVec 64}
    (h : autoincrement useBlockchain p3 c = .ok (some v)) :
    ∃ w, c = some w ∧ w.toInt ≤ v.toInt ∧ (useBlockchain = true → w = v) := by
  unfold autoincrement at h
  split at h
  · split at h
    · cases h
    · rename_i w
      split_ifs at h with hmax hlt
      · cases h
        exact ⟨w, rfl, hlt.le, fun h => absurd h Bool.false_ne_true⟩
      · cases h
        exact ⟨_, rfl, le_refl _, fun _ => rfl⟩
  · cases h
    exact ⟨v, rfl, le_refl _, fun _ => rfl⟩

/-- A picked id is one that the cursor did not find. -/
theorem pickRowid_not_mem {useBlockchain : Bool} {random : ℕ → BitVec 64} {t : TableRows D}
    {tries : ℕ} {start v : BitVec 64} (h : pickRowid useBlockchain random t tries start = .ok v) :
    v ∉ t.keys := by
  induction tries generalizing start with
  | zero => cases h
  | succ tries ih =>
      unfold pickRowid at h
      dsimp only at h
      by_cases hend : useBlockchain = true ∧ start = maxRowid
      · rw [if_pos hend] at h
        cases h
      · rw [if_neg hend] at h
        generalize (if useBlockchain = true then start + 1
          else (random tries &&& maxRowid >>> 1) + 1) = candidate at h
        by_cases hmem : candidate ∈ t.keys
        · rw [if_pos hmem] at h
          exact ih h
        · rw [if_neg hmem] at h
          exact Except.ok.inj h ▸ hmem

/-- The id of a node is only asked for on a blockchain. -/
theorem useBlockchain_of_node {ctx : RowIdContext} {nodeId : BitVec 32}
    (h : rowIdSource ctx = .node nodeId) : ctx.useBlockchain = true := by
  unfold rowIdSource at h
  unfold RowIdContext.useBlockchain
  rcases hpager : ctx.pPager with _ | pager
  · rw [hpager] at h
    cases h
  · rw [hpager] at h
    cases hb : pager.useBlockchain with
    | true => exact hb
    | false =>
      dsimp only at h
      rw [hb] at h
      cases h

/-- What an id that comes of the rows at hand is. -/
theorem rowIdCandidate_cases {ctx : RowIdContext} {before useRandomRowid : Bool}
    {t : TableRows D} {w : BitVec 64}
    (h : rowIdCandidate ctx before useRandomRowid t = .ok (some w)) :
    (∃ nodeId, rowIdSource ctx = .node nodeId ∧ nodeRowid t before nodeId = .ok w) ∨
      normalRowid t = some w := by
  unfold rowIdCandidate at h
  split_ifs at h
  · cases h
  · rcases hsource : rowIdSource ctx with nodeId | _ | _ <;> rw [hsource] at h <;> dsimp only at h
    · rcases hnode : nodeRowid t before nodeId with e | w' <;> rw [hnode] at h <;> cases h
      exact Or.inl ⟨nodeId, rfl, hnode⟩
    · exact Or.inr (Except.ok.inj h)
    · cases h

/-- **A new row id is not the id of a row**, whichever way it comes about. -/
theorem newRowid_fresh {ctx : RowIdContext} {before : Bool} {random : ℕ → BitVec 64}
    {p3 : Option (BitVec 64)} {useRandomRowid : Bool} {t : TableRows D} {v : BitVec 64}
    (hmax : rowIdSource ctx ≠ .node 0x7FFFFFFF#32)
    (h : newRowid ctx before random p3 useRandomRowid t = .ok v) : v ∉ t.keys := by
  unfold newRowid at h
  rcases hcandidate : rowIdCandidate ctx before useRandomRowid t with e | candidate <;>
    rw [hcandidate] at h <;> dsimp only at h
  · cases h
  rcases hauto : autoincrement ctx.useBlockchain p3 candidate with e | _ | w <;>
    rw [hauto] at h <;> dsimp only at h
  · cases h
  · exact pickRowid_not_mem h
  · cases h
    intro hmem
    obtain ⟨w, rfl, hle, hsame⟩ := autoincrement_le hauto
    rcases rowIdCandidate_cases hcandidate with ⟨nodeId, hsource, hnode⟩ | hnormal
    · -- the register is not used on a blockchain
      obtain rfl := hsame (useBlockchain_of_node hsource)
      have hid : nodeId ≠ 0x7FFFFFFF#32 := fun heq => hmax (hsource.trans (congrArg _ heq))
      obtain ⟨hown, habove⟩ := nodeRowid_spec hid hnode
      exact lt_irrefl _ (habove w (TableRows.mem_keys_own.2 ⟨hmem, hown⟩))
    · exact absurd (normalRowid_above hnormal v hmem) (not_lt.2 hle)

/-- The new row of node 9 comes after its own row, before that of node 12. -/
theorem newRowid_fresh_node :
    aergoliteBuildRowId 9 5 ∉
      (TableRows.mk [(aergoliteBuildRowId 9 4, 0), (aergoliteBuildRowId 12 1, 1)]
        (by decide)).keys := by
  have hrun : newRowid (contextOn 7 9) false (fun _ => 0) none false
      (TableRows.mk [(aergoliteBuildRowId 9 4, 0), (aergoliteBuildRowId 12 1, 1)] (by decide)) =
      .ok (aergoliteBuildRowId 9 5) := by decide +kernel
  exact newRowid_fresh (by decide) hrun

end Fresh

section Interleaving

/-- What a statement of a node does with a table: it inserts a row under a new id, writes one
under an id that the statement has, or deletes one. -/
inductive RowOperation (D : Type)
  | insertNew (data : D)
  | insert (key : BitVec 64) (data : D)
  | delete (key : BitVec 64)
  deriving DecidableEq, Repr

/-- What the statement comes to know of it: the id of the new row, or whether there was a row
(`OP_NotExists`). -/
inductive RowResult
  | inserted (key : BitVec 64)
  | failed (e : RowIdError)
  | found (row : Bool)
  deriving DecidableEq, Repr

/-- What is met with on the way, and differs from node to node: where a search ends in the tree,
the register of `AUTOINCREMENT`, and random numbers. -/
structure Surroundings where
  before : Bool
  p3 : Option (BitVec 64)
  random : ℕ → BitVec 64

/-- An operation on the table. -/
def applyRow (ctx : RowIdContext) (around : Surroundings) (t : TableRows D) :
    RowOperation D → RowResult × TableRows D
  | .insertNew data =>
    match newRowid ctx around.before around.random around.p3 false t with
    | .ok v => (.inserted v, t.sqlite3BtreeInsert v data)
    | .error e => (.failed e, t)
  | .insert key data => (.found (key ∈ t.keys), t.sqlite3BtreeInsert key data)
  | .delete key => (.found (key ∈ t.keys), t.sqlite3BtreeDelete key)

/-- The table of one node, with what is met with from now on. -/
structure NodeTable (D : Type) where
  rows : TableRows D
  around : ℕ → Surroundings

/-- A node executes an operation of node `i`, with the pager and the statement that `ctx` gives
for this. -/
def executeRow (ctx : BitVec 32 → RowIdContext) (i : BitVec 32) (op : RowOperation D)
    (s : NodeTable D) : RowResult × NodeTable D :=
  let (result, rows) := applyRow (ctx i) (s.around 0) s.rows op
  (result, { rows, around := fun n => s.around (n + 1) })

/-- An operation of a node that keeps to the range of this node. -/
def RowOperation.InRange (i : BitVec 32) : RowOperation D → Prop
  | .insertNew _ => i ≠ 0x7FFFFFFF#32
  | .insert key _ => aergoliteNodeIdFromRowId key = i
  | .delete key => aergoliteNodeIdFromRowId key = i

/-- The operation on the rows of the node alone. -/
def applyOwn (i : BitVec 32) (op : RowOperation D) (t : TableRows D) :
    RowResult × TableRows D :=
  match op with
  | .insertNew data =>
    match idAfter i t.keys.getLast? with
    | .ok v => (.inserted v, t.sqlite3BtreeInsert v data)
    | .error e => (.failed e, t)
  | .insert key data => (.found (key ∈ t.keys), t.sqlite3BtreeInsert key data)
  | .delete key => (.found (key ∈ t.keys), t.sqlite3BtreeDelete key)

theorem own_insert_self {i : BitVec 32} {key : BitVec 64} (h : aergoliteNodeIdFromRowId key = i)
    (t : TableRows D) (data : D) :
    (t.sqlite3BtreeInsert key data).own i = (t.own i).sqlite3BtreeInsert key data := by
  refine TableRows.ext_mem fun row => ?_
  rw [TableRows.mem_own, TableRows.mem_insert, TableRows.mem_insert, TableRows.mem_own]
  constructor
  · rintro ⟨rfl | ⟨hne, hmem⟩, hid⟩
    · exact Or.inl rfl
    · exact Or.inr ⟨hne, hmem, hid⟩
  · rintro (rfl | ⟨hne, hmem, hid⟩)
    · exact ⟨Or.inl rfl, h⟩
    · exact ⟨Or.inr ⟨hne, hmem⟩, hid⟩

theorem own_insert_other {i j : BitVec 32} {key : BitVec 64}
    (h : aergoliteNodeIdFromRowId key = i) (hij : j ≠ i) (t : TableRows D) (data : D) :
    (t.sqlite3BtreeInsert key data).own j = t.own j := by
  refine TableRows.ext_mem fun row => ?_
  rw [TableRows.mem_own, TableRows.mem_insert, TableRows.mem_own]
  constructor
  · rintro ⟨rfl | ⟨-, hmem⟩, hid⟩
    · exact absurd (hid.symm.trans h) hij
    · exact ⟨hmem, hid⟩
  · rintro ⟨hmem, hid⟩
    refine ⟨Or.inr ⟨fun heq => hij ?_, hmem⟩, hid⟩
    rw [← hid, heq, h]

theorem mem_delete {t : TableRows D} {key : BitVec 64} {row : BitVec 64 × D} :
    row ∈ (t.sqlite3BtreeDelete key).rows ↔ row ∈ t.rows ∧ row.1 ≠ key := by
  unfold TableRows.sqlite3BtreeDelete
  rw [TableRows.mem_filter, bne_iff_ne]

theorem own_delete_self (i : BitVec 32) (key : BitVec 64) (t : TableRows D) :
    (t.sqlite3BtreeDelete key).own i = (t.own i).sqlite3BtreeDelete key := by
  refine TableRows.ext_mem fun row => ?_
  rw [TableRows.mem_own, mem_delete, mem_delete, TableRows.mem_own]
  exact and_right_comm

theorem own_delete_other {i j : BitVec 32} {key : BitVec 64}
    (h : aergoliteNodeIdFromRowId key = i) (hij : j ≠ i) (t : TableRows D) :
    (t.sqlite3BtreeDelete key).own j = t.own j := by
  refine TableRows.ext_mem fun row => ?_
  rw [TableRows.mem_own, mem_delete, TableRows.mem_own]
  constructor
  · rintro ⟨⟨hmem, -⟩, hid⟩
    exact ⟨hmem, hid⟩
  · rintro ⟨hmem, hid⟩
    refine ⟨⟨hmem, fun heq => hij ?_⟩, hid⟩
    rw [← hid, heq, h]

theorem found_own {i : BitVec 32} {key : BitVec 64} (h : aergoliteNodeIdFromRowId key = i)
    (t : TableRows D) : (decide (key ∈ t.keys)) = decide (key ∈ (t.own i).keys) :=
  decide_eq_decide.2 ⟨fun hmem => TableRows.mem_keys_own.2 ⟨hmem, h⟩, fun hmem =>
    (TableRows.mem_keys_own.1 hmem).1⟩

/-- On a blockchain neither the register nor random numbers have a part in the id of a node. -/
theorem newRowid_node {ctx : RowIdContext} {i : BitVec 32} (hctx : rowIdSource ctx = .node i)
    (hmax : i ≠ 0x7FFFFFFF#32) (around : Surroundings) (t : TableRows D) :
    newRowid ctx around.before around.random around.p3 false t =
      idAfter i (t.own i).keys.getLast? := by
  have hblockchain := useBlockchain_of_node hctx
  unfold newRowid rowIdCandidate
  rw [hctx, hblockchain]
  dsimp only
  rw [if_neg Bool.false_ne_true, nodeRowid_eq t around.before hmax]
  rcases idAfter i (t.own i).keys.getLast? with e | v
  · rfl
  · unfold autoincrement
    cases around.p3 <;> rfl

/-- The statement is of node `i`: the log of the other nodes is read and the command comes from
node `i`, or the local log is read and this node is node `i`. -/
def RowIdContext.IsOf (ctx : RowIdContext) (i : BitVec 32) : Prop :=
  ∃ pager id, ctx.pPager = some pager ∧ pager.useBlockchain = true ∧
    pager.thisNode = some (id, false) ∧ (if pager.isWorker then ctx.nodeId else id) = i

theorem RowIdContext.IsOf.source {ctx : RowIdContext} {i : BitVec 32} (h : ctx.IsOf i)
    (hpos : 0 < i.toInt) : rowIdSource ctx = .node i := by
  obtain ⟨pager, id, hpager, hblockchain, hnode, hi⟩ := h
  have hne : i ≠ 0 := by
    rintro rfl
    exact lt_irrefl _ hpos
  unfold rowIdSource
  rw [hpager]
  dsimp only
  rw [hblockchain, hnode]
  dsimp only
  rw [hi, if_neg fun h => absurd h.2 (not_lt.2 hpos.le), if_neg fun h => hne h.1,
    if_neg (not_le.2 hpos)]

/-- An operation of a node with an id, in its range. -/
def ValidRow (i : BitVec 32) (op : RowOperation D) : Prop := 0 < i.toInt ∧ op.InRange i

/-- **An operation of a node is confined to its range.** -/
theorem confined_executeRow {ctx : BitVec 32 → RowIdContext} (hctx : ∀ i, (ctx i).IsOf i) :
    Partition.Confined (fun i (s : NodeTable D) => s.rows.own i) applyOwn (executeRow ctx)
      ValidRow where
  result := by
    rintro i op ⟨hpos, hrange⟩ s
    unfold executeRow applyRow applyOwn
    cases op with
    | insertNew data =>
      dsimp only
      rw [newRowid_node ((hctx i).source hpos) hrange]
      cases idAfter i (s.rows.own i).keys.getLast? <;> rfl
    | insert key data => exact congrArg RowResult.found (found_own hrange s.rows)
    | delete key => exact congrArg RowResult.found (found_own hrange s.rows)
  own_self := by
    rintro i op ⟨hpos, hrange⟩ s
    unfold executeRow applyRow applyOwn
    cases op with
    | insertNew data =>
      dsimp only
      rw [newRowid_node ((hctx i).source hpos) hrange]
      rcases hid : idAfter i (s.rows.own i).keys.getLast? with e | v
      · rfl
      · exact own_insert_self (nodeId_idAfter hid) s.rows data
    | insert key data => exact own_insert_self hrange s.rows data
    | delete key => exact own_delete_self i key s.rows
  own_other := by
    rintro i j op ⟨hpos, hrange⟩ hij s
    unfold executeRow applyRow
    cases op with
    | insertNew data =>
      dsimp only
      rw [newRowid_node ((hctx i).source hpos) hrange]
      rcases hid : idAfter i (s.rows.own i).keys.getLast? with e | v
      · rfl
      · exact own_insert_other (nodeId_idAfter hid) hij s.rows data
    | insert key data => exact own_insert_other hrange hij s.rows data
    | delete key => exact own_delete_other hrange hij s.rows

/-- A table is what its nodes have in it. -/
theorem eq_of_own {t u : TableRows D} (h : ∀ i, t.own i = u.own i) : t = u := by
  have hsub : ∀ {t u : TableRows D}, (∀ i, t.own i = u.own i) → ∀ row ∈ t.rows, row ∈ u.rows := by
    intro t u h row hrow
    have hmem : row ∈ (t.own (aergoliteNodeIdFromRowId row.1)).rows :=
      TableRows.mem_own.2 ⟨hrow, rfl⟩
    rw [h] at hmem
    exact (TableRows.mem_own.1 hmem).1
  exact TableRows.ext_mem fun row => ⟨hsub h row, hsub (fun i => (h i).symm) row⟩

/-- **Nodes that execute the same statements in different orders have the same table**, and have
given the rows the same ids: the statements of each node come in one order everywhere, and they
keep to its range. -/
theorem interleaved_rows_agree {ctx ctx' : BitVec 32 → RowIdContext} (hctx : ∀ i, (ctx i).IsOf i)
    (hctx' : ∀ i, (ctx' i).IsOf i) {ops ops' : List (BitVec 32 × RowOperation D)}
    (hvalid : ∀ op ∈ ops, ValidRow op.1 op.2)
    (hsame : ∀ i, Partition.of i ops = Partition.of i ops') {s s' : NodeTable D}
    (hrows : s.rows = s'.rows) :
    (Partition.run (executeRow ctx) ops s).2.rows =
        (Partition.run (executeRow ctx') ops' s').2.rows ∧
      ∀ i, Partition.of i (Partition.run (executeRow ctx) ops s).1 =
        Partition.of i (Partition.run (executeRow ctx') ops' s').1 := by
  have hown : ∀ i, s.rows.own i = s'.rows.own i := fun i => congrArg (TableRows.own i) hrows
  have hagree := (confined_executeRow hctx).interleave (confined_executeRow hctx') hvalid hsame hown
  exact ⟨eq_of_own fun i => (hagree i).2, fun i => (hagree i).1⟩

theorem contextOn_isOf (me i : BitVec 32) : (contextOn me i).IsOf i := by
  refine ⟨_, me, rfl, rfl, rfl, ?_⟩
  by_cases h : i = me
  · rw [if_neg (by rw [bne_iff_ne]; exact not_not.2 h), h]
  · rw [if_pos (bne_iff_ne.2 h)]
    rfl

/-- Two nodes insert in the same table; each has its own row first. -/
theorem interleaved_rows_agree_two_nodes :
    (Partition.run (executeRow (contextOn 1)) [(1, .insertNew 10), (2, .insertNew 20)]
        { rows := ⟨[], List.Pairwise.nil⟩
          around := fun _ => { before := true, p3 := none, random := fun _ => 0 } }).2.rows =
      (Partition.run (executeRow (contextOn 2)) [(2, .insertNew 20), (1, .insertNew 10)]
        { rows := ⟨[], List.Pairwise.nil⟩
          around := fun _ => { before := false, p3 := some 5, random := fun _ => 3 } }).2.rows := by
  refine (interleaved_rows_agree (contextOn_isOf 1) (contextOn_isOf 2) ?_ ?_ ?_).1
  · intro op hop
    rcases List.mem_cons.1 hop with rfl | hop
    · exact ⟨by decide, fun h => absurd h (by decide)⟩
    · rw [List.mem_singleton.1 hop]
      exact ⟨by decide, fun h => absurd h (by decide)⟩
  · intro i
    by_cases h1 : i = 1
    · rw [h1]
      rfl
    · rw [Partition.of_cons_other (Ne.symm h1)]
      by_cases h2 : i = 2
      · rw [h2]
        rfl
      · rw [Partition.of_cons_other (Ne.symm h2), Partition.of_cons_other (Ne.symm h2),
          Partition.of_cons_other (Ne.symm h1)]
  · rfl

end Interleaving

end Core
end AergoLite
