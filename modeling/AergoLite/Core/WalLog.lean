/-
# The transaction log in the WAL file

A local transaction is saved in the WAL file with the pages it modified: `walWriteLogFrames`
(`core/sqlite3.c`) writes its log into frames of their own, after the frames of the pages, as
many bytes to a frame as a page has without its reserved bytes.  The first frame has the page
number `LOG_TRANSACTION`, the others the number before it.

`aergoliteReadWal` reads a log from its first frame on, and `aergoliteIterateWal` calls a
function with every log of the file, forward or backward.  Forward, it goes on after the number
of frames that `aergoliteReadWal` returns, which is one too many for a log of several frames
where pages have reserved bytes: it is the number of blocks of memory for the frames.
-/

import AergoLite.Core.Basic
import Mathlib.Algebra.Order.Group.Nat
import Mathlib.Data.List.Chain

namespace AergoLite
namespace Core

/-- The sizes of a database: a page has at least 480 usable bytes. -/
structure PageFormat where
  pageSize : ℕ
  nReserve : ℕ
  usable : nReserve + 480 ≤ pageSize

/-- `block_size`. -/
def PageFormat.blockSize (f : PageFormat) : ℕ := f.pageSize - f.nReserve

/-- A frame of the WAL file. -/
structure Frame where
  pgno : ℕ
  data : Bytes
  deriving DecidableEq, Repr

/-- `LOG_TRANSACTION`. -/
def logTransaction : ℕ := 0xFFFFFFFF

/-- `binn_size` and `binn_open`, of a block of memory. -/
structure BinnReader where
  binnSize : Bytes → ℕ
  binnOpen : Bytes → Bool

/-! ## Writing -/

/-- What is left of the page is filled with zeros. -/
def PageFormat.fill (f : PageFormat) (data : Bytes) : Bytes :=
  data ++ List.replicate (f.pageSize - data.length) 0

/-- The loop of `walWriteLogFrames`: the frames for what is left of the data. -/
def writeLoop (f : PageFormat) (logPgno : ℕ) : ℕ → ℕ → Bytes → List Frame
  | 0, _, _ => []
  | fuel + 1, pgno, data =>
    ⟨pgno, f.fill (data.take f.blockSize)⟩ ::
      if data.drop f.blockSize = [] then []
      else writeLoop f logPgno fuel (logPgno - 1) (data.drop f.blockSize)

/-- `walWriteLogFrames`: the frames that are appended to the file. -/
def walWriteLogFrames (f : PageFormat) (log : Bytes) (logPgno : ℕ) : Except Rc (List Frame) :=
  if log = [] then .error .error else .ok (writeLoop f logPgno log.length logPgno log)

/-! ## Reading -/

/-- `walReadFrame`; frames are numbered from 1. -/
def walReadFrame (wal : List Frame) (iFrame : ℕ) : Except Rc Bytes :=
  match wal[iFrame - 1]? with
  | some frame => .ok frame.data
  | none => .error .error

/-- The loop of `aergoliteReadWal`: the next frames are read behind the blocks in memory. -/
def readLoop (f : PageFormat) (wal : List Frame) (sz : ℕ) :
    ℕ → ℕ → ℕ → Bytes → Except Rc Bytes
  | 0, _, _, pData => .ok pData
  | fuel + 1, offset, iFrame, pData =>
    if offset < sz then
      match walReadFrame wal (iFrame + 1) with
      | .error rc => .error rc
      | .ok page =>
        readLoop f wal sz fuel (offset + f.blockSize) (iFrame + 1) (pData.take offset ++ page)
    else .ok pData

/-- The number of blocks that are allocated for a log, `nFrames`. -/
def allocatedBlocks (f : PageFormat) (sz : ℕ) : ℕ :=
  if f.blockSize < sz then
    let nFrames := (sz - 1) / f.blockSize + 1
    if f.blockSize < f.pageSize then nFrames + 1 else nFrames
  else 1

/-- `aergoliteReadWal`: the number of frames and the log. -/
def aergoliteReadWal (b : BinnReader) (f : PageFormat) (wal : List Frame) (iFrame : ℕ) :
    Except Rc (ℕ × Bytes) :=
  match walReadFrame wal iFrame with
  | .error rc => .error rc
  | .ok pData =>
    let sz := b.binnSize pData
    if sz = 0 then .error .notfound
    else
      match readLoop f wal sz sz f.blockSize iFrame pData with
      | .error rc => .error rc
      | .ok pData =>
        if !b.binnOpen pData then .error .error
        else .ok (allocatedBlocks f sz, pData.take sz)

/-- What a callback does: it goes on with `ok`, and stops with anything else. -/
abbrev LogCallback (σ : Type) := ℕ → Bytes → σ → Rc × σ

section
variable {σ : Type} (b : BinnReader) (f : PageFormat) (wal : List Frame)
  (callback : LogCallback σ)

/-- The loop of `aergoliteIterateWal`, forward, from a frame on. -/
def iterateForward : ℕ → ℕ → Rc → σ → Rc × σ
  | 0, _, rc, s => (rc, s)
  | fuel + 1, iFrame, rc, s =>
    if wal.length < iFrame then (rc, s)
    else if (wal[iFrame - 1]?).map Frame.pgno = some logTransaction then
      match aergoliteReadWal b f wal iFrame with
      | .error .notfound => iterateForward fuel (iFrame + 1) .notfound s
      | .error rc => (rc, s)
      | .ok (nFrames, log) =>
        let (rc, s) := callback iFrame log s
        if rc ≠ .ok then (rc, s) else iterateForward fuel (iFrame + nFrames) rc s
    else iterateForward fuel (iFrame + 1) rc s

/-- The loop of `aergoliteIterateWal`, backward, from a frame to the first one. -/
def iterateBackward : ℕ → Rc → σ → Rc × σ
  | 0, rc, s => (rc, s)
  | iFrame + 1, rc, s =>
    if (wal[iFrame]?).map Frame.pgno = some logTransaction then
      match aergoliteReadWal b f wal (iFrame + 1) with
      | .error .notfound => iterateBackward iFrame .notfound s
      | .error rc => (rc, s)
      | .ok (_, log) =>
        let (rc, s) := callback (iFrame + 1) log s
        if rc ≠ .ok then (rc, s) else iterateBackward iFrame rc s
    else iterateBackward iFrame rc s

/-- `aergoliteIterateWal`, of a file that has never been checkpointed, for `LOG_TRANSACTION`. -/
def aergoliteIterateWal (forward : Bool) (s : σ) : Rc × σ :=
  if wal = [] then (.empty, s)
  else if forward then iterateForward b f wal callback wal.length 1 .ok s
  else iterateBackward b f wal callback wal.length .ok s

end

/-! ## A log in its frames -/

/-- The block of memory reads as the binn: the first bytes of a binn, at most 9, have its size,
and it is opened where its bytes are. -/
structure BinnReader.Reads (b : BinnReader) (log : Bytes) : Prop where
  size : ∀ more, b.binnSize (log.take 9 ++ more) = log.length
  opens : ∀ more, b.binnOpen (log ++ more) = true

/-- The frames of a log. -/
def logFrames (f : PageFormat) (log : Bytes) : List Frame :=
  writeLoop f logTransaction log.length logTransaction log

/-- The frames that follow the one of the first block. -/
def restFrames (f : PageFormat) (fuel : ℕ) (left : Bytes) : List Frame :=
  if left = [] then [] else writeLoop f logTransaction fuel (logTransaction - 1) left

variable {f : PageFormat}

theorem blockSize_pos (f : PageFormat) : 9 ≤ f.blockSize := by
  have := f.usable
  unfold PageFormat.blockSize
  omega

/-- What is left is shorter by a block. -/
theorem length_left (f : PageFormat) {left : Bytes} {fuel : ℕ} (h : left.length ≤ fuel + 1) :
    (left.drop f.blockSize).length ≤ fuel := by
  have := blockSize_pos f
  rw [List.length_drop]
  omega

theorem restFrames_cons {fuel : ℕ} {left : Bytes} (h : left ≠ []) (hfuel : left.length ≤ fuel) :
    ∃ fuel', left.length ≤ fuel' + 1 ∧ restFrames f fuel left =
      ⟨logTransaction - 1, f.fill (left.take f.blockSize)⟩ ::
        restFrames f fuel' (left.drop f.blockSize) := by
  have hpos := List.length_pos_iff.2 h
  obtain ⟨fuel', rfl⟩ : ∃ fuel', fuel = fuel' + 1 := ⟨fuel - 1, by omega⟩
  refine ⟨fuel', hfuel, ?_⟩
  unfold restFrames
  rw [if_neg h]
  rfl

theorem logFrames_cons {log : Bytes} (h : log ≠ []) :
    ∃ fuel, log.length ≤ fuel + 1 ∧ logFrames f log =
      ⟨logTransaction, f.fill (log.take f.blockSize)⟩ ::
        restFrames f fuel (log.drop f.blockSize) := by
  have hpos := List.length_pos_iff.2 h
  refine ⟨log.length - 1, by omega, ?_⟩
  unfold logFrames
  rw [show log.length = log.length - 1 + 1 by omega]
  rfl

/-- The number of the following frames, and their page number. -/
theorem restFrames_spec {fuel : ℕ} {left : Bytes} (hfuel : left.length ≤ fuel) :
    (restFrames f fuel left).length = (left.length + f.blockSize - 1) / f.blockSize ∧
      ∀ frame ∈ restFrames f fuel left, frame.pgno = logTransaction - 1 := by
  have hblock := blockSize_pos f
  induction fuel using Nat.strong_induction_on generalizing left with
  | _ fuel ih =>
      by_cases hleft : left = []
      · subst hleft
        refine ⟨?_, fun frame hframe => absurd hframe List.not_mem_nil⟩
        rw [List.length_nil, Nat.zero_add, Nat.div_eq_of_lt (by omega)]
        rfl
      · have hpos := List.length_pos_iff.2 hleft
        obtain ⟨fuel', rfl⟩ : ∃ fuel', fuel = fuel' + 1 := ⟨fuel - 1, by omega⟩
        obtain ⟨hlength, hpgno⟩ := ih fuel' (Nat.lt_succ_self _) (length_left f hfuel)
        have hcons : restFrames f (fuel' + 1) left =
            ⟨logTransaction - 1, f.fill (left.take f.blockSize)⟩ ::
              restFrames f fuel' (left.drop f.blockSize) := by
          unfold restFrames
          rw [if_neg hleft]
          rfl
        rw [hcons, List.length_cons, hlength, List.length_drop]
        refine ⟨?_, List.forall_mem_cons.2 ⟨rfl, hpgno⟩⟩
        rcases Nat.le_total left.length f.blockSize with hle | hge
        · rw [Nat.sub_eq_zero_of_le hle, Nat.zero_add, Nat.div_eq_of_lt (by omega)]
          refine (Nat.div_eq_of_lt_le ?_ ?_).symm <;> omega
        · rw [show left.length + f.blockSize - 1 =
            left.length - f.blockSize + f.blockSize - 1 + f.blockSize by omega,
            Nat.add_div_right _ (by omega)]

/-- **The number of frames of a log.** -/
theorem length_logFrames {log : Bytes} (h : log ≠ []) :
    (logFrames f log).length = (log.length - 1) / f.blockSize + 1 := by
  have hblock := blockSize_pos f
  have hpos := List.length_pos_iff.2 h
  obtain ⟨fuel, hfuel, hcons⟩ := @logFrames_cons f log h
  rw [hcons, List.length_cons, (restFrames_spec (length_left f hfuel)).1, List.length_drop]
  rcases Nat.le_total log.length f.blockSize with hle | hge
  · rw [Nat.sub_eq_zero_of_le hle, Nat.zero_add, Nat.div_eq_of_lt (by omega),
      Nat.div_eq_of_lt (by omega)]
  · rw [show log.length - f.blockSize + f.blockSize - 1 = log.length - 1 by omega]

/-- `aergoliteReadWal` counts one frame more where a log has several, and pages reserved bytes. -/
def PageFormat.Overcounts (f : PageFormat) (log : Bytes) : Prop :=
  f.blockSize < log.length ∧ 0 < f.nReserve

instance (f : PageFormat) (log : Bytes) : Decidable (f.Overcounts log) :=
  inferInstanceAs (Decidable (_ ∧ _))

theorem allocatedBlocks_eq {log : Bytes} (h : log ≠ []) : allocatedBlocks f log.length =
    (logFrames f log).length + if f.Overcounts log then 1 else 0 := by
  have hpos := List.length_pos_iff.2 h
  have husable := f.usable
  have hreserve : f.blockSize < f.pageSize ↔ 0 < f.nReserve := by
    unfold PageFormat.blockSize
    omega
  rw [length_logFrames h]
  unfold allocatedBlocks
  dsimp only
  by_cases hlong : f.blockSize < log.length
  · rw [if_pos hlong]
    by_cases hreserved : 0 < f.nReserve
    · rw [if_pos (hreserve.2 hreserved), if_pos (show f.Overcounts log from ⟨hlong, hreserved⟩)]
    · rw [if_neg (mt hreserve.1 hreserved),
        if_neg (fun hover : f.Overcounts log => hreserved hover.2)]
  · rw [if_neg hlong, if_neg (fun hover : f.Overcounts log => hlong hover.1),
      Nat.div_eq_of_lt (by omega)]

/-! ## Reading a log -/

/-- The frame at a position. -/
theorem getElem?_of_drop {wal post : List Frame} {frame : Frame} {i : ℕ}
    (h : wal.drop i = frame :: post) : wal[i]? = some frame ∧ wal.drop (i + 1) = post := by
  have hget := congrArg (fun l => l[0]?) h
  rw [List.getElem?_drop] at hget
  refine ⟨hget, ?_⟩
  rw [← List.drop_drop, h]
  rfl

theorem walReadFrame_of_drop {wal post : List Frame} {frame : Frame} {i : ℕ}
    (h : wal.drop i = frame :: post) : walReadFrame wal (i + 1) = .ok frame.data := by
  unfold walReadFrame
  rw [Nat.add_sub_cancel, (getElem?_of_drop h).1]

/-- **The blocks are read one behind the other.**  What is in memory before the offset is the
beginning of the log. -/
theorem readLoop_log {wal post : List Frame} {log more : Bytes} {fuel wfuel offset i : ℕ}
    (hfuel : log.length ≤ offset + fuel) (hwfuel : (log.drop offset).length ≤ wfuel)
    (h : wal.drop i = restFrames f wfuel (log.drop offset) ++ post) :
    ∃ more', readLoop f wal log.length fuel offset i (log.take offset ++ more) =
      .ok (log ++ more') := by
  have hblock := blockSize_pos f
  induction fuel generalizing offset wfuel i more with
  | zero => exact ⟨more, by rw [List.take_of_length_le (by omega)]; rfl⟩
  | succ fuel ih =>
      unfold readLoop
      by_cases hless : offset < log.length
      · have hleft : log.drop offset ≠ [] := fun hnil => by
          have := congrArg List.length hnil
          rw [List.length_drop, List.length_nil] at this
          omega
        obtain ⟨wfuel', hwfuel', hcons⟩ := @restFrames_cons f wfuel _ hleft hwfuel
        rw [hcons, List.cons_append] at h
        have hdrop : (log.drop offset).drop f.blockSize = log.drop (offset + f.blockSize) := by
          rw [List.drop_drop]
        have htake : (log.take offset ++ more).take offset = log.take offset := by
          have hlength : (log.take offset).length = offset := by
            rw [List.length_take]
            omega
          rw [List.take_append_of_le_length (Nat.le_of_eq hlength.symm), List.take_of_length_le
            (Nat.le_of_eq hlength)]
        rw [if_pos hless, walReadFrame_of_drop h]
        dsimp only
        rw [htake, PageFormat.fill, ← List.append_assoc, ← List.take_add]
        exact ih (by omega) (hdrop ▸ length_left f hwfuel')
          (hdrop ▸ (getElem?_of_drop h).2)
      · exact ⟨more, by rw [if_neg hless, List.take_of_length_le (by omega)]⟩

/-- **A log is read from its frames.** -/
theorem aergoliteReadWal_log {b : BinnReader} {wal post : List Frame} {log : Bytes} {i : ℕ}
    (hlog : log ≠ []) (hreads : b.Reads log) (h : wal.drop i = logFrames f log ++ post) :
    aergoliteReadWal b f wal (i + 1) = .ok (allocatedBlocks f log.length, log) := by
  have hblock := blockSize_pos f
  have hpos := List.length_pos_iff.2 hlog
  obtain ⟨fuel, hfuel, hcons⟩ := @logFrames_cons f log hlog
  rw [hcons, List.cons_append] at h
  have hheader : ∃ more, f.fill (log.take f.blockSize) = log.take 9 ++ more := by
    refine ⟨(log.take f.blockSize).drop 9 ++
      List.replicate (f.pageSize - (log.take f.blockSize).length) 0, ?_⟩
    rw [PageFormat.fill, ← List.append_assoc]
    congr 1
    conv_lhs => rw [← List.take_append_drop 9 (log.take f.blockSize)]
    rw [List.take_take, Nat.min_eq_left hblock]
  have hsize : b.binnSize (f.fill (log.take f.blockSize)) = log.length := by
    obtain ⟨more, hmore⟩ := hheader
    rw [hmore, hreads.size]
  obtain ⟨more', hread⟩ := @readLoop_log f wal post log
    (List.replicate (f.pageSize - (log.take f.blockSize).length) 0) log.length fuel f.blockSize
    (i + 1) (by omega) (length_left f hfuel) (getElem?_of_drop h).2
  unfold aergoliteReadWal
  rw [walReadFrame_of_drop h]
  dsimp only
  rw [hsize, if_neg (by omega), PageFormat.fill, hread]
  dsimp only
  rw [hreads.opens]
  simp only [Bool.not_true, Bool.false_eq_true, if_false]
  rw [List.take_left]

/-! ## A sequence of pages and logs -/

/-- What is appended to the file: the frame of a page, or a log. -/
inductive WalItem
  | page (frame : Frame)
  | txn (log : Bytes)
  deriving DecidableEq

/-- The frames of a sequence of pages and logs, as they are written one after the other. -/
def writeItems (f : PageFormat) : List WalItem → Except Rc (List Frame)
  | [] => .ok []
  | .page frame :: items => do
    return frame :: (← writeItems f items)
  | .txn log :: items => do
    return (← walWriteLogFrames f log logTransaction) ++ (← writeItems f items)

/-- No page has the number of a log, and a log is a binn. -/
def WalItem.Valid (b : BinnReader) : WalItem → Prop
  | .page frame => frame.pgno ≠ logTransaction
  | .txn log => log ≠ [] ∧ b.Reads log

/-- The logs, each with the number of its first frame. -/
def txnsAt (f : PageFormat) : ℕ → List WalItem → List (ℕ × Bytes)
  | _, [] => []
  | iFrame, .page _ :: items => txnsAt f (iFrame + 1) items
  | iFrame, .txn log :: items => (iFrame, log) :: txnsAt f (iFrame + (logFrames f log).length) items

/-- The calls of a callback with one log after the other. -/
def callAll {σ : Type} (callback : LogCallback σ) : List (ℕ × Bytes) → σ → Rc × σ
  | [], s => (.ok, s)
  | (iFrame, log) :: txns, s =>
    let (rc, s) := callback iFrame log s
    if rc ≠ .ok then (rc, s) else callAll callback txns s

/-- **The logs are delivered**: forward in the order of the file, and backward in the other, each
once, unless the callback stops. -/
def RoundTrip (b : BinnReader) (f : PageFormat) (items : List WalItem) : Prop :=
  ∀ wal, writeItems f items = .ok wal → ∀ (σ : Type) (callback : LogCallback σ) (s : σ),
    (aergoliteIterateWal b f wal callback true s).2 = (callAll callback (txnsAt f 1 items) s).2 ∧
    (aergoliteIterateWal b f wal callback false s).2 =
      (callAll callback (txnsAt f 1 items).reverse s).2

/-- The frames of valid pages and logs. -/
def framesOf (f : PageFormat) : List WalItem → List Frame
  | [] => []
  | .page frame :: items => frame :: framesOf f items
  | .txn log :: items => logFrames f log ++ framesOf f items

theorem writeItems_valid {b : BinnReader} {items : List WalItem}
    (hitems : ∀ item ∈ items, item.Valid b) : writeItems f items = .ok (framesOf f items) := by
  induction items with
  | nil => rfl
  | cons item items ih =>
      have ih := ih fun item hitem => hitems item (List.mem_cons_of_mem _ hitem)
      cases item with
      | page frame =>
          rw [writeItems, ih]
          rfl
      | txn log =>
          have hlog : log ≠ [] := (hitems (.txn log) List.mem_cons_self).1
          rw [writeItems, ih, walWriteLogFrames, if_neg hlog]
          rfl

theorem framesOf_append (items more : List WalItem) :
    framesOf f (items ++ more) = framesOf f items ++ framesOf f more := by
  induction items with
  | nil => rfl
  | cons item items ih => cases item <;> simp [framesOf, ih]

theorem txnsAt_append (items more : List WalItem) (iFrame : ℕ) :
    txnsAt f iFrame (items ++ more) =
      txnsAt f iFrame items ++ txnsAt f (iFrame + (framesOf f items).length) more := by
  induction items generalizing iFrame with
  | nil => rfl
  | cons item items ih =>
      cases item with
      | page frame =>
          rw [List.cons_append, txnsAt, ih, txnsAt, framesOf, List.length_cons]
          congr 2
          omega
      | txn log =>
          rw [List.cons_append, txnsAt, ih, txnsAt, framesOf, List.length_append,
            List.cons_append]
          congr 3
          omega

/-! ## The iteration -/

section
variable {σ : Type} {b : BinnReader} {callback : LogCallback σ} {wal : List Frame}

/-- Frames of other kinds are passed over, forward. -/
theorem iterateForward_skip {skipped post : List Frame} {fuel i : ℕ}
    (hskipped : ∀ frame ∈ skipped, frame.pgno ≠ logTransaction)
    (h : wal.drop i = skipped ++ post) (rc : Rc) (s : σ) :
    iterateForward b f wal callback (fuel + skipped.length) (i + 1) rc s =
      iterateForward b f wal callback fuel (i + skipped.length + 1) rc s := by
  induction skipped generalizing i with
  | nil => rfl
  | cons frame skipped ih =>
      rw [List.cons_append] at h
      obtain ⟨hget, hdrop⟩ := getElem?_of_drop h
      have hlength : ¬wal.length < i + 1 := by
        have := (List.getElem?_eq_some_iff.1 hget).1
        omega
      have hpgno : ¬(some frame).map Frame.pgno = some logTransaction := fun hsome =>
        hskipped frame List.mem_cons_self (Option.some.inj hsome)
      rw [List.length_cons, ← Nat.add_assoc, iterateForward, if_neg hlength, Nat.add_sub_cancel,
        hget, if_neg hpgno, ih (fun frame hframe => hskipped frame (List.mem_cons_of_mem _ hframe))
          hdrop, show i + 1 + skipped.length + 1 = i + (skipped.length + 1) + 1 by omega]

/-- Frames of other kinds are passed over, backward. -/
theorem iterateBackward_skip {pre skipped post : List Frame}
    (hskipped : ∀ frame ∈ skipped, frame.pgno ≠ logTransaction)
    (h : wal = pre ++ skipped ++ post) (rc : Rc) (s : σ) :
    iterateBackward b f wal callback (pre.length + skipped.length) rc s =
      iterateBackward b f wal callback pre.length rc s := by
  induction skipped using List.reverseRecOn generalizing post with
  | nil => rfl
  | append_singleton skipped frame ih =>
      have hget : wal[pre.length + skipped.length]? = some frame := by
        rw [h, ← List.append_assoc, List.append_assoc, ← List.length_append,
          List.getElem?_append_right (Nat.le_refl _), Nat.sub_self]
        rfl
      have hpgno : ¬(some frame).map Frame.pgno = some logTransaction := fun hsome =>
        hskipped frame (List.mem_append_right _ List.mem_cons_self) (Option.some.inj hsome)
      rw [List.length_append, List.length_singleton, ← Nat.add_assoc, iterateBackward, hget,
        if_neg hpgno]
      refine @ih (frame :: post)
        (fun frame hframe => hskipped frame (List.mem_append_left _ hframe)) ?_
      rw [h]
      simp

/-- The frames behind the first one of a log. -/
theorem logFrames_tail {log : Bytes} (h : log ≠ []) : ∃ frame rest,
    logFrames f log = frame :: rest ∧ frame.pgno = logTransaction ∧
      ∀ frame ∈ rest, frame.pgno ≠ logTransaction := by
  obtain ⟨fuel, hfuel, hcons⟩ := @logFrames_cons f log h
  refine ⟨_, _, hcons, rfl, fun frame hframe hpgno => ?_⟩
  have := (restFrames_spec (length_left f hfuel)).2 frame hframe
  rw [hpgno] at this
  exact absurd this (by decide)

/-- The first frame of a log, where an iteration stands. -/
theorem firstFrame {post : List Frame} {log : Bytes} {i : ℕ} (hlog : log ≠ [])
    (h : wal.drop i = logFrames f log ++ post) :
    i < wal.length ∧ (wal[i]?).map Frame.pgno = some logTransaction := by
  obtain ⟨frame, rest, hcons, hpgno, -⟩ := @logFrames_tail f log hlog
  have hget := (getElem?_of_drop (h.trans (congrArg (· ++ post) hcons))).1
  exact ⟨(List.getElem?_eq_some_iff.1 hget).1, by rw [hget, ← hpgno]; rfl⟩

/-- At the first frame of a log, forward. -/
theorem iterateForward_log {post : List Frame} {log : Bytes} {fuel i : ℕ} (hlog : log ≠ [])
    (hreads : b.Reads log) (h : wal.drop i = logFrames f log ++ post) (rc : Rc) (s : σ) :
    iterateForward b f wal callback (fuel + 1) (i + 1) rc s =
      if (callback (i + 1) log s).1 ≠ .ok then callback (i + 1) log s
      else iterateForward b f wal callback fuel (i + 1 + allocatedBlocks f log.length)
        (callback (i + 1) log s).1 (callback (i + 1) log s).2 := by
  obtain ⟨hlength, hpgno⟩ := firstFrame hlog h
  rw [iterateForward, if_neg (by omega), Nat.add_sub_cancel, if_pos hpgno,
    aergoliteReadWal_log hlog hreads h]

/-- At the first frame of a log, backward. -/
theorem iterateBackward_log {post : List Frame} {log : Bytes} {i : ℕ} (hlog : log ≠ [])
    (hreads : b.Reads log) (h : wal.drop i = logFrames f log ++ post) (rc : Rc) (s : σ) :
    iterateBackward b f wal callback (i + 1) rc s =
      if (callback (i + 1) log s).1 ≠ .ok then callback (i + 1) log s
      else iterateBackward b f wal callback i (callback (i + 1) log s).1
        (callback (i + 1) log s).2 := by
  rw [iterateBackward, if_pos (firstFrame hlog h).2, aergoliteReadWal_log hlog hreads h]

/-- A call of the callback, and the calls with the other logs. -/
theorem callAll_cons (iFrame : ℕ) (log : Bytes) (txns : List (ℕ × Bytes)) (s : σ) :
    callAll callback ((iFrame, log) :: txns) s =
      if (callback iFrame log s).1 ≠ .ok then callback iFrame log s
      else callAll callback txns (callback iFrame log s).2 :=
  rfl

/-- The logs that the iteration forward delivers: after a log whose frames are counted one too
many, the frame that is passed over may be the first one of a log. -/
def delivered (f : PageFormat) : Bool → ℕ → List WalItem → List (ℕ × Bytes)
  | _, _, [] => []
  | _, iFrame, .page _ :: items => delivered f false (iFrame + 1) items
  | true, iFrame, .txn log :: items =>
    delivered f false (iFrame + (logFrames f log).length) items
  | false, iFrame, .txn log :: items =>
    (iFrame, log) :: delivered f (f.Overcounts log) (iFrame + (logFrames f log).length) items

/-- **Forward**, by induction on what follows: the iteration stands at the first frame that
follows, or, where it counted a frame too many, at the second one. -/
theorem iterateForward_items {items : List WalItem} {skip : Bool} {fuel i : ℕ}
    (hitems : ∀ item ∈ items, item.Valid b) (h : wal.drop i = framesOf f items)
    (hfuel : wal.length < fuel + (i + 1)) (s : σ) :
    iterateForward b f wal callback fuel (i + 1 + skip.toNat) .ok s =
      callAll callback (delivered f skip (i + 1) items) s := by
  induction items generalizing skip fuel i s with
  | nil =>
      have hlength := List.drop_eq_nil_iff.1 h
      cases fuel with
      | zero => rfl
      | succ fuel =>
          rw [iterateForward, if_pos (by omega)]
          rfl
  | cons item items ih =>
      have hvalid := hitems item List.mem_cons_self
      have ih := fun skip fuel i => @ih skip fuel i
        fun item hitem => hitems item (List.mem_cons_of_mem _ hitem)
      cases item with
      | page frame =>
          have hlength : i < wal.length :=
            (List.getElem?_eq_some_iff.1 (getElem?_of_drop h).1).1
          cases skip with
          | true => exact ih false fuel (i + 1) (getElem?_of_drop h).2 (by omega) s
          | false =>
              obtain ⟨fuel, rfl⟩ : ∃ n, fuel = n + 1 := ⟨fuel - 1, by omega⟩
              have hskip := @iterateForward_skip f σ b callback wal [frame] _ fuel i
                (fun _ hframe => List.mem_singleton.1 hframe ▸ hvalid) h .ok s
              rw [List.length_singleton] at hskip
              rw [Bool.toNat_false, Nat.add_zero, hskip]
              exact ih false fuel (i + 1) (getElem?_of_drop h).2 (by omega) s
      | txn log =>
          obtain ⟨hlog, hreads⟩ := hvalid
          have hnext : wal.drop (i + (logFrames f log).length) = framesOf f items := by
            rw [← List.drop_drop, h]
            exact List.drop_left
          obtain ⟨frame, rest, hcons, -, hrest⟩ := @logFrames_tail f log hlog
          have hlength := (firstFrame hlog h).1
          have hplace : i + 1 + (logFrames f log).length = i + (logFrames f log).length + 1 := by
            omega
          cases skip with
          | true =>
              have hall := congrArg List.length h
              rw [framesOf, hcons, List.cons_append] at h
              rw [framesOf, hcons, List.length_drop, List.length_append, List.length_cons] at hall
              obtain ⟨fuel, rfl⟩ : ∃ n, fuel = n + rest.length := ⟨fuel - rest.length, by omega⟩
              have := ih false fuel (i + (logFrames f log).length) hnext
                (by rw [hcons, List.length_cons]; omega) s
              rw [delivered, hplace, ← this, hcons, Bool.toNat_true,
                iterateForward_skip hrest (getElem?_of_drop h).2, List.length_cons, Bool.toNat_false]
              congr 1
              omega
          | false =>
              obtain ⟨fuel, rfl⟩ : ∃ n, fuel = n + 1 := ⟨fuel - 1, by omega⟩
              have hstep := @iterateForward_log f σ b callback wal _ log fuel i hlog hreads h .ok s
              have := ih (f.Overcounts log) fuel (i + (logFrames f log).length) hnext
                (by rw [hcons, List.length_cons]; omega) (callback (i + 1) log s).2
              rw [Bool.toNat_false, Nat.add_zero, hstep, delivered, callAll_cons, hplace]
              by_cases hrc : (callback (i + 1) log s).1 = .ok
              · rw [if_neg (not_not.2 hrc), if_neg (not_not.2 hrc), ← this, allocatedBlocks_eq hlog,
                  hrc]
                congr 1
                by_cases hover : f.Overcounts log
                · rw [if_pos hover, decide_eq_true hover, Bool.toNat_true]
                  omega
                · rw [if_neg hover, decide_eq_false hover, Bool.toNat_false]
                  omega
              · rw [if_pos hrc, if_pos hrc]

/-- **Backward**, by induction on what comes before. -/
theorem iterateBackward_items {items : List WalItem} {post : List Frame}
    (hitems : ∀ item ∈ items, item.Valid b) (h : wal = framesOf f items ++ post) (rc : Rc) (s : σ) :
    (iterateBackward b f wal callback (framesOf f items).length rc s).2 =
      (callAll callback (txnsAt f 1 items).reverse s).2 := by
  induction items using List.reverseRecOn generalizing post rc s with
  | nil => rfl
  | append_singleton items item ih =>
      have hvalid := hitems item (List.mem_append_right _ List.mem_cons_self)
      have ih := fun post => @ih post
        fun item hitem => hitems item (List.mem_append_left _ hitem)
      rw [framesOf_append] at h
      rw [framesOf_append, txnsAt_append]
      cases item with
      | page frame =>
          have hframe : ∀ frame' ∈ [frame], frame'.pgno ≠ logTransaction := fun _ hframe =>
            List.mem_singleton.1 hframe ▸ hvalid
          rw [List.length_append]
          refine (congrArg Prod.snd (iterateBackward_skip hframe h rc s)).trans ?_
          rw [List.append_assoc] at h
          rw [ih _ h]
          simp [txnsAt]
      | txn log =>
          obtain ⟨hlog, hreads⟩ := hvalid
          have hlogs : framesOf f [.txn log] = logFrames f log := List.append_nil _
          obtain ⟨frame, rest, hcons, -, hrest⟩ := @logFrames_tail f log hlog
          have hdrop : wal.drop (framesOf f items).length = logFrames f log ++ post := by
            rw [h, hlogs, List.append_assoc, List.drop_left]
          have hwal : wal = (framesOf f items ++ [frame]) ++ rest ++ post := by
            rw [h, hlogs, hcons]
            simp
          have hlength : (framesOf f items ++ framesOf f [.txn log]).length =
              (framesOf f items ++ [frame]).length + rest.length := by
            rw [hlogs, hcons, ← List.length_append, List.append_assoc]
            rfl
          have hstep := @iterateBackward_log f σ b callback wal _ log _ hlog hreads hdrop rc s
          rw [hlength, iterateBackward_skip hrest hwal, List.length_append, List.length_singleton,
            hstep]
          rw [txnsAt, txnsAt, List.reverse_append, List.reverse_singleton, List.singleton_append,
            callAll_cons, Nat.add_comm 1]
          by_cases hrc : (callback ((framesOf f items).length + 1) log s).1 = .ok
          · rw [List.append_assoc] at h
            rw [if_neg (not_not.2 hrc), if_neg (not_not.2 hrc)]
            exact ih _ h _ _
          · rw [if_pos hrc, if_pos hrc]

end

/-- **The iteration forward**: the callback is called with the logs that are delivered. -/
theorem aergoliteIterateWal_forward {σ : Type} {b : BinnReader} (callback : LogCallback σ)
    {items : List WalItem} (hitems : ∀ item ∈ items, item.Valid b) (s : σ) :
    let r := aergoliteIterateWal b f (framesOf f items) callback true s
    (r.1 = .empty ∧ r.2 = s ∧ delivered f false 1 items = []) ∨
      r = callAll callback (delivered f false 1 items) s := by
  have hloop := @iterateForward_items f σ b callback (framesOf f items) items false
    (framesOf f items).length 0 hitems rfl (by omega) s
  unfold aergoliteIterateWal
  by_cases hnil : framesOf f items = []
  · rw [if_pos hnil]
    refine .inl ⟨rfl, rfl, ?_⟩
    cases items with
    | nil => rfl
    | cons item items =>
        cases item with
        | page frame => exact absurd hnil (List.cons_ne_nil _ _)
        | txn log =>
            obtain ⟨frame, rest, hcons, -⟩ :=
              @logFrames_tail f log (hitems (.txn log) List.mem_cons_self).1
            rw [framesOf, hcons] at hnil
            exact absurd hnil (List.cons_ne_nil _ _)
  · rw [if_neg hnil, if_pos rfl]
    exact .inr hloop

/-! ## The round trip -/

/-- A log of several frames. -/
def WalItem.LongTxn (f : PageFormat) : WalItem → Prop
  | .page _ => False
  | .txn log => f.blockSize < log.length

/-- A log. -/
def WalItem.IsTxn : WalItem → Prop
  | .page _ => False
  | .txn _ => True

theorem length_delivered_le (skip : Bool) (iFrame : ℕ) (items : List WalItem) :
    (delivered f skip iFrame items).length ≤ (txnsAt f iFrame items).length := by
  induction items generalizing skip iFrame with
  | nil => exact Nat.le_refl _
  | cons item items ih =>
      cases item with
      | page frame =>
          rw [delivered, txnsAt]
          exact ih _ _
      | txn log =>
          cases skip with
          | true =>
              rw [delivered, txnsAt, List.length_cons]
              exact Nat.le_succ_of_le (ih _ _)
          | false =>
              rw [delivered, txnsAt, List.length_cons, List.length_cons]
              exact Nat.succ_le_succ (ih _ _)

/-- Every log is delivered where no log directly follows one that is counted too long. -/
theorem delivered_eq_iff {skip : Bool} {iFrame : ℕ} {items : List WalItem} :
    delivered f skip iFrame items = txnsAt f iFrame items ↔
      (skip = true → ∀ item ∈ items.head?, ¬item.IsTxn) ∧
        items.IsChain fun item next => ¬(0 < f.nReserve ∧ item.LongTxn f ∧ next.IsTxn) := by
  induction items generalizing skip iFrame with
  | nil => exact iff_of_true rfl ⟨fun _ _ hitem => absurd hitem (by simp), List.IsChain.nil⟩
  | cons item items ih =>
      rw [List.isChain_cons]
      cases item with
      | page frame =>
          rw [delivered, txnsAt, ih]
          simp [WalItem.IsTxn, WalItem.LongTxn]
      | txn log =>
          cases skip with
          | true =>
              rw [delivered, txnsAt]
              refine iff_of_false (fun heq => ?_) fun hnot => hnot.1 rfl _ rfl trivial
              have := length_delivered_le (f := f) false (iFrame + (logFrames f log).length) items
              rw [heq, List.length_cons] at this
              omega
          | false =>
              rw [delivered, txnsAt, List.cons_inj_right, ih, decide_eq_true_iff]
              simp [PageFormat.Overcounts, WalItem.LongTxn]
              grind

/-- A callback that collects the logs. -/
def collect : LogCallback (List (ℕ × Bytes)) := fun iFrame log s => (.ok, s ++ [(iFrame, log)])

theorem callAll_collect (txns s : List (ℕ × Bytes)) : callAll collect txns s = (.ok, s ++ txns) := by
  induction txns generalizing s with
  | nil => rw [callAll, List.append_nil]
  | cons txn txns ih =>
      have hcall : callAll collect (txn :: txns) s = callAll collect txns (s ++ [txn]) := rfl
      rw [hcall, ih, List.append_assoc]
      rfl

/-- **The logs of a file are all delivered exactly where pages have no reserved bytes, or no log
directly follows a log of several frames.** -/
theorem roundTrip_iff {b : BinnReader} {f : PageFormat} {items : List WalItem}
    (hitems : ∀ item ∈ items, item.Valid b) :
    RoundTrip b f items ↔ f.nReserve = 0 ∨
      items.IsChain fun item next => ¬(item.LongTxn f ∧ next.IsTxn) := by
  have hforward : ∀ (σ : Type) (callback : LogCallback σ) (s : σ),
      (aergoliteIterateWal b f (framesOf f items) callback true s).2 =
        (callAll callback (delivered f false 1 items) s).2 := by
    intro σ callback s
    rcases aergoliteIterateWal_forward callback hitems s with ⟨-, hempty, heq⟩ | heq
    · rw [hempty, heq]
      rfl
    · rw [heq]
  have hbackward : ∀ (σ : Type) (callback : LogCallback σ) (s : σ),
      (aergoliteIterateWal b f (framesOf f items) callback false s).2 =
        (callAll callback (txnsAt f 1 items).reverse s).2 := by
    intro σ callback s
    have := @iterateBackward_items f σ b callback (framesOf f items) items [] hitems
      (List.append_nil _).symm .ok s
    unfold aergoliteIterateWal
    by_cases hnil : framesOf f items = []
    · rw [if_pos hnil]
      rw [hnil] at this
      exact this
    · rw [if_neg hnil, if_neg Bool.false_ne_true]
      exact this
  have hdelivered : RoundTrip b f items ↔ delivered f false 1 items = txnsAt f 1 items := by
    constructor
    · intro htrip
      have hcollect := (htrip _ (writeItems_valid hitems) _ collect []).1
      rw [hforward, callAll_collect, callAll_collect] at hcollect
      exact hcollect
    · intro heq wal hwal σ callback s
      rw [writeItems_valid hitems] at hwal
      cases hwal
      rw [hforward, hbackward, heq]
      exact ⟨rfl, rfl⟩
  rw [hdelivered, delivered_eq_iff]
  rcases Nat.eq_zero_or_pos f.nReserve with hzero | hpos
  · refine iff_of_true ⟨fun h => absurd h Bool.false_ne_true, ?_⟩ (.inl hzero)
    exact List.isChain_iff_getElem.2 fun _ _ hskipped => hskipped.1.ne' hzero
  · constructor
    · rintro ⟨-, hchain⟩
      exact .inr (hchain.imp fun item next h hskipped => h ⟨hpos, hskipped⟩)
    · rintro (hzero | hchain)
      · exact absurd hzero hpos.ne'
      · exact ⟨fun h => absurd h Bool.false_ne_true,
          hchain.imp fun item next h hskipped => h hskipped.2⟩

/-- A reader of lists, whose size is in one byte, or in four of which the first is 128 or more. -/
def listReader : BinnReader where
  binnSize data :=
    match data with
    | 0xE0 :: a :: b :: c :: d :: _ =>
      if a < 128 then a.toNat
      else (((a.toNat - 128) * 256 + b.toNat) * 256 + c.toNat) * 256 + d.toNat
    | _ => 0
  binnOpen data := data.head? = some 0xE0

/-- A list with a text of 480 characters. -/
def longLog : Bytes :=
  [0xE0, 0x80, 0, 1, 0xEC, 1, 0xA0, 0x80, 0, 1, 0xE0] ++ List.replicate 480 0x2D ++ [0]

/-- A list with a number. -/
def shortLog : Bytes := [0xE0, 5, 1, 0x20, 7]

/-- A page of 512 bytes, of which 32 are reserved. -/
def reservedFormat : PageFormat := ⟨512, 32, by decide⟩

/-- The log of two frames is directly followed by another log, which is passed over. -/
theorem not_roundTrip :
    ¬RoundTrip listReader reservedFormat [.txn longLog, .txn shortLog] := by
  intro htrip
  have hforward := (htrip _ rfl _ collect []).1
  revert hforward
  decide +kernel

/-- The same logs, with a page between them. -/
theorem roundTrip_iff_pageBetween :
    RoundTrip listReader reservedFormat [.txn longLog, .page ⟨1, []⟩, .txn shortLog] := by
  have hlong : longLog.length = 492 := by decide +kernel
  refine (roundTrip_iff fun item hitem => ?_).2 (.inr ?_)
  · simp only [List.mem_cons, List.not_mem_nil, or_false] at hitem
    rcases hitem with rfl | rfl | rfl
    · exact ⟨List.cons_ne_nil _ _, fun more => hlong ▸ rfl, fun more => rfl⟩
    · exact (by decide : (1 : ℕ) ≠ logTransaction)
    · exact ⟨List.cons_ne_nil _ _, fun more => rfl, fun more => rfl⟩
  · simp [WalItem.LongTxn, WalItem.IsTxn]

end Core
end AergoLite
