/-
# Fetching a local transaction

The plugin sends the local transactions one after the other: `aergolite_get_local_transaction`
(`core/sqlite3.c`) searches `wal-local` for the one with a nonce.  So that not every search goes
through the whole file, the node remembers the frame where it found the last one, and starts from
there for a nonce that is not lower.  A log rotation replaces the file, and resets the frame.

The remembered frame is always the first one of a log that the search from the beginning of the
file finds as well (`SendingNode.Tracks`), so it never hides a transaction.  What is not found are
the logs that the iteration passes over (`Core.WalLog`), from wherever it starts.
-/

import AergoLite.Core.LogRotation
import AergoLite.Core.WalLog
import Mathlib.Data.List.Nodup

namespace AergoLite
namespace Core

open Transition

/-- What `aergolite_get_local_transaction` reads and writes of a node. -/
structure SendingNode where
  /-- What has been written into `wal-local`. -/
  walLocal : List WalItem
  maxActiveNonce : ℤ
  lastProcessedNonce : ℤ
  lastSentNonce : ℤ
  lastSentFrame : ℕ
  deriving DecidableEq

/-- `struct sGetLocalTxn`. -/
structure GetLocalTxn where
  nonce : ℤ
  frame : ℕ
  log : Option Bytes

/-! ## The search -/

section
variable (b : BinnReader) (f : PageFormat) (decode : Bytes → Log)

/-- `aergoliteIterateWal`, forward from `start_frame` on; 0 stands for the first frame. -/
def aergoliteIterateWalFrom {σ : Type} (wal : List Frame) (callback : LogCallback σ)
    (startFrame : ℕ) (s : σ) : Rc × σ :=
  if wal = [] then (.empty, s)
  else
    let iFirst := if startFrame ≠ 0 then startFrame else 1
    iterateForward b f wal callback wal.length iFirst .ok s

/-- `aergoliteGetLocalTxn_cb`. -/
def aergoliteGetLocalTxnCb : LogCallback GetLocalTxn := fun iFrame log args =>
  if args.nonce = 0 ∨ getTransactionNonce (decode log) = args.nonce then
    (.interrupt, ⟨getTransactionNonce (decode log), iFrame, some log⟩)
  else (.ok, args)

/-- `aergoliteGetLocalTxn`: what it stores in its arguments, or its result code. -/
def aergoliteGetLocalTxn (wal : List Frame) (nonce : ℤ) (frame : ℕ) : Except Rc GetLocalTxn :=
  let (rc, args) :=
    aergoliteIterateWalFrom b f wal (aergoliteGetLocalTxnCb decode) frame ⟨nonce, 0, none⟩
  if rc = .interrupt then .ok args
  else if args.nonce = 0 ∨ rc = .empty then .error .empty
  else if rc = .ok then .error .notfound
  else .error rc

/-- `aergolite_get_local_transaction`: the nonce and the log, or the result code. -/
def aergoliteGetLocalTransaction (s : SendingNode) (pnonce : ℤ) :
    Except Rc (ℤ × Option Bytes) × SendingNode :=
  if s.maxActiveNonce = 0 then (.error .empty, s)
  else
    let nonce := if pnonce ≤ s.lastProcessedNonce then s.lastProcessedNonce + 1 else pnonce
    let frame := if nonce < s.lastSentNonce then 0 else s.lastSentFrame
    match aergoliteGetLocalTxn b f decode (framesOf f s.walLocal) nonce frame with
    | .error rc => (.error rc, s)
    | .ok args =>
      (.ok (args.nonce, args.log),
        { s with lastSentNonce := args.nonce, lastSentFrame := args.frame })

end

/-- The search from frame 0 is the iteration through the whole file. -/
theorem aergoliteIterateWalFrom_zero (b : BinnReader) (f : PageFormat) {σ : Type}
    (wal : List Frame) (callback : LogCallback σ) (s : σ) :
    aergoliteIterateWalFrom b f wal callback 0 s = aergoliteIterateWal b f wal callback true s :=
  rfl

/-! ## The node in a run -/

/-- The logs among what has been written. -/
def localLogs (items : List WalItem) : List Bytes :=
  items.filterMap fun
    | .page _ => none
    | .txn log => some log

/-- The nonces of the logs. -/
def localNonces (decode : Bytes → Log) (items : List WalItem) : List ℤ :=
  (localLogs items).map fun log => getTransactionNonce (decode log)

/-- A file of transactions with increasing nonces. -/
structure IncreasingNonces (b : BinnReader) (decode : Bytes → Log) (items : List WalItem) :
    Prop where
  valid : ∀ item ∈ items, item.Valid b
  positive : ∀ nonce ∈ localNonces decode items, 0 < nonce
  sorted : (localNonces decode items).Pairwise (· < ·)

namespace SendingNode

/-- `do_log_rotation`: the transactions that no block has are in a new file, or the file is
deleted. -/
def rotated (walNew : List WalItem) (s : SendingNode) : SendingNode :=
  if s.lastProcessedNonce < s.maxActiveNonce then
    { s with walLocal := walNew, lastSentFrame := 0 }
  else
    { s with walLocal := [], lastSentFrame := 0, maxActiveNonce := 0, lastSentNonce := 0 }

/-- A transaction is fetched, or committed with the pages it modified; a block with transactions
of the node is committed; the log is rotated. -/
inductive Action
  | fetch (nonce : ℤ)
  | append (pages : List Frame) (log : Bytes)
  | processed (nonce : ℤ)
  | rotate (walNew : List WalItem)

variable (b : BinnReader) (f : PageFormat) (decode : Bytes → Log)

/-- A node that starts. -/
structure Starts (s : SendingNode) : Prop where
  increasing : IncreasingNonces b decode s.walLocal
  max : s.maxActiveNonce = (localNonces decode s.walLocal).getLast?.getD 0
  processed : 0 ≤ s.lastProcessedNonce
  sent : s.lastSentNonce = 0 ∧ s.lastSentFrame = 0

/-- What is in the file after a commit. -/
def appended (s : SendingNode) (pages : List Frame) (log : Bytes) : List WalItem :=
  s.walLocal ++ (pages.map .page ++ [.txn log])

/-- A step. -/
def Step (s : SendingNode) : Action → SendingNode → Prop
  | .fetch nonce, t => t = (aergoliteGetLocalTransaction b f decode s nonce).2
  | .append pages log, t =>
    IncreasingNonces b decode (s.appended pages log) ∧
      t = { s with
        walLocal := s.appended pages log
        maxActiveNonce := getTransactionNonce (decode log) }
  | .processed nonce, t =>
    s.lastProcessedNonce ≤ nonce ∧ t = { s with lastProcessedNonce := nonce }
  | .rotate walNew, t => IncreasingNonces b decode walNew ∧ t = s.rotated walNew

/-- A node and what it does in its runs. -/
def system : System SendingNode Action := ⟨Starts b decode, Step b f decode⟩

/-- The nonce that is searched for. -/
def sought (s : SendingNode) (nonce : ℤ) : ℤ := max nonce (s.lastProcessedNonce + 1)

/-- **What is expected of a search**: the transaction with the nonce, where the file holds it, and
else an error, with the remembered position as before. -/
structure Fetches (s : SendingNode) (nonce : ℤ) : Prop where
  found : ∀ log ∈ localLogs s.walLocal, getTransactionNonce (decode log) = s.sought nonce →
    (aergoliteGetLocalTransaction b f decode s nonce).1 = .ok (s.sought nonce, some log)
  absent : s.sought nonce ∉ localNonces decode s.walLocal →
    ∃ rc, rc ≠ .ok ∧ aergoliteGetLocalTransaction b f decode s nonce = (.error rc, s)

end SendingNode

/-! ## The rotation -/

/-- A node, with what has been written into its `wal-local`. -/
def LocalNode.sending (s : LocalNode) (walLocal : List WalItem) : SendingNode :=
  ⟨walLocal, s.maxActiveNonce, s.lastProcessedNonce, s.lastSentNonce, s.lastSentFrame⟩

/-- A rotation that replaces the file succeeds. -/
theorem replaceWalLocal_eq_ok {o : RotationOutcomes} {s t : LocalNode} {has : Bool}
    (h : replaceWalLocal o has s = (.rc .ok, t)) (items : List WalItem) :
    t.sending items = (s.resetCounters has).sending items ∧ (has = false → t.walLocal = []) := by
  unfold replaceWalLocal at h
  dsimp only at h
  by_cases hclose1 : o.closeWal1 = .ok
  · rw [if_neg (not_not.2 hclose1)] at h
    by_cases hclose2 : o.closeWal2 = .ok
    · rw [if_neg (not_not.2 hclose2)] at h
      by_cases hdelete : o.deleteWal = .ok
      · rw [if_neg (not_not.2 hdelete)] at h
        by_cases hcheckpoint : o.checkpoint = .ok
        · rw [if_neg (not_not.2 hcheckpoint)] at h
          by_cases hrenamed : (has && !o.renamed) = true
          · rw [if_pos hrenamed] at h
            exact nomatch h
          · rw [if_neg hrenamed] at h
            cases h
            exact ⟨rfl, fun hhas => if_neg (hhas ▸ Bool.false_ne_true)⟩
        · rw [if_pos hcheckpoint] at h
          exact absurd (RotationRc.rc.inj (Prod.mk.inj h).1) hcheckpoint
      · rw [if_pos hdelete] at h
        exact absurd (RotationRc.rc.inj (Prod.mk.inj h).1) hdelete
    · rw [if_pos hclose2] at h
      exact absurd (RotationRc.rc.inj (Prod.mk.inj h).1) hclose2
  · rw [if_pos hclose1] at h
    exact absurd (RotationRc.rc.inj (Prod.mk.inj h).1) hclose1

/-- The transactions that are executed again are only in the other file. -/
theorem sending_reexecute {o : RotationOutcomes} {s t : LocalNode} {rc : Rc}
    (h : reexecute o s = (rc, t)) (items : List WalItem) : t.sending items = s.sending items := by
  by_cases hreexecutes : o.Reexecutes s
  · rw [reexecute_of_reexecutes hreexecutes] at h
    cases h
    rfl
  · obtain ⟨rc', walRotation, -, heq, -⟩ := reexecute_of_fails hreexecutes
    rw [heq] at h
    cases h
    rfl

/-- **A rotation that succeeds** found nothing to checkpoint, or it did what `rotated` says. -/
theorem sending_doLogRotation {o : RotationOutcomes} {s t : LocalNode}
    (h : doLogRotation o s = (.rc .ok, t)) (items walNew : List WalItem) :
    (t.walLocal = s.walLocal ∧ t.sending items = s.sending items) ∨
      (¬s.lastProcessedNonce < s.maxActiveNonce → t.walLocal = []) ∧
        t.sending (if s.lastProcessedNonce < s.maxActiveNonce then walNew else []) =
          (s.sending items).rotated walNew := by
  by_cases hbegins : o.Begins
  · rw [doLogRotation_of_begins hbegins] at h
    refine .inr ?_
    unfold SendingNode.rotated
    by_cases hless : s.lastProcessedNonce < s.maxActiveNonce
    · rw [if_pos hless] at h
      rw [if_pos hless, if_pos (show (s.sending items).lastProcessedNonce <
        (s.sending items).maxActiveNonce from hless)]
      cases hreexecute : reexecute o s with
      | mk rc u =>
          rw [hreexecute] at h
          by_cases hrc : rc = .ok
          · subst hrc
            have hsending := sending_reexecute hreexecute walNew
            refine ⟨fun hnot => absurd hless hnot, ?_⟩
            rw [(replaceWalLocal_eq_ok h walNew).1]
            exact congrArg (fun node : SendingNode => { node with lastSentFrame := 0 }) hsending
          · cases rc <;> first | exact absurd rfl hrc | exact nomatch h
    · rw [if_neg hless] at h
      rw [if_neg hless, if_neg (show ¬(s.sending items).lastProcessedNonce <
        (s.sending items).maxActiveNonce from hless)]
      obtain ⟨hsending, hempty⟩ := replaceWalLocal_eq_ok h []
      exact ⟨fun _ => hempty rfl, hsending⟩
  · rcases doLogRotation_of_not_begins (s := s) hbegins with heq | heq
    · rw [h] at heq
      dsimp only at heq
      exact .inl ⟨heq ▸ rfl, heq ▸ rfl⟩
    · rw [h] at heq
      dsimp only at heq
      exact .inl ⟨heq ▸ rfl, heq ▸ rfl⟩

/-- The logs that the iteration passes over: each directly follows a log whose frames are counted
one too many, and which is not passed over itself. -/
def passedOver (f : PageFormat) : Bool → List WalItem → List Bytes
  | _, [] => []
  | _, .page _ :: items => passedOver f false items
  | true, .txn log :: items => log :: passedOver f false items
  | false, .txn log :: items => passedOver f (f.Overcounts log) items

/-! ## What the iteration delivers -/

variable {b : BinnReader} {f : PageFormat} {decode : Bytes → Log}

/-- A frame too many has been counted at the end of the items. -/
def skipAfter (f : PageFormat) : Bool → List WalItem → Bool
  | skip, [] => skip
  | _, .page _ :: items => skipAfter f false items
  | true, .txn _ :: items => skipAfter f false items
  | false, .txn log :: items => skipAfter f (f.Overcounts log) items

theorem delivered_append (skip : Bool) (iFrame : ℕ) (items more : List WalItem) :
    delivered f skip iFrame (items ++ more) = delivered f skip iFrame items ++
      delivered f (skipAfter f skip items) (iFrame + (framesOf f items).length) more := by
  induction items generalizing skip iFrame with
  | nil => rfl
  | cons item items ih =>
      cases item with
      | page frame =>
          rw [List.cons_append, delivered, ih, delivered, skipAfter, framesOf, List.length_cons]
          congr 2
          omega
      | txn log =>
          cases skip with
          | true =>
              rw [List.cons_append, delivered, ih, delivered, skipAfter, framesOf,
                List.length_append]
              congr 2
              omega
          | false =>
              rw [List.cons_append, delivered, ih, delivered, skipAfter, framesOf,
                List.length_append, List.cons_append]
              congr 3
              omega

/-- **Where a log that is delivered stands**: at its first frame, with no frame counted too
many. -/
theorem exists_of_mem_delivered {skip : Bool} {iFrame : ℕ} {items : List WalItem}
    {txn : ℕ × Bytes} (h : txn ∈ delivered f skip iFrame items) :
    ∃ before after, items = before ++ .txn txn.2 :: after ∧
      txn.1 = iFrame + (framesOf f before).length ∧ skipAfter f skip before = false := by
  induction items generalizing skip iFrame with
  | nil => exact absurd h List.not_mem_nil
  | cons item items ih =>
      cases item with
      | page frame =>
          obtain ⟨before, after, rfl, hframe, hskip⟩ := ih h
          refine ⟨.page frame :: before, after, rfl, ?_, hskip⟩
          rw [hframe, framesOf, List.length_cons]
          omega
      | txn log =>
          cases skip with
          | true =>
              obtain ⟨before, after, rfl, hframe, hskip⟩ := ih h
              refine ⟨.txn log :: before, after, rfl, ?_, hskip⟩
              rw [hframe, framesOf, List.length_append]
              omega
          | false =>
              rcases List.mem_cons.1 h with rfl | h
              · exact ⟨[], items, rfl, rfl, rfl⟩
              · obtain ⟨before, after, rfl, hframe, hskip⟩ := ih h
                refine ⟨.txn log :: before, after, rfl, ?_, hskip⟩
                rw [hframe, framesOf, List.length_append]
                omega

/-- **A log is delivered or passed over.** -/
theorem perm_delivered_passedOver (skip : Bool) (iFrame : ℕ) (items : List WalItem) :
    ((delivered f skip iFrame items).map Prod.snd ++ passedOver f skip items).Perm
      (localLogs items) := by
  induction items generalizing skip iFrame with
  | nil => exact List.Perm.refl _
  | cons item items ih =>
      cases item with
      | page frame => exact ih false _
      | txn log =>
          cases skip with
          | true => exact List.perm_middle.trans ((ih false _).cons log)
          | false => exact (ih _ _).cons log

theorem localLogs_append (items more : List WalItem) :
    localLogs (items ++ more) = localLogs items ++ localLogs more :=
  List.filterMap_append ..

theorem localNonces_append (items more : List WalItem) :
    localNonces decode (items ++ more) = localNonces decode items ++ localNonces decode more := by
  rw [localNonces, localLogs_append, List.map_append]
  rfl

/-- The nonce of a log that is delivered is one of the file. -/
theorem nonce_mem_of_mem_delivered {skip : Bool} {iFrame : ℕ} {items : List WalItem}
    {txn : ℕ × Bytes} (h : txn ∈ delivered f skip iFrame items) :
    getTransactionNonce (decode txn.2) ∈ localNonces decode items :=
  List.mem_map_of_mem ((perm_delivered_passedOver skip iFrame items).subset
    (List.mem_append_left _ (List.mem_map_of_mem h)))

/-- The logs of an increasing file have different nonces. -/
theorem IncreasingNonces.inj {items : List WalItem}
    (h : IncreasingNonces b decode items) {log log' : Bytes} (hlog : log ∈ localLogs items)
    (hlog' : log' ∈ localLogs items)
    (heq : getTransactionNonce (decode log) = getTransactionNonce (decode log')) : log = log' :=
  List.inj_on_of_nodup_map (h.sorted.imp fun hless => Int.ne_of_lt hless) hlog hlog' heq

/-- A nonce is that of one log, which is delivered or passed over, but not both. -/
theorem IncreasingNonces.not_delivered {items : List WalItem}
    (h : IncreasingNonces b decode items) {txn : ℕ × Bytes} {log : Bytes}
    (htxn : txn ∈ delivered f false 1 items) (hlog : log ∈ passedOver f false items) :
    getTransactionNonce (decode txn.2) ≠ getTransactionNonce (decode log) := by
  have hnodup : (localNonces decode items).Nodup :=
    h.sorted.imp fun hless => Int.ne_of_lt hless
  have hperm := (perm_delivered_passedOver (f := f) false 1 items).map
    fun log => getTransactionNonce (decode log)
  rw [List.map_append] at hperm
  exact List.disjoint_of_nodup_append (hperm.nodup_iff.2 hnodup)
    (List.mem_map_of_mem (List.mem_map_of_mem htxn)) ∘ fun heq => heq ▸ List.mem_map_of_mem hlog

/-! ## The search from a frame -/

/-- The log of a nonce, with its first frame. -/
def searchTxn (decode : Bytes → Log) (txns : List (ℕ × Bytes)) (nonce : ℤ) : Option (ℕ × Bytes) :=
  txns.find? fun txn => getTransactionNonce (decode txn.2) = nonce

theorem searchTxn_eq_some {txns : List (ℕ × Bytes)} {nonce : ℤ} {txn : ℕ × Bytes}
    (h : searchTxn decode txns nonce = some txn) :
    txn ∈ txns ∧ getTransactionNonce (decode txn.2) = nonce := by
  refine ⟨List.mem_of_find?_eq_some h, ?_⟩
  have hfound := List.find?_some h
  exact of_decide_eq_true hfound

/-- The iteration ends at the log that is searched for. -/
def EndsAt (nonce : ℤ) (r : Rc × GetLocalTxn) : Option (ℕ × Bytes) → Prop
  | some (iFrame, log) => r = (.interrupt, ⟨nonce, iFrame, some log⟩)
  | none => (r.1 = .empty ∨ r.1 = .ok) ∧ r.2 = ⟨nonce, 0, none⟩

/-- **The callback is called until a log has the nonce.** -/
theorem endsAt_callAll {nonce : ℤ} (h : nonce ≠ 0) (txns : List (ℕ × Bytes)) :
    EndsAt nonce (callAll (aergoliteGetLocalTxnCb decode) txns ⟨nonce, 0, none⟩)
      (searchTxn decode txns nonce) := by
  induction txns with
  | nil => exact ⟨.inr rfl, rfl⟩
  | cons txn txns ih =>
      obtain ⟨iFrame, log⟩ := txn
      rw [callAll_cons, searchTxn, List.find?_cons]
      by_cases hnonce : getTransactionNonce (decode log) = nonce
      · have hcall : aergoliteGetLocalTxnCb decode iFrame log ⟨nonce, 0, none⟩ =
            (.interrupt, ⟨nonce, iFrame, some log⟩) :=
          (if_pos (.inr hnonce)).trans (by rw [hnonce])
        rw [hcall, if_pos nofun, decide_eq_true hnonce]
        rfl
      · have hcall : aergoliteGetLocalTxnCb decode iFrame log ⟨nonce, 0, none⟩ =
            (.ok, ⟨nonce, 0, none⟩) :=
          if_neg (not_or.2 ⟨h, hnonce⟩)
        rw [hcall, if_neg (not_not.2 rfl), decide_eq_false hnonce]
        exact ih

/-- **From the first frame of a log on**, the iteration delivers what it delivers there. -/
theorem aergoliteIterateWalFrom_append {σ : Type} {callback : LogCallback σ}
    {before after : List WalItem} {log : Bytes} (s : σ)
    (h : ∀ item ∈ before ++ .txn log :: after, item.Valid b) :
    aergoliteIterateWalFrom b f (framesOf f (before ++ .txn log :: after)) callback
        ((framesOf f before).length + 1) s =
      callAll callback
        (delivered f false ((framesOf f before).length + 1) (.txn log :: after)) s := by
  have hdrop : (framesOf f (before ++ .txn log :: after)).drop (framesOf f before).length =
      framesOf f (.txn log :: after) := by
    rw [framesOf_append, List.drop_left]
  have hnil : framesOf f (before ++ .txn log :: after) ≠ [] := by
    intro hnil
    obtain ⟨frame, rest, hcons, -⟩ :=
      @logFrames_tail f log (h (.txn log) (List.mem_append_right _ List.mem_cons_self)).1
    rw [hnil, List.drop_nil, framesOf, hcons] at hdrop
    exact List.cons_ne_nil _ _ hdrop.symm
  have hloop := @iterateForward_items f σ b callback _ _ false
    (framesOf f (before ++ .txn log :: after)).length (framesOf f before).length
    (fun item hitem => h item (List.mem_append_right _ hitem)) hdrop (by omega) s
  unfold aergoliteIterateWalFrom
  rw [if_neg hnil]
  dsimp only
  rw [if_pos (Nat.succ_ne_zero _)]
  exact hloop

/-- **Nothing is missed before the remembered frame**: those logs have lower nonces. -/
theorem searchTxn_append {before after : List WalItem} {log : Bytes} {nonce : ℤ}
    (h : IncreasingNonces b decode (before ++ .txn log :: after))
    (hskip : skipAfter f false before = false)
    (hle : getTransactionNonce (decode log) ≤ nonce) :
    searchTxn decode (delivered f false 1 (before ++ .txn log :: after)) nonce =
      searchTxn decode
        (delivered f false ((framesOf f before).length + 1) (.txn log :: after)) nonce := by
  have hsorted := h.sorted
  rw [localNonces_append, List.pairwise_append] at hsorted
  have hbefore : searchTxn decode (delivered f false 1 before) nonce = none := by
    refine List.find?_eq_none.2 fun txn htxn heq => ?_
    have hless : getTransactionNonce (decode txn.2) < getTransactionNonce (decode log) :=
      hsorted.2.2 _ (nonce_mem_of_mem_delivered htxn) _ List.mem_cons_self
    have hnonce := of_decide_eq_true heq
    omega
  unfold searchTxn at hbefore ⊢
  rw [delivered_append, List.find?_append, hbefore, Option.none_or, hskip, Nat.add_comm 1]

/-- The search from the beginning. -/
theorem endsAt_zero {items : List WalItem} (h : ∀ item ∈ items, item.Valid b) {nonce : ℤ}
    (hpos : 0 < nonce) :
    EndsAt nonce
      (aergoliteIterateWalFrom b f (framesOf f items) (aergoliteGetLocalTxnCb decode) 0
        ⟨nonce, 0, none⟩)
      (searchTxn decode (delivered f false 1 items) nonce) := by
  rw [aergoliteIterateWalFrom_zero]
  rcases aergoliteIterateWal_forward (f := f) (aergoliteGetLocalTxnCb decode) h
    ⟨nonce, 0, none⟩ with ⟨hrc, hargs, hnil⟩ | heq
  · rw [hnil]
    exact ⟨.inl hrc, hargs⟩
  · rw [heq]
    exact endsAt_callAll hpos.ne' _

/-- What the node remembers is never further than the transactions it is going to search for. -/
structure SendingNode.Tracks (b : BinnReader) (f : PageFormat) (decode : Bytes → Log)
    (s : SendingNode) : Prop where
  increasing : IncreasingNonces b decode s.walLocal
  active : s.maxActiveNonce = 0 → localNonces decode s.walLocal = []
  processed : 0 ≤ s.lastProcessedNonce
  /-- The frame is the first one of a log that is delivered. -/
  position : s.lastSentFrame = 0 ∨ ∃ before log after,
    s.walLocal = before ++ .txn log :: after ∧
      s.lastSentFrame = (framesOf f before).length + 1 ∧
      getTransactionNonce (decode log) = s.lastSentNonce ∧ skipAfter f false before = false

namespace SendingNode

variable {s : SendingNode}

/-- **The search from the remembered frame finds what is delivered from the beginning.** -/
theorem Tracks.endsAt (h : s.Tracks b f decode) {nonce : ℤ} (hpos : 0 < nonce) :
    EndsAt nonce
      (aergoliteIterateWalFrom b f (framesOf f s.walLocal) (aergoliteGetLocalTxnCb decode)
        (if nonce < s.lastSentNonce then 0 else s.lastSentFrame) ⟨nonce, 0, none⟩)
      (searchTxn decode (delivered f false 1 s.walLocal) nonce) := by
  by_cases hless : nonce < s.lastSentNonce
  · rw [if_pos hless]
    exact endsAt_zero h.increasing.valid hpos
  · rw [if_neg hless]
    rcases h.position with hzero | ⟨before, log, after, hitems, hframe, hnonce, hskip⟩
    · rw [hzero]
      exact endsAt_zero h.increasing.valid hpos
    · have hincreasing := h.increasing
      rw [hitems] at hincreasing ⊢
      rw [hframe, aergoliteIterateWalFrom_append _ hincreasing.valid,
        searchTxn_append hincreasing hskip (by omega)]
      exact endsAt_callAll hpos.ne' _

/-- What `aergolite_get_local_transaction` returns and remembers, where the search ends at a log or
at none. -/
def FetchEnds (b : BinnReader) (f : PageFormat) (decode : Bytes → Log) (s : SendingNode)
    (pnonce : ℤ) : Option (ℕ × Bytes) → Prop
  | some (iFrame, log) => aergoliteGetLocalTransaction b f decode s pnonce =
      (.ok (s.sought pnonce, some log),
        { s with lastSentNonce := s.sought pnonce, lastSentFrame := iFrame })
  | none => ∃ rc, (rc = .empty ∨ rc = .notfound) ∧
      aergoliteGetLocalTransaction b f decode s pnonce = (.error rc, s)

theorem fetchEnds_of_endsAt {pnonce : ℤ} {found : Option (ℕ × Bytes)}
    (hpos : 0 < s.sought pnonce) (hactive : s.maxActiveNonce ≠ 0)
    (h : EndsAt (s.sought pnonce)
      (aergoliteIterateWalFrom b f (framesOf f s.walLocal) (aergoliteGetLocalTxnCb decode)
        (if s.sought pnonce < s.lastSentNonce then 0 else s.lastSentFrame)
        ⟨s.sought pnonce, 0, none⟩) found) :
    FetchEnds b f decode s pnonce found := by
  have hsought : (if pnonce ≤ s.lastProcessedNonce then s.lastProcessedNonce + 1 else pnonce) =
      s.sought pnonce := by
    unfold sought
    split_ifs <;> omega
  unfold FetchEnds aergoliteGetLocalTransaction
  rw [if_neg hactive]
  dsimp only
  rw [hsought]
  unfold aergoliteGetLocalTxn
  generalize aergoliteIterateWalFrom b f (framesOf f s.walLocal) (aergoliteGetLocalTxnCb decode)
    _ _ = r at h ⊢
  obtain ⟨rc, args⟩ := r
  cases found with
  | none =>
      obtain ⟨hrc, hargs⟩ := h
      dsimp only at hrc hargs
      subst hargs
      rcases hrc with rfl | rfl
      · exact ⟨.empty, .inl rfl, by simp⟩
      · exact ⟨.notfound, .inr rfl, by simp [hpos.ne']⟩
  | some txn =>
      cases h
      rfl

/-- **What `aergolite_get_local_transaction` does.** -/
theorem Tracks.fetch_eq (h : s.Tracks b f decode) (pnonce : ℤ) :
    match searchTxn decode (delivered f false 1 s.walLocal) (s.sought pnonce) with
    | some (iFrame, log) => aergoliteGetLocalTransaction b f decode s pnonce =
        (.ok (s.sought pnonce, some log),
          { s with lastSentNonce := s.sought pnonce, lastSentFrame := iFrame })
    | none => ∃ rc, rc ≠ .ok ∧
        aergoliteGetLocalTransaction b f decode s pnonce = (.error rc, s) := by
  have hpos : 0 < s.sought pnonce := by
    have hprocessed := h.processed
    unfold sought
    omega
  by_cases hactive : s.maxActiveNonce = 0
  · have hnone :
        searchTxn decode (delivered f false 1 s.walLocal) (s.sought pnonce) = none := by
      refine List.find?_eq_none.2 fun txn htxn => ?_
      have hmem : getTransactionNonce (decode txn.2) ∈ localNonces decode s.walLocal :=
        nonce_mem_of_mem_delivered htxn
      rw [h.active hactive] at hmem
      exact absurd hmem List.not_mem_nil
    unfold aergoliteGetLocalTransaction
    rw [hnone, if_pos hactive]
    exact ⟨.empty, nofun, rfl⟩
  · have hfetch := fetchEnds_of_endsAt hpos hactive (h.endsAt hpos)
    cases hsearch : searchTxn decode (delivered f false 1 s.walLocal) (s.sought pnonce) with
    | none =>
        rw [hsearch] at hfetch
        obtain ⟨rc, hrc, heq⟩ := hfetch
        exact ⟨rc, by rcases hrc with rfl | rfl <;> decide, heq⟩
    | some txn =>
        rw [hsearch] at hfetch
        exact hfetch

/-- The remembered frame is the first one of a log that is delivered, in a file with whatever
nonces. -/
structure Points (b : BinnReader) (f : PageFormat) (s : SendingNode) : Prop where
  valid : ∀ item ∈ s.walLocal, item.Valid b
  position : s.lastSentFrame = 0 ∨ ∃ before log after,
    s.walLocal = before ++ .txn log :: after ∧
      s.lastSentFrame = (framesOf f before).length + 1 ∧ skipAfter f false before = false

/-- The search goes through some of the logs that are delivered. -/
theorem Points.endsAt (h : s.Points b f) {nonce : ℤ} (hpos : 0 < nonce) {frame : ℕ}
    (hframe : frame = 0 ∨ frame = s.lastSentFrame) :
    ∃ txns, txns ⊆ delivered f false 1 s.walLocal ∧
      EndsAt nonce
        (aergoliteIterateWalFrom b f (framesOf f s.walLocal) (aergoliteGetLocalTxnCb decode) frame
          ⟨nonce, 0, none⟩) (searchTxn decode txns nonce) := by
  by_cases hzero : frame = 0
  · subst hzero
    exact ⟨_, List.Subset.refl _, endsAt_zero h.valid hpos⟩
  · rcases h.position with hnone | ⟨before, log, after, hitems, hbefore, hskip⟩
    · exact absurd (hframe.elim id fun heq => heq.trans hnone) hzero
    · have hvalid := h.valid
      rw [hitems] at hvalid ⊢
      rw [hframe.resolve_left hzero, hbefore]
      refine ⟨delivered f false ((framesOf f before).length + 1) (.txn log :: after), ?_, ?_⟩
      · rw [delivered_append, hskip, Nat.add_comm 1]
        exact List.subset_append_right _ _
      · rw [aergoliteIterateWalFrom_append _ hvalid]
        exact endsAt_callAll hpos.ne' _

/-- **What is fetched from any file**: a log of the file with the nonce that is sought. -/
theorem Points.fetch (h : s.Points b f) {pnonce : ℤ} (hpos : 0 < s.sought pnonce) :
    ∃ found, FetchEnds b f decode s pnonce found ∧
      ∀ txn, found = some txn → txn ∈ delivered f false 1 s.walLocal ∧
        getTransactionNonce (decode txn.2) = s.sought pnonce := by
  by_cases hactive : s.maxActiveNonce = 0
  · refine ⟨none, ⟨.empty, .inl rfl, ?_⟩, nofun⟩
    unfold aergoliteGetLocalTransaction
    rw [if_pos hactive]
  · obtain ⟨txns, hsubset, hends⟩ := @Points.endsAt b f decode s h _ hpos
      (if s.sought pnonce < s.lastSentNonce then 0 else s.lastSentFrame)
      (by split_ifs <;> simp)
    refine ⟨_, fetchEnds_of_endsAt hpos hactive hends, fun txn htxn => ?_⟩
    obtain ⟨hmem, hnonce⟩ := searchTxn_eq_some htxn
    exact ⟨hsubset hmem, hnonce⟩

/-- The frame of a log that is delivered can be remembered. -/
theorem Points.remember (h : s.Points b f) {txn : ℕ × Bytes}
    (htxn : txn ∈ delivered f false 1 s.walLocal) (nonce : ℤ) :
    Points b f { s with lastSentNonce := nonce, lastSentFrame := txn.1 } := by
  obtain ⟨before, after, hitems, hframe, hskip⟩ := exists_of_mem_delivered htxn
  refine ⟨h.valid, .inr ⟨before, txn.2, after, hitems, ?_, hskip⟩⟩
  show txn.1 = (framesOf f before).length + 1
  omega

theorem Tracks.fetch_some (h : s.Tracks b f decode) {pnonce : ℤ} {txn : ℕ × Bytes}
    (hsearch : searchTxn decode (delivered f false 1 s.walLocal) (s.sought pnonce) = some txn) :
    aergoliteGetLocalTransaction b f decode s pnonce = (.ok (s.sought pnonce, some txn.2),
      { s with lastSentNonce := s.sought pnonce, lastSentFrame := txn.1 }) := by
  have hfetch := h.fetch_eq pnonce
  rw [hsearch] at hfetch
  exact hfetch

theorem Tracks.fetch_none (h : s.Tracks b f decode) {pnonce : ℤ}
    (hsearch : searchTxn decode (delivered f false 1 s.walLocal) (s.sought pnonce) = none) :
    ∃ rc, rc ≠ .ok ∧ aergoliteGetLocalTransaction b f decode s pnonce = (.error rc, s) := by
  have hfetch := h.fetch_eq pnonce
  rw [hsearch] at hfetch
  exact hfetch

/-! ## In every run -/

theorem Tracks.fetch (h : s.Tracks b f decode) (pnonce : ℤ) :
    (aergoliteGetLocalTransaction b f decode s pnonce).2.Tracks b f decode := by
  cases hsearch : searchTxn decode (delivered f false 1 s.walLocal) (s.sought pnonce) with
  | none =>
      obtain ⟨rc, -, heq⟩ := h.fetch_none hsearch
      rw [heq]
      exact h
  | some txn =>
      obtain ⟨htxn, hnonce⟩ := searchTxn_eq_some hsearch
      obtain ⟨before, after, hitems, hframe, hskip⟩ := exists_of_mem_delivered htxn
      rw [h.fetch_some hsearch]
      refine ⟨h.increasing, h.active, h.processed, .inr ⟨before, txn.2, after, hitems, ?_, hnonce,
        hskip⟩⟩
      show txn.1 = (framesOf f before).length + 1
      omega

theorem Tracks.append (h : s.Tracks b f decode) {pages : List Frame} {log : Bytes}
    (hincreasing : IncreasingNonces b decode (s.appended pages log)) :
    Tracks b f decode
      { s with
        walLocal := s.appended pages log
        maxActiveNonce := getTransactionNonce (decode log) } := by
  have hpos : 0 < getTransactionNonce (decode log) := by
    refine hincreasing.positive _ ?_
    rw [appended, localNonces_append, localNonces_append]
    exact List.mem_append_right _ (List.mem_append_right _ List.mem_cons_self)
  refine ⟨hincreasing, fun hzero => absurd hzero hpos.ne', h.processed, ?_⟩
  rcases h.position with hzero | ⟨before, sent, after, hitems, hframe, hnonce, hskip⟩
  · exact .inl hzero
  · refine .inr ⟨before, sent, after ++ (pages.map .page ++ [.txn log]), ?_, hframe, hnonce, hskip⟩
    show s.walLocal ++ _ = _
    rw [hitems, List.append_assoc, List.cons_append]

theorem Tracks.rotated (h : s.Tracks b f decode) {walNew : List WalItem}
    (hnew : IncreasingNonces b decode walNew) : (s.rotated walNew).Tracks b f decode := by
  have hprocessed := h.processed
  unfold SendingNode.rotated
  by_cases hless : s.lastProcessedNonce < s.maxActiveNonce
  · rw [if_pos hless]
    refine ⟨hnew, fun hzero => ?_, h.processed, .inl rfl⟩
    dsimp only at hzero
    omega
  · rw [if_neg hless]
    exact ⟨⟨nofun, nofun, List.Pairwise.nil⟩, fun _ => rfl, h.processed, .inl rfl⟩

/-- **What the node remembers is right in every run.** -/
theorem invariant_tracks : (system b f decode).Invariant (Tracks b f decode) where
  init s h := by
    refine ⟨h.increasing, fun hzero => ?_, h.processed, .inl h.sent.2⟩
    have hmax := h.max.symm.trans hzero
    rcases List.eq_nil_or_concat' (localNonces decode s.walLocal) with hnil | ⟨_, last, hlast⟩
    · exact hnil
    · rw [hlast, List.getLast?_concat, Option.getD_some] at hmax
      have hpos := h.increasing.positive last (hlast ▸ List.mem_append_right _ List.mem_cons_self)
      omega
  step s a t h hs := by
    cases a with
    | fetch pnonce =>
        obtain rfl := hs
        exact h.fetch pnonce
    | append pages log =>
        obtain ⟨hincreasing, rfl⟩ := hs
        exact h.append hincreasing
    | processed nonce =>
        obtain ⟨hle, rfl⟩ := hs
        exact ⟨h.increasing, h.active, Int.le_trans h.processed hle, h.position⟩
    | rotate walNew =>
        obtain ⟨hnew, rfl⟩ := hs
        exact h.rotated hnew

/-- **A transaction is fetched exactly where its log is not passed over.** -/
theorem Tracks.fetched_iff (h : s.Tracks b f decode) (pnonce : ℤ) :
    s.Fetches b f decode pnonce ↔
      ∀ log ∈ passedOver f false s.walLocal, getTransactionNonce (decode log) ≠ s.sought pnonce := by
  have hperm := perm_delivered_passedOver (f := f) false 1 s.walLocal
  constructor
  · intro hfetches log hlog hnonce
    have hfound := hfetches.found log (hperm.subset (List.mem_append_right _ hlog)) hnonce
    cases hsearch : searchTxn decode (delivered f false 1 s.walLocal) (s.sought pnonce) with
    | none =>
        obtain ⟨rc, -, heq⟩ := h.fetch_none hsearch
        rw [heq] at hfound
        exact nomatch hfound
    | some txn =>
        obtain ⟨htxn, hsought⟩ := searchTxn_eq_some hsearch
        exact h.increasing.not_delivered htxn hlog (hsought.trans hnonce.symm)
  · intro hpassed
    cases hsearch : searchTxn decode (delivered f false 1 s.walLocal) (s.sought pnonce) with
    | none =>
        refine ⟨fun log hlog hnonce => ?_, fun _ => h.fetch_none hsearch⟩
        rcases List.mem_append.1 (hperm.symm.subset hlog) with hmem | hmem
        · obtain ⟨txn, htxn, rfl⟩ := List.mem_map.1 hmem
          exact absurd (decide_eq_true hnonce) (List.find?_eq_none.1 hsearch txn htxn)
        · exact absurd hnonce (hpassed log hmem)
    | some txn =>
        obtain ⟨htxn, hsought⟩ := searchTxn_eq_some hsearch
        refine ⟨fun log hlog hnonce => ?_, fun habsent => absurd ?_ habsent⟩
        · rw [h.fetch_some hsearch, h.increasing.inj hlog
            (hperm.subset (List.mem_append_left _ (List.mem_map_of_mem htxn)))
            (hnonce.trans hsought.symm)]
        · exact hsought ▸ nonce_mem_of_mem_delivered htxn

/-- Nothing is passed over where pages have no reserved bytes. -/
theorem passedOver_of_noReserve (h : f.nReserve = 0) (items : List WalItem) :
    passedOver f false items = [] := by
  have hover : ∀ log, ¬f.Overcounts log := fun log hover => by
    have := hover.2
    omega
  induction items with
  | nil => rfl
  | cons item items ih =>
      cases item with
      | page frame => exact ih
      | txn log =>
          rw [passedOver, decide_eq_false (hover log)]
          exact ih

/-- **Without reserved bytes, every local transaction is fetched.** -/
theorem fetched_of_noReserve (hreserve : f.nReserve = 0) (h : (system b f decode).Reachable s)
    (pnonce : ℤ) : s.Fetches b f decode pnonce :=
  ((invariant_tracks.reachable h).fetched_iff pnonce).2 fun log hlog => by
    rw [passedOver_of_noReserve hreserve] at hlog
    exact absurd hlog List.not_mem_nil

/-- **In every run, a local transaction is fetched exactly where its log is not passed over.** -/
theorem fetches_iff (h : (system b f decode).Reachable s) (pnonce : ℤ) :
    s.Fetches b f decode pnonce ↔
      ∀ log ∈ passedOver f false s.walLocal, getTransactionNonce (decode log) ≠ s.sought pnonce :=
  (invariant_tracks.reachable h).fetched_iff pnonce

/-! ## A special transaction -/

/-- The items of a list of `true`, numbers of eight bytes and texts. -/
def listItems : ℕ → Bytes → Log
  | fuel + 1, 0x01 :: rest => .bool true :: listItems fuel rest
  | fuel + 1, 0x81 :: rest =>
    .int64 ((rest.take 8).foldl (fun n byte => n * 256 + byte.toNat) 0 : ℕ) ::
      listItems fuel (rest.drop 8)
  | fuel + 1, 0xA0 :: a :: rest =>
    if a < 128 then
      .string ((rest.take a.toNat).map fun byte => Char.ofNat byte.toNat) ::
        listItems fuel (rest.drop (a.toNat + 1))
    else
      let size := (rest.take 3).foldl (fun n byte => n * 256 + byte.toNat) (a.toNat - 128)
      .string (((rest.drop 3).take size).map fun byte => Char.ofNat byte.toNat) ::
        listItems fuel (rest.drop (size + 4))
  | _, _ => []

/-- The items of a list, behind its size and their count. -/
def readList : Bytes → Log
  | 0xE0 :: a :: rest => listItems rest.length (rest.drop (if a < 128 then 1 else 4))
  | _ => []

/-- A transaction with the nonce 1 and a command of 480 characters. -/
def longTxn : Bytes :=
  [0xE0, 0x80, 0, 1, 0xF5, 2, 0x81, 0, 0, 0, 0, 0, 0, 0, 1, 0xA0, 0x80, 0, 1, 0xE0] ++
    List.replicate 480 0x2D ++ [0]

/-- A special transaction with the nonce 2. -/
def specialTxn : Bytes := [0xE0, 13, 2, 0x81, 0, 0, 0, 0, 0, 0, 0, 2, 0x01]

theorem nonce_longTxn : getTransactionNonce (readList longTxn) = 1 := by
  decide +kernel

theorem valid_longTxn : (WalItem.txn longTxn).Valid listReader := by
  have hlength : longTxn.length = 501 := by decide +kernel
  exact ⟨List.cons_ne_nil _ _, fun more => hlength ▸ rfl, fun more => rfl⟩

theorem valid_specialTxn : (WalItem.txn specialTxn).Valid listReader :=
  ⟨List.cons_ne_nil _ _, fun _ => rfl, fun _ => rfl⟩

/-- What the file of a node with the two transactions has: the second one without pages, as it is
special, or with one. -/
def twoTxns (pages : List Frame) : List WalItem :=
  .txn longTxn :: (pages.map .page ++ [.txn specialTxn])

theorem increasing_twoTxns {pages : List Frame} (h : ∀ page ∈ pages, page.pgno ≠ logTransaction) :
    IncreasingNonces listReader readList (twoTxns pages) := by
  have hnonces : localNonces readList (twoTxns pages) = [1, 2] := by
    have hpages : localLogs (pages.map .page ++ [.txn specialTxn]) = [specialTxn] := by
      rw [localLogs_append]
      simp [localLogs, List.filterMap_map]
    show getTransactionNonce (readList longTxn) ::
      (localLogs (pages.map .page ++ [.txn specialTxn])).map _ = _
    rw [hpages, nonce_longTxn]
    rfl
  refine ⟨fun item hitem => ?_, by rw [hnonces]; decide, by rw [hnonces]; decide⟩
  rcases List.mem_cons.1 hitem with rfl | hitem
  · exact valid_longTxn
  · rcases List.mem_append.1 hitem with hmem | hspecial
    · obtain ⟨page, hpage, rfl⟩ := List.mem_map.1 hmem
      exact h page hpage
    · rw [List.mem_singleton.1 hspecial]
      exact valid_specialTxn

/-- The node after it has sent the first of the two. -/
def sentOne (pages : List Frame) : SendingNode := ⟨twoTxns pages, 2, 0, 1, 1⟩

theorem reachable_sentOne {pages : List Frame} (h : ∀ page ∈ pages, page.pgno ≠ logTransaction) :
    (system listReader reservedFormat readList).Reachable (sentOne pages) := by
  have hone : IncreasingNonces listReader readList [.txn longTxn] :=
    ⟨fun item hitem => List.mem_singleton.1 hitem ▸ valid_longTxn, fun nonce hnonce => by
      rw [List.mem_singleton.1 hnonce]
      show 0 < getTransactionNonce (readList longTxn)
      rw [nonce_longTxn]
      exact Int.one_pos, List.pairwise_singleton _ _⟩
  have hempty : (system listReader reservedFormat readList).Reachable ⟨[], 0, 0, 0, 0⟩ :=
    .init ⟨⟨nofun, nofun, List.Pairwise.nil⟩, rfl, Int.le_refl 0, rfl, rfl⟩
  have hfirst : (system listReader reservedFormat readList).Reachable
      ⟨[.txn longTxn], 1, 0, 0, 0⟩ := by
    refine .step (.append [] longTxn) hempty ⟨hone, ?_⟩
    rw [nonce_longTxn]
    rfl
  have hsearch : searchTxn readList (delivered reservedFormat false 1 [.txn longTxn]) 1 =
      some (1, longTxn) :=
    List.find?_cons_of_pos (decide_eq_true nonce_longTxn)
  have hsent : (system listReader reservedFormat readList).Reachable
      ⟨[.txn longTxn], 1, 0, 1, 1⟩ := by
    have hfetch := @Tracks.fetch_some _ _ _ _ (invariant_tracks.reachable hfirst) 1 _ hsearch
    exact .step (.fetch 1) hfirst (congrArg Prod.snd hfetch).symm
  exact .step (.append pages specialTxn) hsent ⟨increasing_twoTxns h, rfl⟩

/-- The special transaction directly follows the log of two frames, and is not found. -/
theorem special_not_fetched :
    (system listReader reservedFormat readList).Reachable (sentOne []) ∧
      (aergoliteGetLocalTransaction listReader reservedFormat readList (sentOne []) 2).1 =
        .error .notfound ∧
      ¬(sentOne []).Fetches listReader reservedFormat readList 2 := by
  have hreachable := @reachable_sentOne [] nofun
  refine ⟨hreachable, by decide +kernel, fun hfetches => ?_⟩
  have hpassed := ((invariant_tracks.reachable hreachable).fetched_iff 2).1 hfetches specialTxn
    (by decide +kernel)
  exact hpassed (by decide +kernel)

/-- With a page between them, it is found. -/
theorem fetches_pageBetween :
    (sentOne [⟨1, []⟩]).Fetches listReader reservedFormat readList 2 := by
  refine (fetches_iff (reachable_sentOne fun page hpage => ?_) 2).2 ?_
  · rw [List.mem_singleton.1 hpage]
    decide
  · decide +kernel

end SendingNode

end Core
end AergoLite
