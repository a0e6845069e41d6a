/-
# The order in which votes arrive

Votes reach a block in three ways: they are stored while it has not arrived and are
transferred to it when it does, they are counted as they arrive, and the node casts
its own.  `Recorded` says that in each state the votes that are known for the block
under a key, whether counted or stored, are those that were accepted and the node's
own, and that the block has counted all of them.  It does not say in which order
(`tempVotes_perm`).
-/

import AergoLite.NoLeader.Refinement

namespace AergoLite
namespace NoLeader

open AergoLite.Core
open Transition

variable {D : Type}

/-- The vote is of a node, in a round, on the block under a key. -/
structure StoredVote.On (key : ℤ × Bytes) (round : Fin 2) (nodeId : ℤ) (vote : StoredVote) :
    Prop where
  height : vote.height = key.1
  id : vote.blockId = key.2
  round : vote.round = round
  nodeId : vote.nodeId = nodeId

/-- What stands for a pointer to the block. -/
def Ballot.key (b : Ballot) : ℤ × Bytes := (b.height, b.id)

@[simp] theorem Ballot.key_add (b : Ballot) (round : Fin 2) (nodeId : ℤ) (sig : Bytes) :
    (b.add round nodeId sig).key = b.key := rfl

/-- A vote is added to those there are. -/
theorem Ballot.hasVote_add {b : Ballot} {round round' : Fin 2} {nodeId nodeId' : ℤ} {sig : Bytes} :
    (b.add round nodeId sig).HasVote round' nodeId' ↔
      b.HasVote round' nodeId' ∨ round' = round ∧ nodeId' = nodeId := by
  by_cases hround : round' = round
  · subst hround
    simp only [HasVote, add, Function.update_self, List.mem_append, List.mem_singleton,
      or_and_right, exists_or, exists_eq_left, true_and]
    exact or_congr_right eq_comm
  · simp [HasVote, add, hround]

namespace View

/-- A vote of a node on the block under a key is known: it is counted, or stored. -/
def Knows (v : View) (key : ℤ × Bytes) (round : Fin 2) (nodeId : ℤ) : Prop :=
  (∃ b ∈ v.ballots, b.key = key ∧ b.HasVote round nodeId) ∨
    ∃ vote ∈ v.stored, vote.On key round nodeId

/-- The node has sent a vote on the block. -/
def Sent (v : View) (key : ℤ × Bytes) (round : Fin 2) : Prop := ⟨key.1, round, key.2⟩ ∈ v.sent

/-- The votes on the block under a key are on record: until its height is reached they are
the accepted ones and the node's own, and a block that has arrived has counted them. -/
structure Recorded (key : ℤ × Bytes) (accepted : Fin 2 → ℤ → Prop) (v : View) : Prop where
  above : ∀ b ∈ v.ballots, b.key = key → v.current < key.1
  single : (v.ballots.countP fun b => b.key = key) ≤ 1
  complete : ∀ b ∈ v.ballots, b.key = key → ∀ vote ∈ v.stored, vote.height = key.1 →
    vote.blockId = key.2 → b.HasVote vote.round vote.nodeId
  knows : v.current < key.1 → ∀ round nodeId, v.Knows key round nodeId ↔
    accepted round nodeId ∨ nodeId = v.nodeId ∧ v.Sent key round

variable {key : ℤ × Bytes} {accepted : Fin 2 → ℤ → Prop} {v w : View}

theorem Recorded.congr {accepted' : Fin 2 → ℤ → Prop} (hv : v.Recorded key accepted)
    (h : ∀ round nodeId, accepted round nodeId ↔ accepted' round nodeId) :
    v.Recorded key accepted' :=
  ⟨hv.above, hv.single, hv.complete, fun hcurrent round nodeId =>
    (hv.knows hcurrent round nodeId).trans (or_congr_left (h round nodeId))⟩

/-- There is one block under the key. -/
theorem Recorded.unique (hv : v.Recorded key accepted) {b b' : Ballot} (hb : b ∈ v.ballots)
    (hkey : b.key = key) (hb' : b' ∈ v.ballots) (hkey' : b'.key = key) : b' = b := by
  obtain ⟨rest, hballots⟩ := Multiset.exists_cons_of_mem hb
  have hsingle := hv.single
  rw [hballots, Multiset.countP_cons, if_pos hkey] at hsingle
  have hnone : rest.countP (fun b => b.key = key) = 0 := by omega
  rw [hballots] at hb'
  refine (Multiset.mem_cons.1 hb').resolve_right fun hmem => ?_
  exact Multiset.countP_eq_zero.1 hnone b' hmem hkey'

/-- A vote is added to one of the ballots. -/
theorem Recorded.addVote {accepted' : Fin 2 → ℤ → Prop} (hv : v.Recorded key accepted) {b : Ballot}
    {rest : Multiset Ballot} {round : Fin 2} {nodeId : ℤ} {sig : Bytes}
    (hballots : v.ballots = b ::ₘ rest) (hw : w.ballots = b.add round nodeId sig ::ₘ rest)
    (hstored : w.stored = v.stored) (hcurrent : w.current = v.current)
    (hknows : ∀ round' nodeId', (accepted' round' nodeId' ∨ nodeId' = w.nodeId ∧ w.Sent key round') ↔
      (accepted round' nodeId' ∨ nodeId' = v.nodeId ∧ v.Sent key round') ∨
        b.key = key ∧ round' = round ∧ nodeId' = nodeId) : w.Recorded key accepted' := by
  refine ⟨fun b' hb' hkey => ?_, ?_, fun b' hb' hkey vote hvote hheight hid => ?_,
    fun hnext round' nodeId' => ?_⟩
  · have hold := hv.above
    simp only [hballots, Multiset.forall_mem_cons] at hold
    rw [hw] at hb'
    rw [hcurrent]
    rcases Multiset.mem_cons.1 hb' with rfl | hb'
    · exact hold.1 hkey
    · exact hold.2 b' hb' hkey
  · have hsingle := hv.single
    rw [hballots, Multiset.countP_cons] at hsingle
    rwa [hw, Multiset.countP_cons, Ballot.key_add]
  · rw [hstored] at hvote
    rw [hw] at hb'
    have hold : ∀ b' ∈ v.ballots, b'.key = key → b'.HasVote vote.round vote.nodeId :=
      fun b' hb' hkey => hv.complete b' hb' hkey vote hvote hheight hid
    simp only [hballots, Multiset.forall_mem_cons] at hold
    rcases Multiset.mem_cons.1 hb' with rfl | hb'
    · exact Ballot.hasVote_add.2 (.inl (hold.1 hkey))
    · exact hold.2 b' hb' hkey
  · rw [hknows, ← hv.knows (hcurrent ▸ hnext)]
    simp only [Knows, hballots, hw, hstored, Multiset.mem_cons, or_and_right, exists_or,
      exists_eq_left, Ballot.key_add, Ballot.hasVote_add, and_or_left]
    exact (or_congr_left or_right_comm).trans or_right_comm

/-- **A step of the node's own keeps the record.** -/
theorem Recorded.own {sign : Bytes → Bytes → Option Bytes} {allow : Allow}
    (hv : v.Recorded key accepted) (hs : Own sign allow v w) : w.Recorded key accepted := by
  cases hs with
  | still h hballots hstored hsent =>
      have hcurrent := h.current
      refine ⟨?_, hballots ▸ hv.single, ?_, fun hnext round nodeId => ?_⟩
      · rw [hballots, hcurrent]
        exact hv.above
      · rw [hballots, hstored]
        exact hv.complete
      · have hknows := hv.knows (hcurrent ▸ hnext) round nodeId
        unfold Knows Sent at *
        rwa [hballots, hstored, hsent, h.node.1]
  | @vote b rest round sig hballots _ =>
      refine hv.addVote hballots rfl rfl rfl fun round' nodeId' => ?_
      have hsent : b.key = key ∧ round' = round ↔
          (⟨key.1, round', key.2⟩ : Vote) = ⟨b.height, round, b.id⟩ := by
        simp only [Ballot.key, Prod.ext_iff, Vote.mk.injEq]
        tauto
      simp only [Sent, List.mem_append, List.mem_singleton, ← hsent]
      tauto

/-- **A commit keeps the record.** -/
theorem Recorded.commits (hv : v.Recorded key accepted) (hs : Commits v w) :
    w.Recorded key accepted := by
  cases hs with
  | @mk b rest _ _ _ hballots hheight =>
      have hrest : ∀ b' ∈ rest, b' ∈ v.ballots := by
        rw [hballots]
        exact fun b' => Multiset.mem_cons_of_mem
      refine ⟨fun b' hb' hkey => ?_, ?_, fun b' hb' hkey vote hvote hvoteHeight hid => ?_,
        fun hnext round nodeId => ?_⟩
      · exact (Multiset.mem_filter.1 hb').2.trans_eq (congrArg Prod.fst hkey)
      · refine le_trans ?_ hv.single
        rw [hballots]
        exact Multiset.countP_le_of_le _ ((Multiset.filter_le _ _).trans (Multiset.le_cons_self _ _))
      · exact hv.complete b' (hrest b' (Multiset.mem_filter.1 hb').1) hkey vote
          (List.mem_filter.1 hvote).1 hvoteHeight hid
      · have hlower : b.height < key.1 := hnext
        have hne : b.key ≠ key := fun h => hlower.ne (congrArg Prod.fst h)
        -- what is on the block under the key is kept
        have hkept : ∀ b' : Ballot, b' ∈ rest.filter (fun other => b.height < other.height) ∧
            b'.key = key ↔ b' ∈ v.ballots ∧ b'.key = key := by
          intro b'
          rw [hballots, Multiset.mem_filter, Multiset.mem_cons]
          refine ⟨fun h => ⟨.inr h.1.1, h.2⟩, fun h => ⟨⟨?_, ?_⟩, h.2⟩⟩
          · exact h.1.resolve_left fun heq => hne (heq ▸ h.2)
          · exact hlower.trans_eq (congrArg Prod.fst h.2).symm
        have hstored : ∀ vote : StoredVote, vote.height = key.1 →
            (vote ∈ v.stored.filter (fun vote => decide (b.height ≤ vote.height)) ↔
              vote ∈ v.stored) := by
          intro vote hvote
          rw [List.mem_filter, decide_eq_true_eq, hvote]
          exact and_iff_left hlower.le
        refine Iff.trans ?_ (hv.knows (by omega) round nodeId)
        refine or_congr (exists_congr fun b' => ?_) (exists_congr fun vote => ?_)
        · rw [← and_assoc, ← and_assoc, hkept b']
        · exact and_congr_left fun hon => hstored vote hon.height

/-- **A handler that brings no vote and no block keeps the record.** -/
theorem Recorded.handledBy {sign : Bytes → Bytes → Option Bytes} {allow : Allow}
    (hv : v.Recorded key accepted) (hs : HandledBy (Own sign allow) v w) :
    w.Recorded key accepted := by
  obtain ⟨u, hu, rfl | hend⟩ := hs.before hv fun _ _ hv hs => hv.own hs
  · exact hu
  · exact hu.commits hend

/-- A vote that is known already changes nothing. -/
theorem Recorded.known {vote : StoredVote} (hv : v.Recorded key accepted)
    (h : v.current < key.1 → ∀ round nodeId, vote.On key round nodeId →
      v.Knows key round nodeId) :
    v.Recorded key fun round nodeId => accepted round nodeId ∨ vote.On key round nodeId := by
  refine ⟨hv.above, hv.single, hv.complete, fun hnext round nodeId => ?_⟩
  rw [or_right_comm, ← hv.knows hnext]
  exact ⟨.inl, fun hknown => hknown.elim id (h hnext round nodeId)⟩

/-- A vote is stored while its block has not arrived. -/
theorem Recorded.store {vote : StoredVote} (hv : v.Recorded key accepted)
    (hnone : ∀ b ∈ v.ballots, b.key ≠ (vote.height, vote.blockId)) :
    ({ v with stored := v.stored ++ [vote] } : View).Recorded key
      fun round nodeId => accepted round nodeId ∨ vote.On key round nodeId := by
  refine ⟨hv.above, hv.single, fun b hb hkey other hother hheight hid => ?_,
    fun hnext round nodeId => ?_⟩
  · rcases List.mem_append.1 hother with hother | hother
    · exact hv.complete b hb hkey other hother hheight hid
    · obtain rfl := List.mem_singleton.1 hother
      exact absurd (hkey.trans (Prod.ext hheight.symm hid.symm)) (hnone b hb)
  · rw [or_right_comm]
    refine Iff.trans ?_ (or_congr_left (hv.knows hnext round nodeId))
    simp only [Knows, List.mem_append, List.mem_singleton, or_and_right, exists_or, exists_eq_left,
      or_assoc]

/-- A block arrives, and has counted what was stored. -/
theorem Recorded.addBallot {b : Ballot} (hv : v.Recorded key accepted)
    (habove : b.key = key → v.current < key.1)
    (hfresh : b.key = key → ∀ other ∈ v.ballots, other.key ≠ key)
    (hstored : b.key = key → ∀ round nodeId, b.HasVote round nodeId ↔
      ∃ vote ∈ v.stored, vote.On key round nodeId) :
    ({ v with ballots := b ::ₘ v.ballots } : View).Recorded key accepted := by
  refine ⟨Multiset.forall_mem_cons.2 ⟨habove, hv.above⟩, ?_,
    fun other hother hkey vote hvote hheight hid => ?_, fun hnext round nodeId => ?_⟩
  · show (b ::ₘ v.ballots).countP _ ≤ 1
    rw [Multiset.countP_cons]
    split_ifs with hkey
    · have hnone : v.ballots.countP (fun other => other.key = key) = 0 :=
        Multiset.countP_eq_zero.2 (hfresh hkey)
      omega
    · exact hv.single
  · rcases Multiset.mem_cons.1 hother with rfl | hother
    · exact (hstored hkey _ _).2 ⟨vote, hvote, hheight, hid, rfl, rfl⟩
    · exact hv.complete other hother hkey vote hvote hheight hid
  · refine Iff.trans ?_ (hv.knows hnext round nodeId)
    simp only [Knows, Multiset.mem_cons, or_and_right, exists_or, exists_eq_left, or_assoc]
    refine or_iff_right_of_imp fun h => .inr ((hstored h.1 round nodeId).1 h.2)

end View

/-! ## Events -/

/-- The vote arrives and is accepted. -/
def Accepts (net : Net D) (vote : StoredVote) (p : Plugin D) (e : Event) : Prop :=
  ∃ msg ∈ e.message, msg.accepted net p = true ∧ msg.vote = vote

/-- The node creates the block under a key itself. -/
def Creates (net : Net D) (key : ℤ × Bytes) (p : Plugin D) (e : Event) : Prop :=
  ∃ timestamp ∈ e.creationTime, ∃ block ∈ createdBlock net p timestamp, block.key = key

section
variable {net : Net D} {key : ℤ × Bytes} {accepted : Fin 2 → ℤ → Prop} {p : Plugin D}

theorem View.Recorded.leads {allow : Allow} {q : Plugin D} (hp : p.view.Recorded key accepted)
    (h : Leads net allow p q) : q.view.Recorded key accepted :=
  hp.handledBy ⟨_, h.path, .inl rfl⟩

/-- **`on_block_vote`** puts a vote on record. -/
theorem recorded_countVote {vote : StoredVote} (hp : p.view.Recorded key accepted) :
    (countVote net vote p).view.Recorded key
      fun round nodeId => accepted round nodeId ∨ vote.On key round nodeId := by
  cases hfind : findBlock (vote.height, vote.blockId) p.newBlocks with
  | none =>
      have hnone : ∀ b ∈ p.view.ballots, b.key ≠ (vote.height, vote.blockId) := by
        intro b hb
        obtain ⟨block, hblock, rfl⟩ := List.mem_map.1 (Multiset.mem_coe.1 hb)
        have hkey := List.find?_eq_none.1 hfind block hblock
        rw [beq_iff_eq] at hkey
        exact hkey
      rw [(countVote_none hfind).2]
      split_ifs with hnew
      · unfold storeBlockVote
        split_ifs with hstored
        · refine hp.known fun _ round nodeId hon => .inr ?_
          obtain ⟨other, hother, heq⟩ := List.any_eq_true.1 hstored
          simp only [Bool.and_eq_true, beq_iff_eq] at heq
          exact ⟨other, hother, heq.1.1.1.trans hon.height, heq.1.1.2.trans hon.id,
            heq.2.trans hon.round, heq.1.2.trans hon.nodeId⟩
        · exact hp.store hnone
      · refine hp.known fun hnext round nodeId hon => ?_
        exact absurd (hnext.trans_eq hon.height.symm) hnew
  | some block =>
      have hcount := @countVote_some _ net (allow net p .blockWaitTimeout) vote p block hfind
      obtain ⟨hkey, -⟩ := findBlock_split hfind
      split_ifs at hcount with hvoted
      · rw [hcount]
        refine hp.known fun _ round nodeId hon => .inl ⟨block.ballot, ?_, ?_, ?_⟩
        · exact Multiset.mem_coe.2 (List.mem_map_of_mem (List.mem_of_find?_eq_some hfind))
        · exact hkey.trans (Prod.ext hon.height hon.id)
        · rw [← hon.round, ← hon.nodeId]
          exact hasVote_iff.1 hvoted
      · rw [Bool.not_eq_true] at hvoted
        obtain ⟨rest, hrest, hview⟩ := view_addBlockVote hfind hvoted
        refine View.Recorded.handledBy ?_ hcount.own
        rw [hview]
        refine View.Recorded.addVote hp hrest rfl rfl rfl fun round nodeId => ?_
        · have hon : vote.On key round nodeId ↔
              block.ballot.key = key ∧ round = vote.round ∧ nodeId = vote.nodeId := by
            rw [show block.ballot.key = (vote.height, vote.blockId) from hkey, Prod.ext_iff]
            exact ⟨fun h => ⟨⟨h.height, h.id⟩, h.round.symm, h.nodeId.symm⟩,
              fun h => ⟨h.1.1, h.1.2, h.2.1.symm, h.2.2.symm⟩⟩
          rw [← hon, or_right_comm]
          exact Iff.rfl

theorem hasVote_addBlockVote {block : Block} {round round' : Fin 2} {nodeId nodeId' : ℤ}
    {sig : Bytes} : (addBlockVote round nodeId sig block).hasVote round' nodeId' = true ↔
      block.hasVote round' nodeId' = true ∨ round' = round ∧ nodeId' = nodeId := by
  cases hvoted : block.hasVote round nodeId with
  | true =>
      rw [addBlockVote, if_pos hvoted]
      refine (or_iff_left_of_imp ?_).symm
      rintro ⟨rfl, rfl⟩
      exact hvoted
  | false => rw [hasVote_iff, hasVote_iff, ballot_addBlockVote hvoted, Ballot.hasVote_add]

/-- **`transfer_block_votes`** gives a block the votes that are stored for it. -/
theorem hasVote_transferBlockVotes {votes : List StoredVote} {block : Block} {round : Fin 2}
    {nodeId : ℤ} : (transferBlockVotes votes block).hasVote round nodeId = true ↔
      block.hasVote round nodeId = true ∨ ∃ vote ∈ votes, vote.On block.key round nodeId := by
  induction votes generalizing block with
  | nil => simp [transferBlockVotes]
  | cons vote votes ih =>
      have hcons : transferBlockVotes (vote :: votes) block = transferBlockVotes votes
          (if vote.height = block.height ∧ vote.blockId = block.id then
            addBlockVote vote.round vote.nodeId vote.sig block else block) := rfl
      rw [hcons, ih, List.exists_mem_cons_iff, ← or_assoc]
      split_ifs with hvote
      · have hkey : (addBlockVote vote.round vote.nodeId vote.sig block).key = block.key := by
          unfold addBlockVote
          split_ifs <;> rfl
        have hon : vote.On block.key round nodeId ↔ round = vote.round ∧ nodeId = vote.nodeId :=
          ⟨fun h => ⟨h.round.symm, h.nodeId.symm⟩,
            fun h => ⟨hvote.1, hvote.2, h.1.symm, h.2.symm⟩⟩
        rw [hasVote_addBlockVote, hkey, hon]
      · have hnot : ¬ vote.On block.key round nodeId := fun h => hvote ⟨h.height, h.id⟩
        rw [or_iff_left hnot]

/-- **`on_new_block`** leaves the votes on record. -/
theorem recorded_addNewBlock {header : Header} {body : Body} {vrfOutput : Bytes}
    (hp : p.view.Recorded key accepted) :
    (addNewBlock net header body vrfOutput p).view.Recorded key accepted := by
  rcases @addNewBlock_cases _ net (allow net p .blockWaitTimeout) header body vrfOutput p with
    heq | ⟨block, hnone, -, hheight, hfresh, hrest⟩
  · exact heq.symm ▸ hp
  obtain ⟨-, hkey⟩ := transferBlockVotes_transferred p.blockVotes hnone
  have hhandled := hrest.own
  rw [view_addBlock] at hhandled
  refine (hp.addBallot (fun h => ?_) (fun h => ?_) fun h round nodeId => ?_).handledBy hhandled
  · rw [← h, show (transferBlockVotes p.blockVotes block).ballot.key = block.key from hkey]
    exact hheight
  · intro other hother heq
    obtain ⟨b, hb, rfl⟩ := List.mem_map.1 (Multiset.mem_coe.1 hother)
    exact hfresh b hb (heq.trans (h.symm.trans hkey))
  · have hempty : block.hasVote round nodeId = false := by
      simp [Block.hasVote, hnone]
    have hblock : block.key = key := hkey.symm.trans h
    rw [← hasVote_iff, hasVote_transferBlockVotes, hempty, hblock]
    exact or_iff_right Bool.false_ne_true

/-- **The creation of another block** leaves the votes on record. -/
theorem recorded_onNewBlockTimeout {timestamp : ℤ} (hp : p.view.Recorded key accepted)
    (hcreates : ∀ block ∈ createdBlock net p timestamp, block.key ≠ key) :
    (onNewBlockTimeout net timestamp p).view.Recorded key accepted := by
  rcases @onNewBlockTimeout_cases _ net (allow net p .blockWaitTimeout) timestamp p with
    h | ⟨block, hcreated, r, hlead, -, -, -, hrest⟩
  · exact hp.leads h
  · have hadded : ({ r with newBlocks := r.newBlocks ++ [block] } : Plugin D).view.Recorded key
        accepted := by
      have hother : block.ballot.key ≠ key := hcreates block hcreated
      rw [view_addBlock]
      exact (hp.leads hlead).addBallot (fun h => absurd h hother) (fun h => absurd h hother)
        fun h => absurd h hother
    exact hadded.leads hrest

/-- **One event.** -/
theorem recorded_step {q : Plugin D} {e : Event} (hp : p.view.Recorded key accepted)
    (hs : step net p e = some q) (hcreates : ¬ Creates net key p e) :
    q.view.Recorded key fun round nodeId =>
      accepted round nodeId ∨ ∃ vote, vote.On key round nodeId ∧ Accepts net vote p e := by
  -- an event that brings no vote
  have hnone : e.message = none → q.view.Recorded key accepted →
      q.view.Recorded key fun round nodeId =>
        accepted round nodeId ∨ ∃ vote, vote.On key round nodeId ∧ Accepts net vote p e := by
    intro hmessage hq
    refine hq.congr fun round nodeId => (or_iff_left ?_).symm
    rintro ⟨vote, -, msg, hmsg, -⟩
    simp [hmessage] at hmsg
  cases e with
  | blockVote msg =>
      obtain rfl := Option.some.inj hs
      have haccepts : ∀ vote, Accepts net vote p (.blockVote msg) ↔
          msg.accepted net p = true ∧ msg.vote = vote := by simp [Accepts, Event.message]
      simp only [haccepts]
      unfold onBlockVote
      split_ifs with haccepted
      · refine (recorded_countVote hp).congr fun round nodeId => ?_
        simp [haccepted]
      · refine hp.congr fun round nodeId => ?_
        simp [haccepted]
  | newBlock header body proof =>
      obtain rfl := Option.some.inj hs
      refine hnone rfl ?_
      unfold onNewBlock
      split_ifs
      · exact hp
      · exact hp
      · split
        · exact hp
        · exact recorded_addNewBlock hp
  | newBlockTimeout timestamp =>
      obtain ⟨-, rfl⟩ : p.newBlockTimer = true ∧ onNewBlockTimeout net timestamp p = q := by
        simpa [step] using hs
      refine hnone rfl (recorded_onNewBlockTimeout hp fun block hblock hkey => ?_)
      exact hcreates ⟨timestamp, rfl, block, hblock, hkey⟩
  | _ => exact hnone rfl (hp.handledBy (step_decides net hs trivial).own)

/-- **A run.** -/
theorem recorded_run {q : Plugin D} {es : List Event} (hp : p.view.Recorded key accepted)
    (hr : System.run (step net) p es = some q)
    (hcreates : ¬ System.Meets (step net) (Creates net key) p es) :
    q.view.Recorded key fun round nodeId => accepted round nodeId ∨
      ∃ vote, vote.On key round nodeId ∧ System.Meets (step net) (Accepts net vote) p es := by
  induction es generalizing p accepted with
  | nil =>
      obtain rfl := Option.some.inj hr
      refine hp.congr fun round nodeId => (or_iff_left ?_).symm
      rintro ⟨vote, -, h⟩
      exact nomatch h
  | cons e es ih =>
      obtain ⟨u, hu, hr⟩ := Option.bind_eq_some_iff.1 hr
      rw [System.Meets.cons_iff hu, not_or] at hcreates
      refine (ih (recorded_step hp hu hcreates.1) hr hcreates.2).congr fun round nodeId => ?_
      simp only [System.Meets.cons_iff hu, and_or_left, exists_or, or_assoc]

end

/-! ## The votes of a run -/

/-- The node has cast the vote. -/
structure View.Cast (sign : Bytes → Bytes → Option Bytes) (v : View) (vote : StoredVote) :
    Prop where
  node : vote.nodeId = v.nodeId
  sent : ⟨vote.height, vote.round, vote.blockId⟩ ∈ v.sent
  sig : sign v.pubkey vote.blockId = some vote.sig

section
variable {net : Net D} {P : StoredVote → Prop} {p q : Plugin D}

/-- The votes that are counted or stored have a property, or the node has cast them. -/
abbrev TallyOrCast (net : Net D) (P : StoredVote → Prop) (v : View) : Prop :=
  Tally (fun vote => P vote ∨ v.Cast net.ecdsaSign vote) v

theorem tallyOrCast_step {e : Event} (hp : TallyOrCast net P p.view)
    (hs : step net p e = some q) (hnew : ∀ vote, Accepts net vote p e → P vote) :
    TallyOrCast net P q.view := by
  refine (step_handled net hs).invariant (I := TallyOrCast net P) hp (fun v w hv hw => ?_)
    fun v w hv hw => ?_
  · obtain ⟨hnode, hpubkey⟩ := hw.node
    refine hv.micro hw (fun vote => Or.imp_right fun h => ?_) (fun vote hvote => ?_)
      fun b _ round sig _ _ hsig hsent => .inr ⟨hnode.symm, ?_, hpubkey.symm ▸ hsig⟩
    · exact ⟨hnode ▸ h.node, hw.sent h.sent, hpubkey ▸ h.sig⟩
    · obtain ⟨msg, rfl, haccepted, rfl, -⟩ := hvote
      exact .inl (hnew _ ⟨msg, rfl, haccepted, rfl⟩)
    · rw [hsent]
      exact List.mem_append_right _ List.mem_cons_self
  · refine (hv.commits hw).mono fun vote => Or.imp_right fun h => ?_
    cases hw
    exact ⟨h.node, h.sent, h.sig⟩

/-- **What is counted or stored at the end of a run was accepted in it, or cast.** -/
theorem tallyOrCast_run {es : List Event} (hp : TallyOrCast net P p.view)
    (hr : System.run (step net) p es = some q)
    (hnew : ∀ vote, System.Meets (step net) (Accepts net vote) p es → P vote) :
    TallyOrCast net P q.view := by
  induction es generalizing p with
  | nil => exact Option.some.inj hr ▸ hp
  | cons e es ih =>
      obtain ⟨u, hu, hr⟩ := Option.bind_eq_some_iff.1 hr
      simp only [System.Meets.cons_iff hu] at hnew
      exact ih (tallyOrCast_step hp hu fun vote h => hnew vote (.inl h)) hr
        fun vote h => hnew vote (.inr h)

end

section
variable (net : Net D)

/-- A vote of a run: it is accepted, or the node casts it. -/
def Voted (p : Plugin D) (es : List Event) (q : Plugin D) (vote : StoredVote) : Prop :=
  System.Meets (step net) (Accepts net vote) p es ∨ q.view.Cast net.ecdsaSign vote

variable {net} {p q : Plugin D} {es : List Event}

theorem recorded_of_fresh (hp : p.Fresh) (key : ℤ × Bytes) :
    p.view.Recorded key fun _ _ => False := by
  refine ⟨?_, ?_, ?_, ?_⟩
  all_goals simp [Plugin.view, Plugin.viewOf, View.Knows, View.Sent, hp.newBlocks, hp.blockVotes,
    hp.sent]

/-- The votes on a block after a run from the start. -/
structure CountsRun (net : Net D) (p : Plugin D) (es : List Event) (q : Plugin D) (block : Block) :
    Prop where
  count : ∀ round, block.numVotes round = (block.tempVotes round).length
  nodup : ∀ round, ((block.tempVotes round).map BlockVote.nodeId).Nodup
  voted : ∀ round, ∀ vote ∈ block.tempVotes round,
    Voted net p es q ⟨vote.nodeId, round, block.height, block.id, vote.sig⟩
  counted : ∀ vote, vote.height = block.height → vote.blockId = block.id → Voted net p es q vote →
    ∃ other ∈ block.tempVotes vote.round, other.nodeId = vote.nodeId

/-- **A block has counted the votes of the run**, and these only. -/
theorem countsRun_of_run (hp : p.Fresh) (hr : System.run (step net) p es = some q) {block : Block}
    (hblock : block ∈ q.newBlocks)
    (hcreates : ¬ System.Meets (step net) (Creates net block.key) p es) :
    CountsRun net p es q block := by
  have hmem : block.ballot ∈ q.view.ballots :=
    Multiset.mem_coe.2 (List.mem_map_of_mem hblock)
  have htally : TallyOrCast net (fun vote => System.Meets (step net) (Accepts net vote) p es)
      q.view := by
    refine tallyOrCast_run ⟨?_, ?_, ?_, ?_⟩ hr fun _ h => h
    all_goals simp [Plugin.view, Plugin.viewOf, hp.newBlocks, hp.blockVotes]
  have hrecorded := recorded_run (recorded_of_fresh hp block.key) hr hcreates
  refine ⟨htally.count _ hmem, htally.nodup _ hmem, htally.counted _ hmem,
    fun vote hheight hid hvote => ?_⟩
  have hon : vote.On block.key vote.round vote.nodeId := ⟨hheight, hid, rfl, rfl⟩
  have hknown : q.view.Knows block.key vote.round vote.nodeId := by
    refine (hrecorded.knows (hrecorded.above _ hmem rfl) _ _).2 ?_
    rcases hvote with hvote | hvote
    · exact .inl (.inr ⟨vote, hon, hvote⟩)
    · refine .inr ⟨hvote.node, ?_⟩
      have hsent := hvote.sent
      rwa [hheight, hid] at hsent
  rcases hknown with ⟨b, hb, hkey, hvoted⟩ | ⟨other, hother, hon'⟩
  · obtain rfl := hrecorded.unique hmem rfl hb hkey
    exact hvoted
  · have hvoted := hrecorded.complete _ hmem rfl other hother hon'.height hon'.id
    rwa [hon'.round, hon'.nodeId] at hvoted

/-- Two blocks that have counted the same votes have them of the same nodes. -/
theorem CountsRun.voters_perm {p' q' : Plugin D} {es' : List Event} {block block' : Block}
    (h : CountsRun net p es q block) (h' : CountsRun net p' es' q' block')
    (hkey : block'.key = block.key)
    (hsame : ∀ vote, vote.height = block.height → vote.blockId = block.id →
      (Voted net p es q vote ↔ Voted net p' es' q' vote)) (round : Fin 2) :
    ((block.tempVotes round).map BlockVote.nodeId).Perm
      ((block'.tempVotes round).map BlockVote.nodeId) := by
  obtain ⟨hheight, hid⟩ := Prod.mk.inj hkey
  rw [List.perm_ext_iff_of_nodup (h.nodup round) (h'.nodup round)]
  intro nodeId
  simp only [List.mem_map]
  constructor
  · rintro ⟨vote, hvote, rfl⟩
    exact h'.counted _ hheight.symm hid.symm ((hsame _ rfl rfl).1 (h.voted round vote hvote))
  · rintro ⟨vote, hvote, rfl⟩
    have hvoted := h'.voted round vote hvote
    rw [hheight, hid] at hvoted
    exact h.counted _ rfl rfl ((hsame _ rfl rfl).2 hvoted)

/-- They have the same votes, where each node has given one signature in a round. -/
theorem CountsRun.tempVotes_perm {p' q' : Plugin D} {es' : List Event} {block block' : Block}
    (h : CountsRun net p es q block) (h' : CountsRun net p' es' q' block')
    (hkey : block'.key = block.key)
    (hsame : ∀ vote, vote.height = block.height → vote.blockId = block.id →
      (Voted net p es q vote ↔ Voted net p' es' q' vote))
    (honce : ∀ round nodeId sig sig',
      Voted net p es q ⟨nodeId, round, block.height, block.id, sig⟩ →
      Voted net p es q ⟨nodeId, round, block.height, block.id, sig'⟩ → sig = sig')
    (round : Fin 2) : (block.tempVotes round).Perm (block'.tempVotes round) := by
  obtain ⟨hheight, hid⟩ := Prod.mk.inj hkey
  rw [List.perm_ext_iff_of_nodup (h.nodup round).of_map (h'.nodup round).of_map]
  rintro ⟨nodeId, sig⟩
  constructor
  · intro hvote
    have hvoted := h.voted round _ hvote
    obtain ⟨⟨nodeId', sig'⟩, hother, rfl⟩ :=
      h'.counted _ hheight.symm hid.symm ((hsame _ rfl rfl).1 hvoted)
    have hvoted' := h'.voted round _ hother
    rw [hheight, hid] at hvoted'
    rwa [honce round _ sig sig' hvoted ((hsame _ rfl rfl).2 hvoted')]
  · intro hvote
    have hvoted := h'.voted round _ hvote
    rw [hheight, hid] at hvoted
    have hvoted := (hsame _ rfl rfl).2 hvoted
    obtain ⟨⟨nodeId', sig'⟩, hother, rfl⟩ := h.counted _ rfl rfl hvoted
    rwa [honce round _ sig sig' hvoted (h.voted round _ hother)]

end

/-- **Votes are counted in any order.**  In every state a node reaches, a block has as many
votes as are counted for it, each of another node.  After two runs from the start in which
the same votes on a block are accepted or cast, a block that arrives and is not committed
has votes of the same nodes, and the same votes if each node has given one signature in a
round, whichever of the votes arrived before it. -/
theorem tempVotes_counted (net : Net D) :
    (∀ q, (node net).Reachable q → ∀ block ∈ q.newBlocks, ∀ round,
      block.numVotes round = (block.tempVotes round).length ∧
      ((block.tempVotes round).map BlockVote.nodeId).Nodup) ∧
    ∀ {p p' q q' : Plugin D} {es es' : List Event} {block block' : Block}, p.Fresh → p'.Fresh →
      System.run (step net) p es = some q → System.run (step net) p' es' = some q' →
      block ∈ q.newBlocks → block' ∈ q'.newBlocks → block'.key = block.key →
      ¬ System.Meets (step net) (Creates net block.key) p es →
      ¬ System.Meets (step net) (Creates net block.key) p' es' →
      (∀ vote, vote.height = block.height → vote.blockId = block.id →
        (Voted net p es q vote ↔ Voted net p' es' q' vote)) →
      ∀ round, ((block.tempVotes round).map BlockVote.nodeId).Perm
          ((block'.tempVotes round).map BlockVote.nodeId) ∧
        block.numVotes round = block'.numVotes round ∧
        ((∀ round nodeId sig sig',
            Voted net p es q ⟨nodeId, round, block.height, block.id, sig⟩ →
            Voted net p es q ⟨nodeId, round, block.height, block.id, sig'⟩ → sig = sig') →
          (block.tempVotes round).Perm (block'.tempVotes round)) := by
  refine ⟨fun q hq block hblock round => ?_, fun hp hp' hr hr' hblock hblock' hkey hnot hnot' hsame
    round => ?_⟩
  · have hinv : (node net).Invariant fun p => TallyOrCast net (fun _ => True) p.view := by
      refine ⟨fun p hp => ⟨?_, ?_, ?_, ?_⟩, fun p e q hp hs => tallyOrCast_step hp hs fun _ _ => trivial⟩
      all_goals simp [Plugin.view, Plugin.viewOf, hp.newBlocks, hp.blockVotes]
    have htally := hinv.reachable hq
    have hmem : block.ballot ∈ q.view.ballots := Multiset.mem_coe.2 (List.mem_map_of_mem hblock)
    exact ⟨htally.count _ hmem round, htally.nodup _ hmem round⟩
  · have h := countsRun_of_run hp hr hblock hnot
    have h' := countsRun_of_run hp' hr' hblock' (hkey ▸ hnot')
    have hvoters := h.voters_perm h' hkey hsame round
    refine ⟨hvoters, ?_, fun honce => h.tempVotes_perm h' hkey hsame honce round⟩
    rw [h.count, h'.count]
    simpa using hvoters.length_eq

/-- A run in which the node creates no block. -/
theorem not_creates {net : Net D} {key : ℤ × Bytes} {p : Plugin D} {es : List Event}
    (h : ∀ e ∈ es, e.creationTime = none) : ¬ System.Meets (step net) (Creates net key) p es := by
  refine System.not_meets (I := fun _ => True) (fun _ _ _ => trivial) (fun {p e} _ hnone hcreates => ?_)
    trivial h
  obtain ⟨timestamp, htime, -⟩ := hcreates
  simp [hnone] at htime

/-- The vote that is accepted when its message arrives. -/
theorem accepts_iff {net : Net D} {p : Plugin D} {msg : VoteMessage}
    (h : msg.accepted net p = true) {vote : StoredVote} :
    Accepts net vote p (.blockVote msg) ↔ msg.vote = vote := by
  simp [Accepts, Event.message, h]

theorem not_accepts {net : Net D} {p : Plugin D} {e : Event} (h : e.message = none)
    {vote : StoredVote} : ¬ Accepts net vote p e := by
  simp [Accepts, h]

/-- The message with the vote of the second node on the block of the third. -/
def voteOfSecond : VoteMessage := ⟨2, 2, 0, idOf 3, plainSign (keyOf 2) (idOf 3)⟩

/-- What is left of a run of the first node: the votes it has sent, and the keys of the
blocks with their votes of the first round. -/
def outcome (es : List Event) : Option (List Vote × List ((ℤ × Bytes) × ℕ)) :=
  (System.run (step plainNet) (startNode 1) es).map fun q =>
    (q.sent, q.newBlocks.map fun block => (block.key, block.numVotes 0))

theorem exists_of_outcome {es : List Event} (h : outcome es = some ([], [((2, idOf 3), 1)])) :
    ∃ q, System.run (step plainNet) (startNode 1) es = some q ∧ q.sent = [] ∧
      ∃ block ∈ q.newBlocks, block.key = (2, idOf 3) ∧ block.numVotes 0 = 1 := by
  obtain ⟨q, hq, heq⟩ := Option.map_eq_some_iff.1 h
  obtain ⟨hsent, hblocks⟩ := Prod.mk.inj heq
  have hmem : ((2, idOf 3), 1) ∈ q.newBlocks.map fun block => (block.key, block.numVotes 0) :=
    hblocks ▸ List.mem_singleton_self _
  obtain ⟨block, hblock, heq⟩ := List.mem_map.1 hmem
  exact ⟨q, hq, hsent, block, hblock, congrArg Prod.fst heq, congrArg Prod.snd heq⟩

/-- A node that has sent nothing has cast nothing. -/
theorem not_cast {q : Plugin D} (h : q.sent = []) {sign : Bytes → Bytes → Option Bytes}
    {vote : StoredVote} : ¬ q.view.Cast sign vote := by
  intro hcast
  have hsent : _ ∈ q.sent := hcast.sent
  simp [h] at hsent

/-- The vote arrives before the block, and after it. -/
theorem tempVotes_counted_twoOrders : ∃ q q', ∃ block ∈ q.newBlocks, ∃ block' ∈ q'.newBlocks,
    System.run (step plainNet) (startNode 1) [.blockVote voteOfSecond, blockOf 3 []] = some q ∧
    System.run (step plainNet) (startNode 1) [blockOf 3 [], .blockVote voteOfSecond] = some q' ∧
    block.numVotes 0 = 1 ∧ block.numVotes 0 = block'.numVotes 0 := by
  obtain ⟨q, hq, hsent, block, hblock, hkey, hone⟩ :=
    @exists_of_outcome [.blockVote voteOfSecond, blockOf 3 []] (by decide +kernel)
  obtain ⟨q', hq', hsent', block', hblock', hkey', -⟩ :=
    @exists_of_outcome [blockOf 3 [], .blockVote voteOfSecond] (by decide +kernel)
  obtain ⟨u, hu, hrest⟩ := Option.bind_eq_some_iff.1 hq
  obtain ⟨w, hw, -⟩ := Option.bind_eq_some_iff.1 hrest
  obtain ⟨u', hu', hrest⟩ := Option.bind_eq_some_iff.1 hq'
  obtain ⟨w', hw', -⟩ := Option.bind_eq_some_iff.1 hrest
  have haccepted : voteOfSecond.accepted plainNet (startNode 1) = true := by decide +kernel
  have haccepted' : voteOfSecond.accepted plainNet u' = true := by
    have hall : (step plainNet (startNode 1) (blockOf 3 [])).all
        (voteOfSecond.accepted plainNet) = true := by decide +kernel
    simpa [hu'] using hall
  have hsame : ∀ vote, Voted plainNet (startNode 1) [.blockVote voteOfSecond, blockOf 3 []] q vote ↔
      Voted plainNet (startNode 1) [blockOf 3 [], .blockVote voteOfSecond] q' vote := by
    intro vote
    refine or_congr ?_ (iff_of_false (not_cast hsent) (not_cast hsent'))
    rw [System.Meets.cons_iff hu, System.Meets.cons_iff hw, System.Meets.cons_iff hu',
      System.Meets.cons_iff hw', accepts_iff haccepted, accepts_iff haccepted']
    have hblockOf : ∀ p : Plugin Unit, ¬ Accepts plainNet vote p (blockOf 3 []) :=
      fun p => not_accepts rfl
    have hnil : ∀ p : Plugin Unit, ¬ System.Meets (step plainNet) (Accepts plainNet vote) p [] :=
      fun p => nofun
    simp [hblockOf, hnil]
  refine ⟨q, q', block, hblock, block', hblock', hq, hq', hone, ?_⟩
  exact ((tempVotes_counted plainNet).2 (startNodeWith_fresh 1 _) (startNodeWith_fresh 1 _) hq hq'
    hblock hblock' (hkey'.trans hkey.symm) (not_creates (by decide)) (not_creates (by decide))
    (fun vote _ _ => hsame vote) 0).2.1

/-- A node that takes any signature for one. -/
def laxNet : Net Unit := { plainNet with
  crypto := { plainCrypto with ecdsaVerify := fun _ _ _ => true } }

/-- The numbers of votes of the second round on the blocks that are committed. -/
def committedVotes (es : List Event) : Option (List ℕ) :=
  (System.run (step plainNet) (startNode 1) es).map fun q =>
    q.committed.map fun c => c.block.numVotes 1

/-- The votes of the first round on the new blocks. -/
def firstVotes (es : List Event) : Option (List (List BlockVote)) :=
  (System.run (step laxNet) (startNode 1) es).map fun q =>
    q.newBlocks.map fun block => block.tempVotes 0

/-- **The order may matter.**  A block that has its majority is committed, and votes that
arrive later are not counted; of two votes of a node the first is counted. -/
theorem votes_of_order :
    committedVotes [voteBy 2 0 3, voteBy 3 0 3, voteBy 2 1 3, blockOf 3 []] = some [1] ∧
    committedVotes [blockOf 3 [], voteBy 2 0 3, voteBy 3 0 3, voteBy 2 1 3] = some [0] ∧
    firstVotes [voteBy 2 0 3, blockOf 3 [],
      .blockVote { voteOfSecond with sig := List.replicate 64 1 }] =
        some [[⟨2, voteOfSecond.sig⟩]] ∧
    firstVotes [.blockVote { voteOfSecond with sig := List.replicate 64 1 }, blockOf 3 [],
      voteBy 2 0 3] = some [[⟨2, List.replicate 64 1⟩]] := by
  decide +kernel

end NoLeader
end AergoLite
