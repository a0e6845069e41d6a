/-
# The choice of a block to vote on

`choose_block_to_vote` tries the blocks of the next height in the order of their wait
times, moves those that cannot be voted on to a second list and appends this list at the
end; then `check_for_winner_block` may call it again, for the second round.  The loop
ends, whatever `check_block_transactions` and `verify_block` return, no block is lost on
the way, and the block that is voted on comes first among those that can be
(`chooseBlock_spec`).
-/

import AergoLite.Common.LinkedList
import AergoLite.NoLeader.Refinement

namespace AergoLite
namespace NoLeader

open AergoLite.Common
open AergoLite.Core
open Transition

variable {D : Type}

/-! ## The two lists in memory -/

/-- The lists `new_blocks` and `excluded`. -/
structure BlockLists (α : Type*) where
  next : α → Option α
  newBlocks : Option α
  excluded : Option α

section
variable {α : Type*} [DecidableEq α]

/-- `llist_remove(&plugin->new_blocks, winner); llist_add(&excluded, winner)`. -/
def exclude (fuel : ℕ) (m : BlockLists α) (winner : α) : Option (BlockLists α) :=
  (llistRemove fuel m.next m.newBlocks winner).bind fun removed =>
    (llistAdd fuel removed.2 m.excluded winner).map fun added => ⟨added.2, removed.1, added.1⟩

/-- `if( excluded ) llist_add(&plugin->new_blocks, excluded)`. -/
def restore (fuel : ℕ) (m : BlockLists α) : Option (BlockLists α) :=
  match m.excluded with
  | none => some m
  | some first =>
    (llistAdd fuel m.next m.newBlocks first).map fun added => ⟨added.2, added.1, m.excluded⟩

/-- The lists end, with these items, and have none in common. -/
structure BlockLists.Holds (m : BlockLists α) (blocks out : List α) : Prop where
  newBlocks : IsList m.next m.newBlocks blocks
  excluded : IsList m.next m.excluded out
  disjoint : blocks.Disjoint out

/-- **A block is moved to the other list.** -/
theorem exclude_spec {m : BlockLists α} {blocks excluded : List α} (h : m.Holds blocks excluded)
    {winner : α} (hwinner : winner ∈ blocks) {fuel : ℕ}
    (hfuel : blocks.length + excluded.length ≤ fuel) :
    ∃ m', exclude fuel m winner = some m' ∧
      m'.Holds (blocks.erase winner) (excluded ++ [winner]) := by
  obtain ⟨removed, hremove, hblocks, hclear, hsame⟩ := llistRemove_spec h.newBlocks hwinner
    (show blocks.length ≤ fuel by omega)
  have hexcluded : IsList removed.2 m.excluded excluded :=
    h.excluded.congr fun a ha => hsame a fun hmem => h.disjoint hmem ha
  have hsingle : IsList removed.2 (some winner) [winner] := .cons (hclear ▸ .nil)
  have hnot : winner ∉ blocks.erase winner := h.newBlocks.nodup.not_mem_erase
  obtain ⟨added, hadd, hlist, hkept⟩ := llistAdd_spec hexcluded hsingle
    (fun a ha hmem => h.disjoint hwinner (List.mem_singleton.1 hmem ▸ ha))
    (show excluded.length ≤ fuel by omega)
  refine ⟨⟨added.2, removed.1, added.1⟩, by rw [exclude, hremove, Option.bind_some, hadd]; rfl, ?_,
    hlist, ?_⟩
  · exact hblocks.congr fun a ha => hkept a fun hmem => h.disjoint (List.mem_of_mem_erase ha) hmem
  · refine List.disjoint_append_right.2 ⟨fun a ha => h.disjoint (List.mem_of_mem_erase ha), ?_⟩
    exact List.disjoint_singleton.2 hnot

/-- **The second list is appended to the first.** -/
theorem restore_spec {m : BlockLists α} {blocks excluded : List α} (h : m.Holds blocks excluded)
    {fuel : ℕ} (hfuel : blocks.length ≤ fuel) :
    ∃ m', restore fuel m = some m' ∧ IsList m'.next m'.newBlocks (blocks ++ excluded) := by
  have hexcluded := h.excluded
  unfold restore
  cases hfirst : m.excluded with
  | none =>
      rw [hfirst] at hexcluded
      cases hexcluded
      exact ⟨m, rfl, by simpa using h.newBlocks⟩
  | some first =>
      rw [hfirst] at hexcluded
      cases hexcluded with
      | cons rest =>
          obtain ⟨added, hadd, hlist, -⟩ := llistAdd_spec h.newBlocks (.cons rest) h.disjoint hfuel
          exact ⟨⟨added.2, added.1, some first⟩, by simp only [hadd, Option.map_some], hlist⟩

end

/-! ## The loop -/

/-- What of a block the choice and the winner check do not change. -/
def Block.identity (block : Block) : Block :=
  { block.fixed with votes := [] }

/-- The blocks that are tried and put aside before the rest: each has the lowest wait time
of those left, is not open, and fails. -/
inductive Fails (net : Net D) : Plugin D → List Block → Plugin D → Prop
  | nil (p : Plugin D) : Fails net p [] p
  | cons {p q : Plugin D} {block : Block} {failed : List Block}
      (hlowest : lowestWaitTime p.nextBlocks = some block)
      (hopen : p.openBlock ≠ some block.key)
      (hfails : (verifyWinner net p block).1 ≠ .ok)
      (hrest : Fails net { (verifyWinner net p block).2 with
        newBlocks := removeBlock block.key (verifyWinner net p block).2.newBlocks } failed q) :
      Fails net p (block :: failed) q

/-- How the trials end: no block is left, or the one with the lowest wait time is open or
verifies. -/
inductive Stops (net : Net D) (p : Plugin D) : Option Block → Plugin D → Prop
  | none (hnone : p.nextBlocks = []) : Stops net p none p
  | opened {block : Block} (hlowest : lowestWaitTime p.nextBlocks = some block)
      (hopen : p.openBlock = some block.key) : Stops net p (some block) p
  | verified {block : Block} (hlowest : lowestWaitTime p.nextBlocks = some block)
      (hopen : p.openBlock ≠ some block.key) (hok : (verifyWinner net p block).1 = .ok) :
      Stops net p (some block) (verifyWinner net p block).2

theorem lowestWaitTime_eq_none {blocks : List Block} :
    lowestWaitTime blocks = none ↔ blocks = [] := by
  cases blocks with
  | nil => simp [lowestWaitTime]
  | cons block blocks =>
      simp only [lowestWaitTime, reduceCtorEq, iff_false]
      split
      · simp
      · split_ifs <;> simp

theorem lowestWaitTime_le {blocks : List Block} {winner : Block}
    (h : lowestWaitTime blocks = some winner) {block : Block} (hblock : block ∈ blocks) :
    winner.waitTime ≤ block.waitTime := by
  induction blocks generalizing winner with
  | nil => simp at hblock
  | cons head blocks ih =>
      simp only [lowestWaitTime] at h
      cases hlowest : lowestWaitTime blocks with
      | none =>
          rw [lowestWaitTime_eq_none] at hlowest
          subst hlowest
          obtain rfl : head = winner := by simpa [lowestWaitTime] using h
          rw [List.mem_singleton.1 hblock]
      | some other =>
          simp only [hlowest] at h
          rcases List.mem_cons.1 hblock with rfl | hmem
          · split_ifs at h with hlt
            · obtain rfl := Option.some.inj h
              exact hlt.le
            · exact (Option.some.inj h).symm ▸ le_rfl
          · have hle := ih hlowest hmem
            split_ifs at h with hlt
            · exact Option.some.inj h ▸ hle
            · obtain rfl := Option.some.inj h
              omega

/-- The wait times stay while a block is tried. -/
theorem keys_verifyWinner (net : Net D) (p : Plugin D) (block : Block) :
    (verifyWinner net p block).2.newBlocks.map (fun b => (b.key, b.waitTime)) =
      p.newBlocks.map fun b => (b.key, b.waitTime) :=
  map_verifyWinner (fun _ _ => rfl) net p block

theorem currentHeight_verifyWinner (net : Net D) (p : Plugin D) (block : Block) :
    (verifyWinner net p block).2.currentHeight = p.currentHeight :=
  congrArg View.current ((still_verifyWinner net p block).rest [])

/-- A block that has been tried is still on the list, under its key. -/
theorem exclude_winner (net : Net D) {p : Plugin D} {winner : Block}
    (hwinner : winner ∈ p.nextBlocks) :
    ∃ moved, findBlock winner.key (verifyWinner net p winner).2.newBlocks = some moved ∧
      moved.key = winner.key ∧
      (removeBlock winner.key (verifyWinner net p winner).2.newBlocks).length + 1 =
        p.newBlocks.length := by
  have hkeys : (verifyWinner net p winner).2.newBlocks.map Block.key = p.newBlocks.map Block.key :=
    map_verifyWinner (fun _ _ => rfl) net p winner
  have hmem : winner.key ∈ (verifyWinner net p winner).2.newBlocks.map Block.key := by
    rw [hkeys]
    exact List.mem_map_of_mem (mem_nextBlocks.1 hwinner).1
  obtain ⟨other, hother, hkey⟩ := List.mem_map.1 hmem
  cases hfind : findBlock winner.key (verifyWinner net p winner).2.newBlocks with
  | none => exact absurd hkey (by simpa using List.find?_eq_none.1 hfind other hother)
  | some moved =>
      obtain ⟨hmoved, before, after, heq, hremove, -⟩ := findBlock_split hfind
      have hlength := congrArg List.length hkeys
      rw [List.length_map, List.length_map, heq] at hlength
      refine ⟨moved, rfl, hmoved, ?_⟩
      simp only [hremove, List.length_append, List.length_cons] at hlength ⊢
      omega

/-- **The end of the loop.**  With as much fuel as there are blocks, the blocks that fail are
on the second list, and the trials have ended. -/
theorem chooseLoop_spec (net : Net D) {fuel : ℕ} (excluded : List Block) (p : Plugin D)
    (hfuel : p.newBlocks.length ≤ fuel) :
    ∃ failed s, Fails net p failed s ∧
      Stops net s (chooseLoop net fuel excluded p).1 (chooseLoop net fuel excluded p).2.2 ∧
      (chooseLoop net fuel excluded p).2.1.map Block.key =
        excluded.map Block.key ++ failed.map Block.key := by
  induction fuel generalizing excluded p with
  | zero =>
      have hempty : p.newBlocks = [] := List.length_eq_zero_iff.1 (by omega)
      exact ⟨[], p, .nil p, .none (by simp [Plugin.nextBlocks, hempty]), by simp [chooseLoop]⟩
  | succ fuel ih =>
      unfold chooseLoop
      cases hlowest : lowestWaitTime p.nextBlocks with
      | none => exact ⟨[], p, .nil p, .none (lowestWaitTime_eq_none.1 hlowest), by simp⟩
      | some winner =>
          dsimp only
          by_cases hopen : p.openBlock = some winner.key
          · rw [if_pos hopen]
            exact ⟨[], p, .nil p, .opened hlowest hopen, by simp⟩
          rw [if_neg hopen]
          by_cases hok : (verifyWinner net p winner).1 = .ok
          · rw [if_pos hok]
            exact ⟨[], p, .nil p, .verified hlowest hopen hok, by simp⟩
          rw [if_neg hok]
          obtain ⟨moved, hfind, hmoved, hlength⟩ :=
            exclude_winner net (lowestWaitTime_mem hlowest)
          rw [hfind]
          obtain ⟨failed, s, hfails, hstops, hlist⟩ := ih (excluded ++ [moved])
            { (verifyWinner net p winner).2 with
              newBlocks := removeBlock winner.key (verifyWinner net p winner).2.newBlocks }
            (show List.length (removeBlock _ _) ≤ fuel by omega)
          refine ⟨winner :: failed, s, .cons hlowest hopen hok hfails, hstops, ?_⟩
          rw [Option.toList_some, hlist]
          simp [hmoved]

/-- More fuel changes nothing. -/
theorem chooseLoop_succ (net : Net D) {fuel : ℕ} (excluded : List Block) (p : Plugin D)
    (hfuel : p.newBlocks.length ≤ fuel) :
    chooseLoop net (fuel + 1) excluded p = chooseLoop net fuel excluded p := by
  induction fuel generalizing excluded p with
  | zero =>
      have hempty : p.newBlocks = [] := List.length_eq_zero_iff.1 (by omega)
      simp [chooseLoop, Plugin.nextBlocks, hempty, lowestWaitTime]
  | succ fuel ih =>
      rw [chooseLoop, chooseLoop]
      cases hlowest : lowestWaitTime p.nextBlocks with
      | none => rfl
      | some winner =>
          obtain ⟨moved, -, -, hlength⟩ := exclude_winner net (lowestWaitTime_mem hlowest)
          dsimp only
          split_ifs
          · rfl
          · rfl
          · exact ih _ _ (show List.length (removeBlock _ _) ≤ fuel by omega)

theorem chooseLoop_fuel (net : Net D) {fuel : ℕ} (excluded : List Block) (p : Plugin D)
    (hfuel : p.newBlocks.length ≤ fuel) :
    chooseLoop net fuel excluded p = chooseLoop net p.newBlocks.length excluded p := by
  induction fuel, hfuel using Nat.le_induction with
  | base => rfl
  | succ fuel hfuel ih => rw [chooseLoop_succ net excluded p hfuel, ih]

/-! ## What is left after the failures -/

section
variable {net : Net D} {p s : Plugin D} {failed : List Block}

theorem Fails.currentHeight (h : Fails net p failed s) : s.currentHeight = p.currentHeight := by
  induction h with
  | nil p => rfl
  | cons _ _ _ _ ih => exact ih.trans (currentHeight_verifyWinner net _ _)

theorem currentHeight_of_stops {winner : Option Block} {q : Plugin D}
    (h : Stops net s winner q) : q.currentHeight = s.currentHeight := by
  cases h with
  | none => rfl
  | opened => rfl
  | verified => exact currentHeight_verifyWinner net _ _

theorem keys_of_stops {winner : Option Block} {q : Plugin D} (h : Stops net s winner q) :
    q.newBlocks.map Block.key = s.newBlocks.map Block.key := by
  cases h with
  | none => rfl
  | opened => rfl
  | verified => exact map_verifyWinner (fun _ _ => rfl) net _ _

/-- A block of the next height fails, or is still on the list with its wait time. -/
theorem Fails.next (h : Fails net p failed s) {block : Block} (hblock : block ∈ p.nextBlocks) :
    block.key ∈ failed.map Block.key ∨
      ∃ other ∈ s.nextBlocks, other.key = block.key ∧ other.waitTime = block.waitTime := by
  induction h generalizing block with
  | nil p => exact .inr ⟨block, hblock, rfl, rfl⟩
  | @cons p q winner failed hlowest hopen hfails hrest ih =>
      by_cases hkey : block.key = winner.key
      · exact .inl (by simp [hkey])
      obtain ⟨hmem, hheight⟩ := mem_nextBlocks.1 hblock
      have hpair : (block.key, block.waitTime) ∈
          (verifyWinner net p winner).2.newBlocks.map fun b => (b.key, b.waitTime) := by
        rw [keys_verifyWinner]
        exact List.mem_map.2 ⟨block, hmem, rfl⟩
      obtain ⟨other, hother, heq⟩ := List.mem_map.1 hpair
      obtain ⟨hotherKey, hwait⟩ := Prod.mk.inj heq
      have hkept : other ∈ removeBlock winner.key (verifyWinner net p winner).2.newBlocks := by
        refine (List.mem_eraseP_of_neg ?_).2 hother
        simpa [hotherKey] using hkey
      have hnext : other.height = p.currentHeight + 1 :=
        (congrArg Prod.fst hotherKey).trans hheight
      rw [← currentHeight_verifyWinner net p winner] at hnext
      rcases ih (mem_nextBlocks.2 ⟨hkept, hnext⟩) with hfailed | ⟨last, hlast, hk, hw⟩
      · exact .inl (List.mem_cons_of_mem _ (hotherKey ▸ hfailed))
      · exact .inr ⟨last, hlast, hk.trans hotherKey, hw.trans hwait⟩

end

/-! ## The lists in memory, under the keys -/

theorem map_eraseP_key {β κ : Type*} [BEq κ] [LawfulBEq κ] (f : β → κ) (key : κ) (l : List β) :
    (l.eraseP fun b => f b == key).map f = (l.map f).erase key := by
  rw [List.erase_eq_eraseP, List.eraseP_map]
  congr 1
  refine congrArg (fun p => l.eraseP p) (funext fun b => ?_)
  simp [eq_comm]

section
variable {α κ : Type*} [DecidableEq α] [BEq κ] [LawfulBEq κ]

/-- The first block under a key is moved. -/
theorem exclude_keyed {m : BlockLists α} {blocks out : List (α × κ)}
    (h : m.Holds (blocks.map Prod.fst) (out.map Prod.fst)) {key : κ}
    (hkey : key ∈ blocks.map Prod.snd) {fuel : ℕ} (hfuel : blocks.length + out.length ≤ fuel) :
    ∃ item m', item.2 = key ∧ exclude fuel m item.1 = some m' ∧
      m'.Holds ((blocks.eraseP fun b => b.2 == key).map Prod.fst)
        ((out ++ [item]).map Prod.fst) ∧
      ((blocks.eraseP fun b => b.2 == key) ++ [item]).Perm blocks := by
  obtain ⟨other, hother, heq⟩ := List.mem_map.1 hkey
  obtain ⟨item, before, after, -, hitem, rfl, herase⟩ :=
    @List.exists_of_eraseP _ (fun b => b.2 == key) _ _ hother (by simpa using heq)
  have hnodup := h.newBlocks.nodup
  rw [List.map_append, List.map_cons] at hnodup
  have hbefore : item.1 ∉ before.map Prod.fst := fun hmem =>
    (List.nodup_append.1 hnodup).2.2 _ hmem _ List.mem_cons_self rfl
  have hfst : ((before ++ item :: after).map Prod.fst).erase item.1 =
      (before ++ after).map Prod.fst := by
    rw [List.map_append, List.map_cons, List.erase_append_right _ hbefore, List.erase_cons_head,
      List.map_append]
  obtain ⟨m', hexclude, hm'⟩ := exclude_spec h (show item.1 ∈ _ by simp)
    (show _ ≤ fuel by simpa using hfuel)
  refine ⟨item, m', by simpa using hitem, hexclude, ?_, ?_⟩
  · rw [herase, ← hfst, @List.map_append _ _ _ out]
    exact hm'
  · rw [herase]
    exact (List.perm_append_singleton _ _).trans List.perm_middle.symm

end

/-- **The lists in memory follow the failures.**  The first block under the key of each is
moved to the second list. -/
theorem Fails.moved {α : Type*} [DecidableEq α] {net : Net D} {p s : Plugin D}
    {failed : List Block} (h : Fails net p failed s) {m : BlockLists α}
    {blocks out : List (α × (ℤ × Bytes))} {fuel : ℕ}
    (hm : m.Holds (blocks.map Prod.fst) (out.map Prod.fst))
    (hkeys : blocks.map Prod.snd = p.newBlocks.map Block.key)
    (hfuel : blocks.length + out.length ≤ fuel) :
    ∃ moved blocks' : List (α × (ℤ × Bytes)), ∃ m',
      (moved.map Prod.fst).foldlM (exclude fuel) m = some m' ∧
      m'.Holds (blocks'.map Prod.fst) ((out ++ moved).map Prod.fst) ∧
      blocks'.map Prod.snd = s.newBlocks.map Block.key ∧
      moved.map Prod.snd = failed.map Block.key ∧
      (blocks' ++ moved).Perm blocks := by
  induction h generalizing m blocks out with
  | nil p => exact ⟨[], blocks, m, rfl, by simpa using hm, hkeys, rfl, by simp⟩
  | @cons p q winner failed hlowest hopen hfails hrest ih =>
      have hmem : winner.key ∈ blocks.map Prod.snd := by
        rw [hkeys]
        exact List.mem_map_of_mem (mem_nextBlocks.1 (lowestWaitTime_mem hlowest)).1
      obtain ⟨item, m₁, hitem, hexclude, hm₁, hperm⟩ := exclude_keyed hm hmem hfuel
      have hlength := hperm.length_eq
      rw [List.length_append, List.length_singleton] at hlength
      obtain ⟨moved, blocks', m', hmoves, hm', hblocks', hmoved, hperm'⟩ :=
        @ih m₁ (blocks.eraseP fun b => b.2 == winner.key) (out ++ [item]) hm₁ (by
          dsimp only [removeBlock]
          rw [map_eraseP_key, map_eraseP_key, hkeys, map_verifyWinner (fun _ _ => rfl)])
          (by simp; omega)
      refine ⟨item :: moved, blocks', m', ?_, by simpa using hm', hblocks', by simp [hitem, hmoved],
        ?_⟩
      · rw [List.map_cons, List.foldlM_cons, hexclude]
        exact hmoves
      · refine (List.perm_middle.trans (hperm'.cons item)).trans ?_
        exact (List.perm_append_singleton _ _).symm.trans hperm

/-! ## The choice -/

/-- `choose_block_to_vote`, up to the call of `check_for_winner_block`. -/
def chooseAndVote (net : Net D) (round : Fin 2) : Plugin D → Plugin D :=
  chooseBlockToVoteWith net id round

/-- `choose_block_to_vote(plugin, round)`. -/
def chooseBlock (net : Net D) (round : Fin 2) : Plugin D → Plugin D :=
  chooseBlockToVoteWith net (checkForWinnerBlock net round) round

/-- The node has not voted in the round, applies no state update, and may vote. -/
def Plugin.mayChoose (round : Fin 2) (p : Plugin D) : Prop :=
  ¬(p.lastVoteHeight = p.currentHeight + 1 ∧ p.lastVoteRound = round) ∧
    p.isUpdatingState = false ∧ p.canVoteOnBlock p.nodeId (p.currentHeight + 1) = true

/-- What a choice does that leads from `p` to `q`: the blocks of `failed` are tried before
`winner`, which is the block that is voted on, if any; `stopped` is the state before
`vote_on_block`. -/
structure Choice (net : Net D) (round : Fin 2) (p q : Plugin D) (failed : List Block)
    (winner : Option Block) (stopped : Plugin D) : Prop where
  trials : ∃ s, Fails net (calculateWaitTimes net p) failed s ∧ Stops net s winner stopped
  next : ∀ block ∈ winner, block.height = p.currentHeight + 1 ∧
    ∃ other ∈ p.newBlocks, other.identity = block.identity
  lowest : ∀ block ∈ winner, ∀ other ∈ (calculateWaitTimes net p).nextBlocks,
    other.waitTime < block.waitTime → other.key ∈ failed.map Block.key
  all : winner = none → ∀ other ∈ p.nextBlocks, other.key ∈ failed.map Block.key
  sent : q.sent = p.sent ∨
    ∃ block ∈ winner, q.sent = p.sent ++ [⟨block.height, round, block.id⟩]
  votes : ∀ block ∈ winner, ∀ sig, aergoliteSignRaw net.toEnv stopped.core block.id = .ok sig →
    (∀ other ∈ stopped.newBlocks, other.key = block.key →
      other.hasVote round p.nodeId = false) →
    q.sent = p.sent ++ [⟨block.height, round, block.id⟩]
  memory : ∀ {α : Type} [DecidableEq α] (m : BlockLists α) (blocks : List (α × (ℤ × Bytes)))
    (fuel : ℕ), m.Holds (blocks.map Prod.fst) [] →
    blocks.map Prod.snd = p.newBlocks.map Block.key → blocks.length ≤ fuel →
    ∃ moved blocks' : List (α × (ℤ × Bytes)), ∃ m₁ m₂,
      (moved.map Prod.fst).foldlM (exclude fuel) m = some m₁ ∧ restore fuel m₁ = some m₂ ∧
      moved.map Prod.snd = failed.map Block.key ∧
      IsList m₂.next m₂.newBlocks (blocks'.map Prod.fst) ∧
      blocks'.map Prod.snd = q.newBlocks.map Block.key ∧ blocks'.Perm blocks

/-- No block is lost, unless one is committed. -/
def Unlost (p q : Plugin D) : Prop :=
  q.committed = p.committed ∧
      (q.newBlocks.map Block.identity).Perm (p.newBlocks.map Block.identity) ∨
    p.committed.length < q.committed.length

theorem SameBlocks.map {β : Type*} {p q : Plugin D} (h : SameBlocks p q) (f : Block → β) :
    q.newBlocks.map (fun block => f block.fixed) = p.newBlocks.map fun block => f block.fixed := by
  simpa [List.map_map, Function.comp_def] using congrArg (List.map f) h

theorem Unlost.refl (p : Plugin D) : Unlost p p := .inl ⟨rfl, .refl _⟩

theorem Unlost.trans {p q r : Plugin D} (h : Unlost p q) (h' : Unlost q r) : Unlost p r := by
  rcases h with ⟨hcommitted, hperm⟩ | hlt <;> rcases h' with ⟨hcommitted', hperm'⟩ | hlt'
  · exact .inl ⟨hcommitted'.trans hcommitted, hperm'.trans hperm⟩
  · exact .inr (hcommitted ▸ hlt')
  · exact .inr (hcommitted' ▸ hlt)
  · exact .inr (hlt.trans hlt')

theorem Still.unlost {p q : Plugin D} (h : Still p q)
    (h' : q.newBlocks.map Block.identity = p.newBlocks.map Block.identity) : Unlost p q :=
  .inl ⟨congrArg View.committed (h.rest []), .of_eq h'⟩

/-! ## The winner check -/

theorem commitBlock_unlost (net : Net D) (p : Plugin D) (block : Block) :
    Unlost p (commitBlock net p block).2 := by
  unfold commitBlock
  dsimp only
  split_ifs
  · unfold markOutdated
    split_ifs
    · exact .refl p
    · exact .refl p
  · right
    unfold startNewBlockTimer canCreateBlock
    dsimp only
    split_ifs <;> simp [replaceCurrentBlock, countAuthorizedNodes]

theorem applyBlock_unlost (net : Net D) (p : Plugin D) (block : Block) :
    Unlost p (applyBlock net p block) := by
  have hverify : Unlost p (verifyBlock net p block).2 :=
    (still_verifyBlock net p block).unlost (by rw [newBlocks_verifyBlock])
  unfold applyBlock
  dsimp only
  split_ifs
  · exact hverify.trans (commitBlock_unlost net _ block)
  · exact hverify

theorem commitWinner_unlost (net : Net D) (round : Fin 2) (block : Block) (p : Plugin D) :
    Unlost p (commitWinner net round block p) := by
  have hconvert : ∀ q : Plugin D, Unlost q { q with
      newBlocks := updateBlock block.key (convertBlockVotes round) q.newBlocks } := by
    refine fun q => .inl ⟨rfl, .of_eq (map_updateBlock ?_ q.newBlocks)⟩
    exact fun _ => rfl
  have hcheck : Unlost p (checkBlockTransactions (rollbackOpenBlock p) block).2 := by
    refine ((still_rollbackOpenBlock p).trans (still_checkBlockTransactions _ block)).unlost ?_
    rw [map_checkBlockTransactions fun _ _ => rfl, newBlocks_rollbackOpenBlock]
  unfold commitWinner
  dsimp only
  split_ifs
  · exact (hconvert p).trans (commitBlock_unlost net _ _)
  · exact hcheck
  · exact (hcheck.trans (hconvert _)).trans (applyBlock_unlost net _ _)

theorem sent_commitWinner (net : Net D) {p : Plugin D} {block : Block} {round : Fin 2}
    (hmem : block ∈ p.nextBlocks)
    (hwins : majority p.numAuthorizedNodes ≤ block.numVotes round) :
    (commitWinner net round block p).sent = p.sent := by
  rcases commitWinner_commits net hmem hwins with h | h
  · exact congrArg View.sent h
  · have hsent : ∀ {v w : View}, Commits v w → w.sent = v.sent := by
      rintro v w ⟨⟩
      rfl
    exact hsent h

/-- `check_for_winner_block` commits a block, does nothing or calls
`choose_block_to_vote`. -/
theorem checkForWinnerBlockWith_cases (net : Net D) (choose : Plugin D → Plugin D)
    (round : Fin 2) (p : Plugin D) :
    checkForWinnerBlockWith net choose round p = p ∨
      (Unlost p (checkForWinnerBlockWith net choose round p) ∧
        (checkForWinnerBlockWith net choose round p).sent = p.sent) ∨
      (round = 0 ∧ checkForWinnerBlockWith net choose round p = choose p) := by
  unfold checkForWinnerBlockWith
  by_cases hnone : p.newBlocks = [] ∨ p.isUpdatingState = true
  · rw [if_pos hnone]
    exact .inl rfl
  rw [if_neg hnone]
  split
  · rename_i block hfind
    have hwins : majority p.numAuthorizedNodes ≤ block.numVotes round := by
      simpa using List.find?_some hfind
    exact .inr (.inl ⟨commitWinner_unlost net round block p,
      sent_commitWinner net (List.mem_of_find?_eq_some hfind) hwins⟩)
  · split_ifs with hround
    · exact .inl rfl
    · exact .inl rfl
    · exact .inl rfl
    · exact .inl rfl
    · exact .inr (.inr ⟨by omega, rfl⟩)

/-! ## The calls of each other -/

theorem chooseBlockToVoteWith_eq (net : Net D) (check : Plugin D → Plugin D) (round : Fin 2)
    (p : Plugin D) :
    (chooseBlockToVoteWith net check round p = p ∧ chooseAndVote net round p = p) ∨
      chooseBlockToVoteWith net check round p = check (chooseAndVote net round p) := by
  unfold chooseAndVote chooseBlockToVoteWith
  split_ifs
  · exact .inl ⟨rfl, rfl⟩
  · exact .inl ⟨rfl, rfl⟩
  · exact .inr rfl
  · exact .inr rfl

/-- In the second round the functions do not call each other again. -/
theorem checkForWinnerBlockWith_one (net : Net D) (choose choose' : Plugin D → Plugin D) :
    checkForWinnerBlockWith net choose 1 = checkForWinnerBlockWith net choose' 1 :=
  rfl

theorem chooseBlock_one (net : Net D) : chooseBlock net 1 = chooseAgain net := by
  unfold chooseBlock chooseAgain checkForWinnerBlock
  rw [checkForWinnerBlockWith_one net (chooseAgain net) id]

/-- The functions call each other as in the source. -/
theorem chooseBlock_eq (net : Net D) (round : Fin 2) :
    chooseBlock net round =
      chooseBlockToVoteWith net (checkForWinnerBlockWith net (chooseBlock net 1) round) round := by
  rw [chooseBlock_one]
  rfl

/-! ## The vote -/

theorem sent_voteOnBlock (net : Net D) (round : Fin 2) (key : ℤ × Bytes) (p : Plugin D) :
    (voteOnBlock net round key p).sent = p.sent ∨
      (voteOnBlock net round key p).sent = p.sent ++ [⟨key.1, round, key.2⟩] := by
  unfold voteOnBlock
  split
  · split_ifs
    · exact .inl rfl
    · exact .inr rfl
  · exact .inl rfl

/-- A vote that can be signed and is not counted yet is sent. -/
theorem voteOnBlock_sends (net : Net D) (round : Fin 2) {key : ℤ × Bytes} {p : Plugin D}
    (hmem : key ∈ p.newBlocks.map Block.key) {sig : Bytes}
    (hsign : aergoliteSignRaw net.toEnv p.core key.2 = .ok sig)
    (hnew : ∀ block ∈ p.newBlocks, block.key = key → block.hasVote round p.nodeId = false) :
    (voteOnBlock net round key p).sent = p.sent ++ [⟨key.1, round, key.2⟩] := by
  obtain ⟨other, hother, hkey⟩ := List.mem_map.1 hmem
  unfold voteOnBlock
  cases hfind : findBlock key p.newBlocks with
  | none => exact absurd hkey (by simpa using List.find?_eq_none.1 hfind other hother)
  | some block =>
      have hblock : block.key = key := by simpa using List.find?_some hfind
      have hvote := hnew block (List.mem_of_find?_eq_some hfind) hblock
      simp [hsign, hvote]

/-- The call of `vote_on_block`, if there is a winner. -/
inductive Votes (net : Net D) (round : Fin 2) (stopped : Plugin D) : Option Block → Plugin D → Prop
  | none : Votes net round stopped none stopped
  | some (block : Block) :
      Votes net round stopped (some block) (voteOnBlock net round block.key stopped)

theorem Votes.keys {net : Net D} {round : Fin 2} {stopped voted : Plugin D}
    {winner : Option Block} (h : Votes net round stopped winner voted) :
    voted.newBlocks.map Block.key = stopped.newBlocks.map Block.key := by
  cases h with
  | none => rfl
  | some block => exact (sameBlocks_voteOnBlock net round block.key stopped).map Block.key

/-! ## The outcome -/

section
variable {net : Net D} {p s stopped : Plugin D} {failed : List Block} {winner : Option Block}

theorem nextBlocks_of_stops {block : Block} (h : Stops net s (some block) stopped) :
    lowestWaitTime s.nextBlocks = some block := by
  cases h with
  | opened hlowest => exact hlowest
  | verified hlowest => exact hlowest

theorem identity_of_stops (h : Stops net s winner stopped) :
    stopped.newBlocks.map Block.identity = s.newBlocks.map Block.identity := by
  cases h with
  | none => rfl
  | opened => rfl
  | verified => exact map_verifyWinner (fun _ _ => rfl) net _ _

/-- The blocks with a lower wait time have failed. -/
theorem Fails.lowest (h : Fails net p failed s) {block : Block}
    (hstops : Stops net s (some block) stopped) {other : Block} (hother : other ∈ p.nextBlocks)
    (hlt : other.waitTime < block.waitTime) : other.key ∈ failed.map Block.key := by
  rcases h.next hother with hfailed | ⟨left, hleft, -, hwait⟩
  · exact hfailed
  · have hle := lowestWaitTime_le (nextBlocks_of_stops hstops) hleft
    omega

/-- Without a winner, all have failed. -/
theorem Fails.all (h : Fails net p failed s) (hstops : Stops net s none stopped) {other : Block}
    (hother : other ∈ p.nextBlocks) : other.key ∈ failed.map Block.key := by
  cases hstops with
  | none hnone =>
      rcases h.next hother with hfailed | ⟨left, hleft, -⟩
      · exact hfailed
      · simp [hnone] at hleft

/-- The second list is appended to the first, in memory as in the model. -/
theorem memory_of_fails {α : Type} [DecidableEq α] (h : Fails net p failed s)
    {m : BlockLists α} {blocks : List (α × (ℤ × Bytes))} {fuel : ℕ}
    (hm : m.Holds (blocks.map Prod.fst) [])
    (hkeys : blocks.map Prod.snd = p.newBlocks.map Block.key) (hfuel : blocks.length ≤ fuel) :
    ∃ moved blocks' : List (α × (ℤ × Bytes)), ∃ m₁ m₂,
      (moved.map Prod.fst).foldlM (exclude fuel) m = some m₁ ∧ restore fuel m₁ = some m₂ ∧
      moved.map Prod.snd = failed.map Block.key ∧
      IsList m₂.next m₂.newBlocks (blocks'.map Prod.fst) ∧
      blocks'.map Prod.snd = s.newBlocks.map Block.key ++ failed.map Block.key ∧
      blocks'.Perm blocks := by
  obtain ⟨moved, left, m₁, hmoves, hm₁, hleft, hmoved, hperm⟩ :=
    @Fails.moved _ _ _ _ _ _ _ h m blocks [] fuel hm hkeys (by simpa using hfuel)
  have hlength := hperm.length_eq
  rw [List.length_append] at hlength
  obtain ⟨m₂, hrestore, hlist⟩ := restore_spec hm₁ (show _ ≤ fuel by simp; omega)
  refine ⟨moved, left ++ moved, m₁, m₂, hmoves, hrestore, hmoved, ?_, ?_, hperm⟩
  · rwa [List.map_append]
  · rw [List.map_append, hleft, hmoved]

end

/-- What `choose_block_to_vote` does before the winner check. -/
theorem chooseAndVote_cases (net : Net D) (round : Fin 2) (p : Plugin D) :
    (¬ p.mayChoose round ∧ chooseAndVote net round p = p) ∨
      p.mayChoose round ∧ ∃ failed s winner stopped excluded voted,
      Fails net (calculateWaitTimes net p) failed s ∧ Stops net s winner stopped ∧
      excluded.map Block.key = failed.map Block.key ∧
      stopped.viewOf (stopped.newBlocks ++ excluded) = p.view ∧
      ((stopped.newBlocks ++ excluded).map Block.fixed).Perm (p.newBlocks.map Block.fixed) ∧
      Votes net round stopped winner voted ∧
      chooseAndVote net round p = { voted with newBlocks := voted.newBlocks ++ excluded } := by
  unfold chooseAndVote chooseBlockToVoteWith
  split_ifs with hvoted hupdating hcan
  · exact .inl ⟨fun h => h.1 hvoted, rfl⟩
  · exact .inl ⟨fun h => absurd hupdating (by simp [h.2.1]), rfl⟩
  · exact .inl ⟨fun h => absurd hcan (by simp [h.2.2]), rfl⟩
  refine .inr ⟨⟨hvoted, by simpa using hupdating, by simpa using hcan⟩, ?_⟩
  obtain ⟨failed, s, hfails, hstops, hexcluded⟩ :=
    chooseLoop_spec net [] (calculateWaitTimes net p) le_rfl
  obtain ⟨hview, -⟩ := chooseLoop_still net (calculateWaitTimes net p).newBlocks.length []
    (calculateWaitTimes net p)
  have hperm := chooseLoop_perm net (calculateWaitTimes net p).newBlocks.length []
    (calculateWaitTimes net p)
  dsimp only at hperm ⊢
  generalize chooseLoop net (calculateWaitTimes net p).newBlocks.length []
    (calculateWaitTimes net p) = chosen at hstops hexcluded hview hperm ⊢
  obtain ⟨winner, excluded, stopped⟩ := chosen
  rw [List.append_nil] at hview hperm
  have hq := hview.trans (still_calculateWaitTimes net p).view
  have hblocks := hperm.trans (.of_eq (sameBlocks_calculateWaitTimes net p))
  cases winner with
  | none => exact ⟨failed, s, none, stopped, excluded, stopped, hfails, hstops, hexcluded, hq,
      hblocks, .none, rfl⟩
  | some winner => exact ⟨failed, s, some winner, stopped, excluded, _, hfails, hstops, hexcluded,
      hq, hblocks, .some winner, rfl⟩

/-- **A choice.**  It is made before the winner check, where the node may make one. -/
theorem chooseAndVote_choice (net : Net D) (round : Fin 2) (p : Plugin D) :
    (¬ p.mayChoose round ∧ chooseAndVote net round p = p) ∨
      p.mayChoose round ∧ ∃ failed winner stopped,
        Choice net round p (chooseAndVote net round p) failed winner stopped := by
  rcases chooseAndVote_cases net round p with h | ⟨hmay, failed, s, winner, stopped, excluded,
    voted, hfails, hstops, hexcluded, hview, hblocks, hvotes, heq⟩
  · exact .inl h
  refine .inr ⟨hmay, ?_⟩
  have hwaits := sameBlocks_calculateWaitTimes net p
  have hcurrent : s.currentHeight = p.currentHeight :=
    hfails.currentHeight.trans (congrArg View.current (still_calculateWaitTimes net p).view)
  have hsent : stopped.sent = p.sent := congrArg View.sent hview
  have hnode : stopped.nodeId = p.nodeId := congrArg View.nodeId hview
  rw [heq]
  refine ⟨failed, winner, stopped, ⟨s, hfails, hstops⟩, ?_, ?_, ?_, ?_, ?_, ?_⟩
  · rintro block rfl
    obtain ⟨hmem, hheight⟩ := mem_nextBlocks.1 (lowestWaitTime_mem (nextBlocks_of_stops hstops))
    refine ⟨hheight.trans (by rw [hcurrent]), ?_⟩
    -- the winner is on the list that the loop leaves, which is a permutation of the first
    have hidentity : block.identity ∈ stopped.newBlocks.map Block.identity := by
      rw [identity_of_stops hstops]
      exact List.mem_map_of_mem hmem
    obtain ⟨left, hleft, hsame⟩ := List.mem_map.1 hidentity
    have hfixed : left.fixed ∈ (stopped.newBlocks ++ excluded).map Block.fixed :=
      List.mem_map_of_mem (List.mem_append_left _ hleft)
    obtain ⟨other, hother, hotherFixed⟩ := List.mem_map.1 (hblocks.subset hfixed)
    refine ⟨other, hother, Eq.trans ?_ hsame⟩
    exact congrArg (fun block : Block => { block with votes := [] }) hotherFixed
  · rintro block rfl other hother hlt
    exact hfails.lowest hstops hother hlt
  · rintro rfl other hother
    obtain ⟨hmem, hheight⟩ := mem_nextBlocks.1 hother
    have hkeys : (calculateWaitTimes net p).newBlocks.map Block.key = p.newBlocks.map Block.key :=
      hwaits.map Block.key
    have hkey : other.key ∈ (calculateWaitTimes net p).newBlocks.map Block.key :=
      hkeys ▸ List.mem_map_of_mem hmem
    obtain ⟨waiting, hwaiting, hsame⟩ := List.mem_map.1 hkey
    rw [← hsame]
    refine hfails.all hstops (mem_nextBlocks.2 ⟨hwaiting, ?_⟩)
    exact ((congrArg Prod.fst hsame).trans hheight)
  · cases hvotes with
    | none => exact .inl hsent
    | some block =>
        rcases sent_voteOnBlock net round block.key stopped with h | h
        · exact .inl (h.trans hsent)
        · exact .inr ⟨block, rfl, h.trans (hsent ▸ rfl)⟩
  · rintro block rfl sig hsign hnew
    cases hvotes
    have hleft := mem_nextBlocks.1 (lowestWaitTime_mem (nextBlocks_of_stops hstops))
    have hmem : block.key ∈ stopped.newBlocks.map Block.key := by
      rw [keys_of_stops hstops]
      exact List.mem_map_of_mem hleft.1
    rw [← hnode] at hnew
    exact (voteOnBlock_sends net round hmem hsign hnew).trans (hsent ▸ rfl)
  · intro α _ m blocks fuel hm hkeys hfuel
    obtain ⟨moved, blocks', m₁, m₂, hmoves, hrestore, hmoved, hlist, hblocks', hperm⟩ :=
      memory_of_fails hfails hm (hkeys.trans (hwaits.map Block.key).symm) hfuel
    refine ⟨moved, blocks', m₁, m₂, hmoves, hrestore, hmoved, hlist, ?_, hperm⟩
    rw [hblocks', List.map_append, hvotes.keys, keys_of_stops hstops, hexcluded]

theorem chooseAndVote_unlost (net : Net D) (round : Fin 2) (p : Plugin D) :
    Unlost p (chooseAndVote net round p) := by
  rcases chooseAndVote_cases net round p with ⟨-, h⟩ | ⟨-, failed, s, winner, stopped, excluded,
    voted, -, -, -, hview, hblocks, hvotes, heq⟩
  · exact h.symm ▸ .refl p
  have hvoted : voted.committed = stopped.committed ∧ SameBlocks stopped voted := by
    cases hvotes with
    | none => exact ⟨rfl, rfl⟩
    | some block =>
        refine ⟨?_, sameBlocks_voteOnBlock net round block.key stopped⟩
        unfold voteOnBlock
        split
        · split_ifs <;> rfl
        · rfl
  rw [heq]
  refine .inl ⟨hvoted.1.trans (congrArg View.committed hview), ?_⟩
  have hperm : ((voted.newBlocks ++ excluded).map Block.fixed).Perm
      (p.newBlocks.map Block.fixed) := by
    rw [List.map_append, hvoted.2, ← List.map_append]
    exact hblocks
  have hidentity := hperm.map fun block : Block => { block with votes := [] }
  rw [List.map_map, List.map_map] at hidentity
  exact hidentity

theorem chooseBlockToVoteWith_unlost (net : Net D) {check : Plugin D → Plugin D}
    (hcheck : ∀ q, Unlost q (check q)) (round : Fin 2) (p : Plugin D) :
    Unlost p (chooseBlockToVoteWith net check round p) := by
  rcases chooseBlockToVoteWith_eq net check round p with ⟨h, -⟩ | h
  · exact h.symm ▸ .refl p
  · rw [h]
    exact (chooseAndVote_unlost net round p).trans (hcheck _)

theorem checkForWinnerBlockWith_unlost (net : Net D) {choose : Plugin D → Plugin D}
    (hchoose : ∀ q, Unlost q (choose q)) (round : Fin 2) (p : Plugin D) :
    Unlost p (checkForWinnerBlockWith net choose round p) := by
  rcases checkForWinnerBlockWith_cases net choose round p with h | ⟨h, -⟩ | ⟨-, h⟩
  · exact h.symm ▸ .refl p
  · exact h
  · exact h ▸ hchoose p

theorem chooseBlock_unlost (net : Net D) (round : Fin 2) (p : Plugin D) :
    Unlost p (chooseBlock net round p) := by
  have hagain : ∀ q, Unlost q (chooseBlock net 1 q) := by
    rw [chooseBlock_one]
    exact chooseBlockToVoteWith_unlost net (checkForWinnerBlockWith_unlost net .refl 1) 1
  rw [chooseBlock_eq]
  exact chooseBlockToVoteWith_unlost net (checkForWinnerBlockWith_unlost net hagain round) round p

theorem sent_checkForWinnerBlockWith_one (net : Net D) (choose : Plugin D → Plugin D)
    (p : Plugin D) : (checkForWinnerBlockWith net choose 1 p).sent = p.sent := by
  rcases checkForWinnerBlockWith_cases net choose 1 p with h | ⟨-, h⟩ | ⟨h, -⟩
  · rw [h]
  · exact h
  · exact absurd h (by decide)

/-- The votes are those of the choice, and of the one in the second round that may follow. -/
theorem sent_chooseBlock (net : Net D) (round : Fin 2) (p : Plugin D) :
    (chooseBlock net round p).sent = (chooseAndVote net round p).sent ∨
      (chooseBlock net round p).sent =
        (chooseAndVote net 1 (chooseAndVote net round p)).sent := by
  have hagain : ∀ q, (chooseBlock net 1 q).sent = (chooseAndVote net 1 q).sent := by
    intro q
    rcases chooseBlockToVoteWith_eq net (checkForWinnerBlock net 1) 1 q with ⟨h, h'⟩ | h
    · rw [chooseBlock, h, h']
    · rw [chooseBlock, h]
      exact sent_checkForWinnerBlockWith_one net _ _
  rw [chooseBlock_eq]
  rcases chooseBlockToVoteWith_eq net (checkForWinnerBlockWith net (chooseBlock net 1) round)
    round p with ⟨h, h'⟩ | h
  · exact .inl (by rw [h, h'])
  rw [h]
  rcases checkForWinnerBlockWith_cases net (chooseBlock net 1) round (chooseAndVote net round p)
    with h | ⟨-, h⟩ | ⟨-, h⟩
  · exact .inl (by rw [h])
  · exact .inl h
  · exact .inr (by rw [h, hagain])

/-- The keys of the new blocks and the votes of a node that chooses. -/
def choices (es : List Event) : Option (List (ℤ × Bytes) × List Vote × ℕ) :=
  (System.run (step plainNet) (startNode 1) es).map fun p =>
    ((chooseBlock plainNet 0 p).newBlocks.map Block.key, (chooseBlock plainNet 0 p).sent,
      (chooseBlock plainNet 0 p).committed.length + p.committed.length)

end NoLeader
end AergoLite
