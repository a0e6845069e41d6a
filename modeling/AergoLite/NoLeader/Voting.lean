/-
# Voting

What the handlers of a node do, as far as votes go.  A `View` is what voting sees
of a node: the ballots of the blocks it knows (in no order), the votes whose block
has not arrived, its own last vote, the authorization list without its nonces, the
votes it has sent and the blocks it has committed.

A handler takes several of the steps `Micro`, each of them small, and then commits
at most one block (`Commits`, `Handled`).  What a step may do depends on the event:
`Allow` says which vote was received, and whether a vote is cast in the first round
by a node that has voted in the second (`late`).
-/

import AergoLite.NoLeader.Plugin
import Mathlib.Algebra.BigOperators.Group.Multiset.Defs
import Mathlib.Data.Multiset.Filter
import Mathlib.Logic.Relation

namespace AergoLite
namespace NoLeader

open AergoLite.Core

/-- A block as voting sees it. -/
structure Ballot where
  height : ℤ
  id : Bytes
  votes : Fin 2 → List BlockVote
  count : Fin 2 → ℕ

/-- The ballot of a block. -/
def Block.ballot (block : Block) : Ballot :=
  ⟨block.height, block.id, block.tempVotes, block.numVotes⟩

/-- A vote of a node is added to a ballot. -/
def Ballot.add (b : Ballot) (round : Fin 2) (nodeId : ℤ) (sig : Bytes) : Ballot :=
  { b with
    votes := Function.update b.votes round (b.votes round ++ [⟨nodeId, sig⟩])
    count := Function.update b.count round (b.count round + 1) }

/-- The node has voted in the round. -/
def Ballot.HasVote (b : Ballot) (round : Fin 2) (nodeId : ℤ) : Prop :=
  ∃ vote ∈ b.votes round, vote.nodeId = nodeId

/-- What voting sees of a node. -/
structure View where
  nodeId : ℤ
  pubkey : Bytes
  current : ℤ
  roster : List NodeAuth
  total : ℕ
  active : ℕ
  ballots : Multiset Ballot
  stored : List StoredVote
  lastHeight : ℤ
  lastRound : Fin 2
  timer : Bool
  sent : List Vote
  committed : List Commit

namespace View

/-- The number of nodes the majority is taken of. -/
def electorate (v : View) : ℕ := if 0 < v.current then v.active else v.total

/-- The ballots of the next height. -/
def next (v : View) : Multiset Ballot := v.ballots.filter fun b => b.height = v.current + 1

/-- No ballot of the next height can reach the majority in the first round. -/
def Undecidable (v : View) : Prop :=
  ∀ b ∈ v.next, (b.count 0 : ℤ) + (v.electorate - (v.next.map fun b => b.count 0).sum) <
    majority v.electorate

/-- The view once the nodes of a list have been counted. -/
def counted (v : View) (roster : List NodeAuth) : View :=
  { v with
    roster
    total := aergoliteNumAuthorizedNodes roster false
    active := aergoliteNumAuthorizedNodes roster true }

/-- The counters are those of the list. -/
def Numbered (v : View) : Prop :=
  v.total = aergoliteNumAuthorizedNodes v.roster false ∧
    v.active = aergoliteNumAuthorizedNodes v.roster true

end View

/-- What a handler may do. -/
structure Allow where
  /-- A vote in the first round after one in the second. -/
  late : Prop
  /-- The vote was received, and its signature verified. -/
  received : StoredVote → Prop
  /-- An entry is added to the list. -/
  authorized : NodeAuth → Prop
  /-- A block is added that is on the list already. -/
  repeated : Prop

/-- When a node may vote in a round. -/
def MayVote (allow : Allow) (v : View) : Fin 2 → Prop
  | 0 => v.lastHeight = v.current + 1 → v.lastRound = 1 ∧ allow.late
  | 1 => (v.lastHeight = v.current + 1 → v.lastRound ≠ 1) ∧ v.Undecidable

section
variable (sign : Bytes → Bytes → Option Bytes) (allow : Allow)

/-- A small step of a handler. -/
inductive Micro : View → View → Prop
  /-- `vote_on_block`. -/
  | vote {v : View} {b : Ballot} {rest : Multiset Ballot} {round : Fin 2} {sig : Bytes}
      (ballots : v.ballots = b ::ₘ rest) (height : b.height = v.current + 1)
      (can : canVoteOnBlock v.roster v.nodeId (v.current + 1) = true)
      (signed : sign v.pubkey b.id = some sig) (first : ¬ b.HasVote round v.nodeId)
      (timer : v.timer = false) (may : MayVote allow v round) :
      Micro v { v with
        ballots := b.add round v.nodeId sig ::ₘ rest
        lastHeight := b.height
        lastRound := round
        sent := v.sent ++ [⟨b.height, round, b.id⟩] }
  /-- A vote is counted. -/
  | receive {v : View} {b : Ballot} {rest : Multiset Ballot} {vote : StoredVote}
      (ballots : v.ballots = b ::ₘ rest) (received : allow.received vote)
      (height : b.height = vote.height) (id : b.id = vote.blockId)
      (first : ¬ b.HasVote vote.round vote.nodeId) :
      Micro v { v with ballots := b.add vote.round vote.nodeId vote.sig ::ₘ rest }
  /-- A vote is stored. -/
  | store {v : View} {vote : StoredVote} (received : allow.received vote) :
      Micro v { v with stored := v.stored ++ [vote] }
  /-- A block is added, with votes that were stored. -/
  | add {v : View} {b : Ballot}
      (fresh : allow.repeated ∨ ∀ other ∈ v.ballots, other.height = b.height → other.id ≠ b.id)
      (count : ∀ round, b.count round = (b.votes round).length)
      (nodup : ∀ round, ((b.votes round).map BlockVote.nodeId).Nodup)
      (stored : ∀ round, ∀ vote ∈ b.votes round,
        (⟨vote.nodeId, round, b.height, b.id, vote.sig⟩ : StoredVote) ∈ v.stored) :
      Micro v { v with ballots := b ::ₘ v.ballots }
  /-- The timer is stopped. -/
  | stopTimer {v : View} : Micro v { v with timer := false }
  /-- The timer is started. -/
  | startTimer {v : View} (open_ : v.lastHeight ≠ v.current + 1) : Micro v { v with timer := true }
  /-- The nodes are counted. -/
  | count {v : View} : Micro v (v.counted v.roster)
  /-- A node is authorized. -/
  | authorize {v : View} {auth : NodeAuth} (authorized : allow.authorized auth) :
      Micro v (v.counted (v.roster ++ [auth]))

/-- A block is committed that has the majority in a round. -/
inductive Commits : View → View → Prop
  | mk {v : View} {b : Ballot} {rest : Multiset Ballot} {round : Fin 2} {commit : Commit}
      {auths : List NodeAuth} (ballots : v.ballots = b ::ₘ rest)
      (height : b.height = v.current + 1) (wins : majority v.electorate ≤ b.count round)
      (block : commit.block.height = b.height ∧ commit.block.id = b.id)
      (votes : (b.votes round).map (fun vote => ⟨vote.nodeId, vote.sig, round.val⟩) <:+
        commit.block.votes)
      (before : roster commit.authorizations = v.roster)
      (keys : authKeys auths = authKeys v.roster) :
      Commits v { v.counted auths with
        current := b.height
        ballots := rest.filter fun other => b.height < other.height
        stored := v.stored.filter fun vote => decide (b.height ≤ vote.height)
        committed := v.committed ++ [commit] }

/-- A small step that counts no vote that arrives and adds no block. -/
inductive Own : View → View → Prop
  /-- The votes stay as they are. -/
  | still {v w : View} (h : Micro sign allow v w) (ballots : w.ballots = v.ballots)
      (stored : w.stored = v.stored) (sent : w.sent = v.sent) : Own v w
  /-- `vote_on_block`. -/
  | vote {v : View} {b : Ballot} {rest : Multiset Ballot} {round : Fin 2} {sig : Bytes}
      (ballots : v.ballots = b ::ₘ rest)
      (h : Micro sign allow v { v with
        ballots := b.add round v.nodeId sig ::ₘ rest
        lastHeight := b.height
        lastRound := round
        sent := v.sent ++ [⟨b.height, round, b.id⟩] }) :
      Own v { v with
        ballots := b.add round v.nodeId sig ::ₘ rest
        lastHeight := b.height
        lastRound := round
        sent := v.sent ++ [⟨b.height, round, b.id⟩] }

/-- Some steps, and then perhaps a commit. -/
def HandledBy (step : View → View → Prop) (v w : View) : Prop :=
  ∃ u, Relation.ReflTransGen step v u ∧ (w = u ∨ Commits u w)

/-- What a handler does: small steps, and then perhaps a commit. -/
def Handled (v w : View) : Prop :=
  ∃ u, Relation.ReflTransGen (Micro sign allow) v u ∧ (w = u ∨ Commits u w)

end

/-- What the steps of a path keep. -/
theorem path_invariant {step : View → View → Prop} {I : View → Prop} {v w : View}
    (h : Relation.ReflTransGen step v w) (hv : I v) (hstep : ∀ v w, I v → step v w → I w) :
    I w := by
  induction h with
  | refl => exact hv
  | tail _ hs ih => exact hstep _ _ ih hs

namespace HandledBy

variable {step : View → View → Prop}

theorem refl (v : View) : HandledBy step v v := ⟨v, .refl, .inl rfl⟩

/-- A step before a handler. -/
theorem head {u v w : View} (h : step u v) (h' : HandledBy step v w) : HandledBy step u w := by
  obtain ⟨x, hpath, hend⟩ := h'
  exact ⟨x, .head h hpath, hend⟩

/-- A step, or none, before a handler. -/
theorem head' {u v w : View} (h : v = u ∨ step u v) (h' : HandledBy step v w) :
    HandledBy step u w := by
  rcases h with rfl | h
  · exact h'
  · exact h'.head h

/-- A single step is a handler. -/
theorem single {v w : View} (h : step v w) : HandledBy step v w := head h (refl w)

theorem mono {step' : View → View → Prop} (hstep : ∀ v w, step v w → step' v w) {v w : View}
    (h : HandledBy step v w) : HandledBy step' v w := by
  obtain ⟨u, hpath, hend⟩ := h
  exact ⟨u, Relation.ReflTransGen.mono hstep _ _ hpath, hend⟩

/-- What the steps keep holds until the commit. -/
theorem before {I : View → Prop} {v w : View} (h : HandledBy step v w) (hv : I v)
    (hstep : ∀ v w, I v → step v w → I w) : ∃ u, I u ∧ (w = u ∨ Commits u w) := by
  obtain ⟨u, hpath, hend⟩ := h
  exact ⟨u, path_invariant hpath hv hstep, hend⟩

end HandledBy

variable {sign : Bytes → Bytes → Option Bytes} {allow : Allow}

theorem Own.micro {v w : View} (h : Own sign allow v w) : Micro sign allow v w := by
  cases h with
  | still h | vote _ h => exact h

/-- Steps of its own are a handler. -/
theorem HandledBy.handled {v w : View} (h : HandledBy (Own sign allow) v w) :
    Handled sign allow v w :=
  h.mono fun _ _ => Own.micro

theorem Handled.refl (v : View) : Handled sign allow v v := HandledBy.refl v

/-- A step before a handler. -/
theorem Handled.head {u v w : View} (h : Micro sign allow u v) (h' : Handled sign allow v w) :
    Handled sign allow u w :=
  HandledBy.head h h'

/-- A step, or none, before a handler. -/
theorem Handled.head' {u v w : View} (h : v = u ∨ Micro sign allow u v)
    (h' : Handled sign allow v w) : Handled sign allow u w :=
  HandledBy.head' h h'

/-- A single step is a handler. -/
theorem Handled.single {v w : View} (h : Micro sign allow v w) : Handled sign allow v w :=
  HandledBy.single h

/-- What the small steps keep holds until the commit. -/
theorem Handled.before {I : View → Prop} {v w : View} (h : Handled sign allow v w) (hv : I v)
    (hmicro : ∀ v w, I v → Micro sign allow v w → I w) : ∃ u, I u ∧ (w = u ∨ Commits u w) :=
  HandledBy.before h hv hmicro

/-- What the small steps and a commit keep, a handler keeps. -/
theorem Handled.invariant {I : View → Prop} {v w : View} (h : Handled sign allow v w) (hv : I v)
    (hmicro : ∀ v w, I v → Micro sign allow v w → I w) (hcommit : ∀ v w, I v → Commits v w → I w) :
    I w := by
  obtain ⟨u, hu, rfl | hend⟩ := h.before hv hmicro
  · exact hu
  · exact hcommit _ _ hu hend

/-- A handler does not change who the node is. -/
theorem Micro.node {v w : View} (h : Micro sign allow v w) :
    w.nodeId = v.nodeId ∧ w.pubkey = v.pubkey := by
  cases h <;> exact ⟨rfl, rfl⟩

theorem Commits.node {v w : View} (h : Commits v w) :
    w.nodeId = v.nodeId ∧ w.pubkey = v.pubkey := by
  cases h
  exact ⟨rfl, rfl⟩

theorem Handled.node {v w : View} (h : Handled sign allow v w) :
    w.nodeId = v.nodeId ∧ w.pubkey = v.pubkey :=
  @Handled.invariant _ _ (fun u => u.nodeId = v.nodeId ∧ u.pubkey = v.pubkey) _ _ h ⟨rfl, rfl⟩
    (fun _ _ hu hs => ⟨hs.node.1.trans hu.1, hs.node.2.trans hu.2⟩)
    fun _ _ hu hs => ⟨hs.node.1.trans hu.1, hs.node.2.trans hu.2⟩

theorem Micro.current {v w : View} (h : Micro sign allow v w) : w.current = v.current := by
  cases h <;> rfl

theorem Micro.committed {v w : View} (h : Micro sign allow v w) : w.committed = v.committed := by
  cases h <;> rfl

theorem Micro.sent {v w : View} (h : Micro sign allow v w) : v.sent ⊆ w.sent := by
  cases h with
  | vote => exact List.subset_append_left _ _
  | _ => exact List.Subset.refl _

theorem Micro.numbered {v w : View} (h : Micro sign allow v w) (hv : v.Numbered) :
    w.Numbered := by
  cases h with
  | count | authorize => exact ⟨rfl, rfl⟩
  | _ => exact hv

theorem Commits.numbered {v w : View} (h : Commits v w) : w.Numbered := by
  cases h
  exact ⟨rfl, rfl⟩

/-- A small step does not touch the height and what has been committed, and the list only
where a node is authorized. -/
theorem Micro.frame {v w : View} (h : Micro sign allow v w)
    (hauth : ∀ auth, ¬ allow.authorized auth) :
    w.current = v.current ∧ w.roster = v.roster ∧ w.committed = v.committed := by
  cases h with
  | authorize hauthorized => exact absurd hauthorized (hauth _)
  | _ => exact ⟨rfl, rfl, rfl⟩

/-- The blocks are told apart by their keys. -/
theorem Micro.distinct {v w : View} (h : Micro sign allow v w) (hrepeated : ¬ allow.repeated)
    (hv : (v.ballots.map fun b => (b.height, b.id)).Nodup) :
    (w.ballots.map fun b => (b.height, b.id)).Nodup := by
  cases h with
  | vote hballots | receive hballots =>
      rw [hballots] at hv
      simpa [Ballot.add] using hv
  | @add b hfresh =>
      rw [Multiset.map_cons]
      refine Multiset.nodup_cons.2 ⟨fun hmem => ?_, hv⟩
      obtain ⟨other, hother, heq⟩ := Multiset.mem_map.1 hmem
      rw [Prod.mk.injEq] at heq
      exact (hfresh.resolve_left hrepeated) other hother heq.1 heq.2
  | store | stopTimer | startTimer | count | authorize => exact hv

theorem Commits.distinct {v w : View} (h : Commits v w)
    (hv : (v.ballots.map fun b => (b.height, b.id)).Nodup) :
    (w.ballots.map fun b => (b.height, b.id)).Nodup := by
  cases h with
  | mk hballots =>
      rw [hballots, Multiset.map_cons] at hv
      exact Multiset.nodup_of_le (Multiset.map_le_map (Multiset.filter_le _ _))
        (Multiset.nodup_cons.1 hv).2

/-! ## The votes a node has counted -/

/-- The counters of a ballot are right, and what is counted or stored has a property. -/
structure Tally (P : StoredVote → Prop) (v : View) : Prop where
  count : ∀ b ∈ v.ballots, ∀ round, b.count round = (b.votes round).length
  nodup : ∀ b ∈ v.ballots, ∀ round, ((b.votes round).map BlockVote.nodeId).Nodup
  counted : ∀ b ∈ v.ballots, ∀ round, ∀ vote ∈ b.votes round,
    P ⟨vote.nodeId, round, b.height, b.id, vote.sig⟩
  stored : ∀ vote ∈ v.stored, P vote

theorem Tally.mono {P Q : StoredVote → Prop} (h : ∀ vote, P vote → Q vote) {v : View}
    (hv : Tally P v) : Tally Q v :=
  ⟨hv.count, hv.nodup, fun b hb round vote hvote => h _ (hv.counted b hb round vote hvote),
    fun vote hvote => h vote (hv.stored vote hvote)⟩

/-- A vote is added to one of the ballots. -/
theorem Tally.add {P : StoredVote → Prop} {v w : View} (hv : Tally P v) {b : Ballot}
    {rest : Multiset Ballot} {round : Fin 2} {nodeId : ℤ} {sig : Bytes}
    (hballots : v.ballots = b ::ₘ rest) (hfirst : ¬ b.HasVote round nodeId)
    (hvote : P ⟨nodeId, round, b.height, b.id, sig⟩)
    (hw : w.ballots = b.add round nodeId sig ::ₘ rest) (hstored : w.stored = v.stored) :
    Tally P w := by
  have hmem : ∀ other ∈ w.ballots, other = b.add round nodeId sig ∨ other ∈ v.ballots := by
    intro other hother
    rw [hw] at hother
    rw [hballots]
    exact (Multiset.mem_cons.1 hother).imp_right Multiset.mem_cons_of_mem
  have hb : b ∈ v.ballots := hballots ▸ Multiset.mem_cons_self b rest
  refine ⟨fun other hother r => ?_, fun other hother r => ?_, fun other hother r vote hin => ?_,
    hstored ▸ hv.stored⟩
  all_goals rcases hmem other hother with rfl | hother
  · by_cases hr : r = round
    · subst hr
      simp [Ballot.add, hv.count b hb]
    · simp [Ballot.add, hr, hv.count b hb]
  · exact hv.count other hother r
  · by_cases hr : r = round
    · subst hr
      have hnew : ∀ vote ∈ b.votes r, vote.nodeId ≠ nodeId :=
        fun vote hin heq => hfirst ⟨vote, hin, heq⟩
      simpa [Ballot.add, List.nodup_append, hv.nodup b hb] using hnew
    · simpa [Ballot.add, hr] using hv.nodup b hb r
  · exact hv.nodup other hother r
  · by_cases hr : r = round
    · subst hr
      simp only [Ballot.add, Function.update_self, List.mem_append, List.mem_singleton] at hin
      rcases hin with hin | rfl
      · exact hv.counted b hb _ vote hin
      · exact hvote
    · simp only [Ballot.add, ne_eq, hr, not_false_eq_true, Function.update_of_ne] at hin
      exact hv.counted b hb r vote hin
  · exact hv.counted other hother r vote hin

/-- **A small step keeps the tally**, if the votes that are received have the property
and so has the vote of this node. -/
theorem Tally.micro {P Q : StoredVote → Prop} {v w : View} (hv : Tally P v)
    (hs : Micro sign allow v w) (hmono : ∀ vote, P vote → Q vote)
    (hreceived : ∀ vote, allow.received vote → Q vote)
    (hown : ∀ b ∈ v.ballots, ∀ round sig, b.height = v.current + 1 →
      canVoteOnBlock v.roster v.nodeId (v.current + 1) = true → sign v.pubkey b.id = some sig →
      w.sent = v.sent ++ [⟨b.height, round, b.id⟩] → Q ⟨v.nodeId, round, b.height, b.id, sig⟩) :
    Tally Q w := by
  have hQ := hv.mono hmono
  cases hs with
  | @vote b rest round sig hballots hheight hcan hsigned hfirst _ _ =>
      exact hQ.add hballots hfirst
        (hown b (hballots ▸ Multiset.mem_cons_self b rest) round sig hheight hcan hsigned rfl) rfl rfl
  | @receive b rest vote hballots hvote hheight hid hfirst =>
      refine hQ.add hballots hfirst ?_ rfl rfl
      rw [hheight, hid]
      exact hreceived vote hvote
  | @store vote hvote =>
      refine ⟨hQ.count, hQ.nodup, hQ.counted, fun other hother => ?_⟩
      rcases List.mem_append.1 hother with hother | hother
      · exact hQ.stored other hother
      · rw [List.mem_singleton.1 hother]
        exact hreceived vote hvote
  | @add b _ hcount hnodup hstored =>
      refine ⟨fun other hother => ?_, fun other hother => ?_, fun other hother => ?_, hQ.stored⟩
      all_goals rcases Multiset.mem_cons.1 hother with rfl | hother
      · exact hcount
      · exact hQ.count other hother
      · exact hnodup
      · exact hQ.nodup other hother
      · exact fun round vote hvote => hQ.stored _ (hstored round vote hvote)
      · exact hQ.counted other hother
  | stopTimer | startTimer | count | authorize =>
      exact ⟨hQ.count, hQ.nodup, hQ.counted, hQ.stored⟩

theorem Tally.commits {P : StoredVote → Prop} {v w : View} (hv : Tally P v) (hs : Commits v w) :
    Tally P w := by
  cases hs with
  | @mk b rest _ _ _ hballots =>
      have hmem : ∀ other ∈ rest.filter fun other => b.height < other.height, other ∈ v.ballots :=
        fun other hother => hballots ▸ Multiset.mem_cons_of_mem (Multiset.mem_of_mem_filter hother)
      exact ⟨fun other hother => hv.count other (hmem other hother),
        fun other hother => hv.nodup other (hmem other hother),
        fun other hother => hv.counted other (hmem other hother),
        fun vote hvote => hv.stored vote (List.mem_of_mem_filter hvote)⟩

end NoLeader
end AergoLite
