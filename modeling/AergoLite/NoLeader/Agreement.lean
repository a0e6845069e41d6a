/-
# Agreement

Any number of nodes run the handlers.  They hold the same authorization list at each
height, votes may be lost, delayed, repeated and arrive in any order, and a vote that
is accepted was sent by its node.  As long as no transaction is late, no node votes
twice, and the votes at a height are an election in two rounds (`Network.election`,
`Safe.sound`): a node votes in the second round only when no block can win the first.
A block that is committed carries a round of the election, so no two nodes commit
different blocks at one height (`commits_agree`).
-/

import AergoLite.NoLeader.SingleVote
import AergoLite.Library.TwoRoundVoting
import Mathlib.Data.Fintype.Basic

namespace AergoLite
namespace NoLeader

open AergoLite.Core
open Transition

variable {D : Type}

/-- The number of nodes of a list that the majority at a height is taken of. -/
def electorateSize (auths : List NodeAuth) (height : ℤ) : ℕ :=
  aergoliteNumAuthorizedNodes auths (decide (1 < height))

/-- A list gives the same voters at a height as another one, and the same number of
them. -/
structure SameElectorate (auths auths' : List NodeAuth) (height : ℤ) : Prop where
  voters : ∀ nodeId, canVoteOnBlock auths nodeId height = canVoteOnBlock auths' nodeId height
  size : electorateSize auths height = electorateSize auths' height

/-! ## One node -/

/-- What each node keeps; `lists` are the lists of all nodes, for each height. -/
structure Orderly (lists : ℤ → List NodeAuth) (v : View) : Prop where
  list : SameElectorate v.roster (lists (v.current + 1)) (v.current + 1)
  once : VotedOnce v
  distinct : (v.ballots.map fun b => (b.height, b.id)).Nodup
  numbers : v.Numbered
  eligible : ∀ x ∈ v.sent, canVoteOnBlock (lists x.height) v.nodeId x.height = true

section
variable {lists : ℤ → List NodeAuth} {sign : Bytes → Bytes → Option Bytes} {allow : Allow}

/-- The majority is taken of the electorate of the next height. -/
theorem Orderly.electorate {v : View} (h : Orderly lists v) :
    v.electorate = electorateSize (lists (v.current + 1)) (v.current + 1) := by
  rw [← h.list.size]
  unfold View.electorate electorateSize
  by_cases hpos : 0 < v.current
  · rw [if_pos hpos, h.numbers.2, decide_eq_true (by omega)]
  · rw [if_neg hpos, h.numbers.1, decide_eq_false (by omega)]

theorem Orderly.micro {v w : View} (h : Orderly lists v) (hs : Micro sign allow v w)
    (hlate : ¬ allow.late) (hrepeated : ¬ allow.repeated)
    (hauth : ∀ auth, ¬ allow.authorized auth) : Orderly lists w := by
  have honce := h.once.micro hlate hs
  have hdistinct := hs.distinct hrepeated h.distinct
  cases hs with
  | @vote b rest round sig hballots hheight hcan =>
      refine ⟨h.list, honce, hdistinct, h.numbers, fun x hx => ?_⟩
      rcases List.mem_append.1 hx with hx | hx
      · exact h.eligible x hx
      · obtain rfl := List.mem_singleton.1 hx
        rw [h.list.voters] at hcan
        simpa [hheight] using hcan
  | authorize hauthorized => exact absurd hauthorized (hauth _)
  | count => exact ⟨h.list, honce, hdistinct, ⟨rfl, rfl⟩, h.eligible⟩
  | receive | add | store | stopTimer | startTimer =>
      exact ⟨h.list, honce, hdistinct, h.numbers, h.eligible⟩

/-- A commit, after which the node has the list of the next height. -/
theorem Orderly.commits {v w : View} (h : Orderly lists v) (hs : Commits v w)
    (hlist : SameElectorate w.roster (lists (w.current + 1)) (w.current + 1)) :
    Orderly lists w := by
  have honce := h.once.commits hs
  have hdistinct := hs.distinct h.distinct
  cases hs with
  | mk _ => exact ⟨hlist, honce, hdistinct, ⟨rfl, rfl⟩, h.eligible⟩

/-- A node is added to the list. -/
theorem Orderly.authorize {v : View} {auths : List NodeAuth} (h : Orderly lists v)
    (hlist : SameElectorate auths (lists (v.current + 1)) (v.current + 1)) :
    Orderly lists (v.counted auths) :=
  ⟨hlist, ⟨h.once.last, h.once.timer, h.once.bound, h.once.once⟩, h.distinct, ⟨rfl, rfl⟩,
    h.eligible⟩

end

/-! ## The election at a height -/

variable {ι : Type*} [DecidableEq ι]

namespace Network

/-- The node with that id has sent the vote. -/
def Cast (views : ι → View) (nodeId : ℤ) (x : Vote) : Prop :=
  ∃ j, (views j).nodeId = nodeId ∧ x ∈ (views j).sent

instance [Fintype ι] (views : ι → View) (nodeId : ℤ) (x : Vote) : Decidable (Cast views nodeId x) :=
  inferInstanceAs (Decidable (∃ _, _ ∧ _))

/-- The election at a height. -/
def election (lists : ℤ → List NodeAuth) (views : ι → View) (height : ℤ) :
    TwoRoundVoting.Election ℤ Bytes where
  voters := eligible (lists height) height
  size := electorateSize (lists height) height
  cast round nodeId id := Cast views nodeId ⟨height, round, id⟩

end Network

open Network

/-- A node that has sent more. -/
structure SentMore (v w : View) : Prop where
  node : w.nodeId = v.nodeId
  sent : ∀ x ∈ v.sent, x ∈ w.sent

theorem Network.Cast.update {views : ι → View} {i : ι} {w : View} (h : SentMore (views i) w)
    {nodeId : ℤ} {x : Vote} (hcast : Cast views nodeId x) :
    Cast (Function.update views i w) nodeId x := by
  obtain ⟨j, rfl, hx⟩ := hcast
  by_cases hj : j = i
  · subst hj
    exact ⟨j, by simpa using h.node, by simpa using h.sent x hx⟩
  · exact ⟨j, by simp [hj], by simpa [hj] using hx⟩

theorem Network.election_extends (lists : ℤ → List NodeAuth) {views : ι → View} {i : ι} {w : View}
    (h : SentMore (views i) w) (height : ℤ) :
    (election lists views height).Extends (election lists (Function.update views i w) height) :=
  ⟨rfl, rfl, Cast.update h⟩

/-! ## The nodes together -/

/-- What all nodes keep. -/
structure Safe (lists : ℤ → List NodeAuth) (views : ι → View) : Prop where
  ids : Function.Injective fun i => (views i).nodeId
  orderly : ∀ i, Orderly lists (views i)
  tally : ∀ i, Tally (fun vote => Cast views vote.nodeId ⟨vote.height, vote.round, vote.blockId⟩)
    (views i)
  second : ∀ i, ∀ x ∈ (views i).sent, x.round = 1 →
    ∀ id, (election lists views x.height).Blocked id
  carried : ∀ i, ∀ c ∈ (views i).committed,
    ∃ round, (election lists views c.block.height).Carries round c.block.id

section
variable {lists : ℤ → List NodeAuth} {views : ι → View}

omit [DecidableEq ι] in
/-- **The votes at a height are an election in two rounds.** -/
theorem Safe.sound (h : Safe lists views) (height : ℤ) : (election lists views height).Sound where
  card_le := card_eligible_le_numAuthorized fun hlt => by
    have hlt := of_decide_eq_true hlt
    omega
  single := by
    rintro round nodeId id id' ⟨j, rfl, hx⟩ ⟨k, hk, hy⟩
    obtain rfl : k = j := h.ids hk
    exact (h.orderly k).once.once _ hx _ hy rfl rfl
  second := by
    rintro nodeId id ⟨j, -, hx⟩
    exact h.second j _ hx rfl

omit [DecidableEq ι] in
/-- A vote was sent by a node that can vote. -/
theorem Safe.mem_voters (h : Safe lists views) {nodeId : ℤ} {x : Vote}
    (hcast : Cast views nodeId x) : nodeId ∈ eligible (lists x.height) x.height := by
  obtain ⟨j, rfl, hx⟩ := hcast
  exact mem_eligible.2 ((h.orderly j).eligible x hx)

/-- The nodes that have voted for a block. -/
def Ballot.voters (b : Ballot) (round : Fin 2) : Finset ℤ :=
  ((b.votes round).map BlockVote.nodeId).toFinset

omit [DecidableEq ι] in
/-- The nodes counted on a block: as many as its counter says, and each has sent a vote. -/
theorem Safe.voters (h : Safe lists views) {i : ι} {b : Ballot} (hb : b ∈ (views i).ballots)
    (round : Fin 2) : (b.voters round).card = b.count round ∧
      (∀ nodeId ∈ b.voters round, Cast views nodeId ⟨b.height, round, b.id⟩) ∧
      b.voters round ⊆ eligible (lists b.height) b.height := by
  have hcast : ∀ nodeId ∈ b.voters round, Cast views nodeId ⟨b.height, round, b.id⟩ := by
    intro nodeId hnode
    obtain ⟨vote, hvote, rfl⟩ := List.mem_map.1 (List.mem_toFinset.1 hnode)
    exact (h.tally i).counted b hb round vote hvote
  refine ⟨?_, hcast, fun nodeId hnode => h.mem_voters (hcast nodeId hnode)⟩
  rw [Ballot.voters, List.toFinset_card_of_nodup ((h.tally i).nodup b hb round), List.length_map,
    (h.tally i).count b hb round]

omit [DecidableEq ι] in
/-- **A block with the votes of a majority carries a round.** -/
theorem Safe.carries (h : Safe lists views) {i : ι} {b : Ballot} {round : Fin 2}
    (hb : b ∈ (views i).ballots) (hheight : b.height = (views i).current + 1)
    (hwins : majority (views i).electorate ≤ b.count round) :
    (election lists views b.height).Carries round b.id := by
  obtain ⟨hcard, hcast, hvoters⟩ := h.voters hb round
  refine ⟨b.voters round, hvoters, ?_, hcast⟩
  rw [(h.orderly i).electorate, ← hheight] at hwins
  exact hwins.trans_eq hcard.symm

omit [DecidableEq ι] in
/-- **Where no block can win the first round, every block is blocked.** -/
theorem Safe.blocked (h : Safe lists views) {i : ι} (hundecidable : (views i).Undecidable)
    {b : Ballot} (hb : b ∈ (views i).ballots) (hheight : b.height = (views i).current + 1)
    (id : Bytes) : (election lists views b.height).Blocked id := by
  have hmem : ∀ other ∈ (views i).next, other ∈ (views i).ballots ∧ other.height = b.height :=
    fun other hother => ⟨Multiset.mem_of_mem_filter hother,
      (Multiset.of_mem_filter hother).trans hheight.symm⟩
  have hkeys : ((views i).next.map fun b => (b.height, b.id)).Nodup :=
    Multiset.nodup_of_le (Multiset.map_le_map (Multiset.filter_le _ _)) (h.orderly i).distinct
  have hnext : (views i).next.Nodup := hkeys.of_map
  have hnextb : b ∈ (views i).next := Multiset.mem_filter.2 ⟨hb, hheight⟩
  refine @TwoRoundVoting.Election.Sound.blocked_of_counted _ _ _ _ (h.sound b.height) _ _
    ⟨(views i).next, hnext⟩ Ballot.id (fun b => b.voters 0) b hnextb ?_ ?_ ?_ ?_ id
  · intro k hk l hl heq
    refine Multiset.inj_on_of_nodup_map hkeys k hk l hl (Prod.ext ?_ heq)
    exact (hmem k hk).2.trans (hmem l hl).2.symm
  · intro k hk
    obtain ⟨hk, hheight⟩ := hmem k hk
    exact hheight ▸ (h.voters hk 0).2.2
  · intro k hk
    obtain ⟨hk, hheight⟩ := hmem k hk
    exact hheight ▸ (h.voters hk 0).2.1
  · intro k hk
    have hsum : ∑ l ∈ (⟨(views i).next, hnext⟩ : Finset Ballot), (l.voters 0).card =
        ((views i).next.map fun b => b.count 0).sum :=
      congrArg Multiset.sum (Multiset.map_congr rfl fun l hl => (h.voters (hmem l hl).1 0).1)
    have hopen := hundecidable k hk
    have hsize : (election lists views b.height).size = (views i).electorate := by
      rw [(h.orderly i).electorate, ← hheight]
      rfl
    rw [hsum, (h.voters (hmem k hk).1 0).1, hsize]
    change _ < TwoRoundVoting.majority _ + _
    have hmajority : majority (views i).electorate =
      TwoRoundVoting.majority (views i).electorate := rfl
    omega

/-- A node has made a step, after which it is orderly, and the votes it has counted were
sent; it votes in the second round when every block is blocked, and commits what carries
a round. -/
theorem Safe.update (h : Safe lists views) {i : ι} {w : View} (hmore : SentMore (views i) w)
    (horderly : Orderly lists w)
    (htally : Tally (fun vote => Cast (Function.update views i w) vote.nodeId
      ⟨vote.height, vote.round, vote.blockId⟩) w)
    (hsecond : ∀ x ∈ w.sent, x ∈ (views i).sent ∨
      (x.round = 1 → ∀ id, (election lists views x.height).Blocked id))
    (hcarried : ∀ c ∈ w.committed, c ∈ (views i).committed ∨
      ∃ round, (election lists views c.block.height).Carries round c.block.id) :
    Safe lists (Function.update views i w) := by
  have hextends := election_extends lists hmore
  have hnode : ∀ j, (Function.update views i w j).nodeId = (views j).nodeId := by
    intro j
    by_cases hj : j = i
    · subst hj
      rw [Function.update_self, hmore.node]
    · rw [Function.update_of_ne hj]
  refine ⟨fun j k hjk => h.ids ?_, fun j => ?_, fun j => ?_, fun j x hx hround id => ?_,
    fun j c hc => ?_⟩
  · simpa only [hnode] using hjk
  all_goals by_cases hj : j = i
  · subst hj
    simpa using horderly
  · simpa [hj] using h.orderly j
  · subst hj
    simpa using htally
  · simpa [hj] using (h.tally j).mono fun vote => Cast.update hmore
  · subst hj
    rw [Function.update_self] at hx
    rcases hsecond x hx with hx | hblocked
    · exact (h.second j x hx hround id).mono (hextends _)
    · exact (hblocked hround id).mono (hextends _)
  · rw [Function.update_of_ne hj] at hx
    exact (h.second j x hx hround id).mono (hextends _)
  · subst hj
    rw [Function.update_self] at hc
    obtain ⟨round, hround⟩ := (hcarried c hc).elim (h.carried j c) id
    exact ⟨round, hround.mono (hextends _)⟩
  · rw [Function.update_of_ne hj] at hc
    obtain ⟨round, hround⟩ := h.carried j c hc
    exact ⟨round, hround.mono (hextends _)⟩

variable {sign : Bytes → Bytes → Option Bytes} {allow : Allow}

theorem Micro.sentMore {v w : View} (hs : Micro sign allow v w) : SentMore v w := by
  cases hs with
  | vote => exact ⟨rfl, fun x hx => List.mem_append_left _ hx⟩
  | _ => exact ⟨rfl, fun x hx => hx⟩

/-- The votes of a second round that a small step adds. -/
theorem Micro.sent_second {v w : View} (hs : Micro sign allow v w) {x : Vote} (hx : x ∈ w.sent) :
    x ∈ v.sent ∨ (x.round = 1 →
      v.Undecidable ∧ ∃ b ∈ v.ballots, b.height = v.current + 1 ∧ x.height = b.height) := by
  cases hs with
  | @vote b rest round sig hballots hheight _ _ _ _ hmay =>
      refine (List.mem_append.1 hx).imp_right fun hx hround => ?_
      obtain rfl := List.mem_singleton.1 hx
      obtain rfl : round = 1 := hround
      exact ⟨hmay.2, b, hballots ▸ Multiset.mem_cons_self b rest, hheight, rfl⟩
  | _ => exact .inl hx

/-- **A small step of a node keeps the nodes safe.** -/
theorem Safe.micro (h : Safe lists views) {i : ι} {w : View}
    (hs : Micro sign allow (views i) w) (hlate : ¬ allow.late) (hrepeated : ¬ allow.repeated)
    (hauth : ∀ auth, ¬ allow.authorized auth)
    (hreceived : ∀ vote, allow.received vote →
      Cast views vote.nodeId ⟨vote.height, vote.round, vote.blockId⟩) :
    Safe lists (Function.update views i w) := by
  have hmore := hs.sentMore
  refine h.update hmore ((h.orderly i).micro hs hlate hrepeated hauth) ?_ (fun x hx => ?_)
    fun c hc => .inl (hs.committed ▸ hc)
  · refine (h.tally i).micro hs (fun vote => Cast.update hmore)
      (fun vote hvote => (hreceived vote hvote).update hmore) fun b _ round sig _ _ _ hsent => ?_
    exact ⟨i, by simpa using hmore.node, by simp [hsent]⟩
  · refine (hs.sent_second hx).imp_right fun hnew hround => ?_
    obtain ⟨hundecidable, b, hb, hheight, hxb⟩ := hnew hround
    rw [hxb]
    exact h.blocked hundecidable hb hheight

/-- **A commit of a node keeps the nodes safe.** -/
theorem Safe.commits (h : Safe lists views) {i : ι} {w : View} (hs : Commits (views i) w)
    (hlist : SameElectorate w.roster (lists (w.current + 1)) (w.current + 1)) :
    Safe lists (Function.update views i w) := by
  have hmore : SentMore (views i) w := by
    cases hs
    exact ⟨rfl, fun x hx => hx⟩
  refine h.update hmore ((h.orderly i).commits hs hlist)
    (((h.tally i).mono fun vote => Cast.update hmore).commits hs) (fun x hx => .inl ?_)
    fun c hc => ?_
  · cases hs
    exact hx
  · cases hs with
    | @mk b rest round _ _ hballots hheight hwins hblock =>
        refine (List.mem_append.1 hc).imp_right fun hc => ⟨round, ?_⟩
        obtain rfl := List.mem_singleton.1 hc
        rw [hblock.1, hblock.2]
        exact h.carries (hballots ▸ Multiset.mem_cons_self b rest) hheight hwins

/-- A node is added to the list of a node. -/
theorem Safe.authorize (h : Safe lists views) {i : ι} {auths : List NodeAuth}
    (hlist : SameElectorate auths (lists ((views i).current + 1)) ((views i).current + 1)) :
    Safe lists (Function.update views i ((views i).counted auths)) := by
  have hmore : SentMore (views i) ((views i).counted auths) := ⟨rfl, fun x hx => hx⟩
  have htally := (h.tally i).mono fun vote => Cast.update hmore
  exact h.update hmore ((h.orderly i).authorize hlist)
    ⟨htally.count, htally.nodup, htally.counted, htally.stored⟩ (fun x hx => .inl hx)
    fun c hc => .inl hc

/-- **A handler of a node keeps the nodes safe.** -/
theorem Safe.handled (h : Safe lists views) {i : ι} {w : View}
    (hs : Handled sign allow (views i) w) (hlate : ¬ allow.late) (hrepeated : ¬ allow.repeated)
    (hauth : ∀ auth, ¬ allow.authorized auth)
    (hreceived : ∀ vote, allow.received vote →
      Cast views vote.nodeId ⟨vote.height, vote.round, vote.blockId⟩)
    (hlist : SameElectorate w.roster (lists (w.current + 1)) (w.current + 1)) :
    Safe lists (Function.update views i w) := by
  have hstart : SentMore (views i) (views i) := ⟨rfl, fun x hx => hx⟩
  obtain ⟨u, ⟨-, hu⟩, hend⟩ := hs.before (I := fun u => SentMore (views i) u ∧
    Safe lists (Function.update views i u)) ⟨hstart, by simpa using h⟩ fun v u hv hs => by
      have hself : Function.update views i v i = v := Function.update_self ..
      have hsu : Micro sign allow (Function.update views i v i) u := hself.symm ▸ hs
      have hmore := hs.sentMore
      refine ⟨⟨hmore.node.trans hv.1.node, fun x hx => hmore.sent x (hv.1.sent x hx)⟩, ?_⟩
      have hsafe := hv.2.micro hsu hlate hrepeated hauth
        fun vote hvote => (hreceived vote hvote).update hv.1
      rwa [Function.update_idem] at hsafe
  rcases hend with rfl | hend
  · exact hu
  · have hself : Function.update views i u i = u := Function.update_self ..
    have hsafe := hu.commits (hself.symm ▸ hend) hlist
    rwa [Function.update_idem] at hsafe

end

/-! ## The network -/

/-- The views of all nodes. -/
def views (nodes : ι → Plugin D) (i : ι) : View := (nodes i).view

/-- The votes accepted by a node were sent by theirs. -/
def Delivered (net : Net D) (nodes : ι → Plugin D) (a : ι × Event) : Prop :=
  ∀ msg ∈ a.2.message, msg.accepted net (nodes a.1) = true →
    Cast (views nodes) msg.nodeId ⟨msg.height, msg.vote.round, msg.id⟩

instance [Fintype ι] (net : Net D) (nodes : ι → Plugin D) (a : ι × Event) :
    Decidable (Delivered net nodes a) :=
  inferInstanceAs (Decidable (∀ msg ∈ a.2.message, _ → _))

/-- Each node holds the list of its height. -/
def HoldLists (lists : ℤ → List NodeAuth) (nodes : ι → Plugin D) : Prop :=
  ∀ i, SameElectorate (nodes i).core.authorizations (lists ((nodes i).currentHeight + 1))
    ((nodes i).currentHeight + 1)

/-- Nodes with different ids that hold the same lists and run the handlers.  What they
accept as a vote was sent as one, and the blocks they create have new ids. -/
def network (net : Net D) (lists : ℤ → List NodeAuth) : System (ι → Plugin D) (ι × Event) where
  init nodes := (∀ i, (nodes i).Fresh) ∧ (Function.Injective fun i => (nodes i).nodeId) ∧
    HoldLists lists nodes
  step nodes a nodes' := Delivered net nodes a ∧ ¬ repeatedBlock net (nodes a.1) a.2 ∧
    (∃ q, step net (nodes a.1) a.2 = some q ∧ nodes' = Function.update nodes a.1 q) ∧
    HoldLists lists nodes'

theorem views_update (nodes : ι → Plugin D) (i : ι) (q : Plugin D) :
    views (Function.update nodes i q) = Function.update (views nodes) i q.view :=
  funext fun j => Function.apply_update (fun _ => Plugin.view) nodes i q j

omit [DecidableEq ι] in
/-- The list a node holds, on its view. -/
theorem HoldLists.view {lists : ℤ → List NodeAuth} {nodes : ι → Plugin D}
    (h : HoldLists lists nodes) (i : ι) : SameElectorate (nodes i).view.roster
      (lists ((nodes i).view.current + 1)) ((nodes i).view.current + 1) := by
  refine ⟨fun nodeId => ?_, ?_⟩
  · exact (canVoteOnBlock_roster _ nodeId _).trans ((h i).voters nodeId)
  · exact (aergoliteNumAuthorizedNodes_roster _ _).trans (h i).size

omit [DecidableEq ι] in
theorem safe_of_fresh {lists : ℤ → List NodeAuth} {nodes : ι → Plugin D}
    (hfresh : ∀ i, (nodes i).Fresh) (hids : Function.Injective fun i => (nodes i).nodeId)
    (hlists : HoldLists lists nodes) : Safe lists (views nodes) := by
  have hsent : ∀ i, (views nodes i).sent = [] := fun i => (hfresh i).sent
  have hballots : ∀ i, (views nodes i).ballots = 0 := by
    intro i
    simp [views, Plugin.view, Plugin.viewOf, (hfresh i).newBlocks]
  have hstored : ∀ i, (views nodes i).stored = [] := fun i => (hfresh i).blockVotes
  have hcommitted : ∀ i, (views nodes i).committed = [] := fun i => (hfresh i).committed
  refine ⟨hids, fun i => ⟨hlists.view i, votedOnce_of_fresh (hfresh i), ?_, ?_, ?_⟩,
    fun i => ⟨?_, ?_, ?_, ?_⟩, fun i => ?_, fun i => ?_⟩
  · simp [hballots]
  · have hcounted := congrArg Plugin.view (hfresh i).counted
    rw [view_countAuthorizedNodes] at hcounted
    exact ⟨congrArg View.total hcounted, congrArg View.active hcounted⟩
  · simp [hsent]
  · simp [hballots]
  · simp [hballots]
  · simp [hballots]
  · simp [hstored]
  · simp [hsent]
  · simp [hcommitted]

/-- **One step of the network.** -/
theorem Safe.step {net : Net D} {lists : ℤ → List NodeAuth} {nodes nodes' : ι → Plugin D}
    {a : ι × Event} (h : Safe lists (views nodes)) (hs : (network net lists).step nodes a nodes')
    (hlate : ¬ lateTransaction net (nodes a.1) a.2) : Safe lists (views nodes') := by
  obtain ⟨hdelivered, hrepeated, ⟨q, hq, rfl⟩, hlists⟩ := hs
  have hlist := hlists.view a.1
  rw [Function.update_self] at hlist
  rw [views_update]
  have hnotLate := ((h.orderly a.1).once).not_late hq hlate
  obtain ⟨i, e⟩ := a
  by_cases hauth : ∃ auth, (allow net (nodes i) e).authorized auth
  · obtain ⟨-, log, fromThisNode, -, -, rfl, -⟩ := hauth
    rcases view_onNewAuthorization net hq with hview | ⟨auth, -, hview⟩
    · rw [hview]
      exact (Function.update_eq_self i (views nodes)).symm ▸ h
    · rw [hview] at hlist ⊢
      exact h.authorize hlist
  · refine h.handled (step_handled net hq) hnotLate hrepeated (fun auth hnew => hauth ⟨auth, hnew⟩)
      (fun vote hvote => ?_) hlist
    obtain ⟨msg, rfl, haccepted, rfl, -⟩ := hvote
    exact hdelivered msg rfl haccepted

theorem safe_invariant (net : Net D) (lists : ℤ → List NodeAuth) :
    ((network net lists).restrict fun (nodes : ι → Plugin D) a =>
      ¬ lateTransaction net (nodes a.1) a.2).Invariant fun nodes => Safe lists (views nodes) where
  init _ h := safe_of_fresh h.1 h.2.1 h.2.2
  step _ _ _ h hs := h.step hs.2 hs.1

/-- **Agreement.**  As long as no transaction is late, no two nodes commit different
blocks at one height. -/
theorem commits_agree (net : Net D) (lists : ℤ → List NodeAuth) {nodes : ι → Plugin D}
    (h : ((network net lists).restrict fun (nodes : ι → Plugin D) a =>
      ¬ lateTransaction net (nodes a.1) a.2).Reachable nodes) :
    ∀ i j, ∀ c ∈ (nodes i).committed, ∀ c' ∈ (nodes j).committed,
      c.block.height = c'.block.height → c.block.id = c'.block.id := by
  intro i j c hc c' hc' hheight
  have hsafe : Safe lists (views nodes) := (safe_invariant net lists).reachable h
  obtain ⟨round, hround⟩ := hsafe.carried i c hc
  obtain ⟨round', hround'⟩ := hsafe.carried j c' hc'
  rw [← hheight] at hround'
  exact (hsafe.sound c.block.height).carries_unique hround hround'

/-! ## Three nodes -/

/-- Nodes 1, 2 and 3. -/
def threeStart (i : Fin 3) : Plugin Unit := startNode (i + 1)

/-- What the network allows them, checked. -/
def canHappen (nodes : Fin 3 → Plugin Unit) (a : Fin 3 × Event) : Bool :=
  decide (Delivered plainNet nodes a) && !decide (repeatedBlock plainNet (nodes a.1) a.2)

/-- The three nodes have the list they started with, but for the nonces. -/
def keepList (nodes : Fin 3 → Plugin Unit) : Bool :=
  decide (∀ i, roster (nodes i).core.authorizations = roster threeNodes)

/-- A step of the three nodes. -/
def threeStep (nodes : Fin 3 → Plugin Unit) (a : Fin 3 × Event) : Option (Fin 3 → Plugin Unit) :=
  if canHappen nodes a then
    ((step plainNet (nodes a.1) a.2).map (Function.update nodes a.1)).filter keepList
  else none

theorem holdLists_of_keepList {nodes : Fin 3 → Plugin Unit} (h : keepList nodes = true) :
    HoldLists (fun _ => threeNodes) nodes := by
  intro i
  have hroster : roster (nodes i).core.authorizations = roster threeNodes := of_decide_eq_true h i
  refine ⟨fun nodeId => ?_, ?_⟩
  · rw [← canVoteOnBlock_roster, hroster, canVoteOnBlock_roster]
  · unfold electorateSize
    rw [← aergoliteNumAuthorizedNodes_roster, hroster, aergoliteNumAuthorizedNodes_roster]

theorem threeStart_init : (network plainNet fun _ => threeNodes).init threeStart :=
  ⟨fun i => startNodeWith_fresh _ threeNodes, by decide, holdLists_of_keepList (by decide)⟩

/-- What three nodes are seen to do, they can do. -/
theorem network_of_threeStep {nodes nodes' : Fin 3 → Plugin Unit} {a : Fin 3 × Event}
    (h : threeStep nodes a = some nodes') :
    (network plainNet fun _ => threeNodes).step nodes a nodes' := by
  unfold threeStep canHappen at h
  split_ifs at h with hcan
  rw [Bool.and_eq_true, decide_eq_true_iff] at hcan
  obtain ⟨hmap, hkeep⟩ := Option.filter_eq_some_iff.1 h
  obtain ⟨q, hq, rfl⟩ := Option.map_eq_some_iff.1 hmap
  exact ⟨hcan.1, by simpa using hcan.2, ⟨q, hq, rfl⟩, holdLists_of_keepList hkeep⟩

/-- Each node votes for its own block, as node 2 does not have the transaction of the
first; then nodes 2 and 3 vote for the block of node 2 in the second round, and node 3
commits it. -/
def secondRound : List (Fin 3 × Event) :=
  [(1, transactionOf 2), (1, .newBlockTimeout 0), (2, transactionOf 2), (2, .newBlockTimeout 0),
    (0, transactionOf 1), (0, .newBlockTimeout 0), (1, blockOf 1 [firstTid 1]),
    (1, .blockWaitTimeout), (2, .blockWaitTimeout), (0, .blockWaitTimeout),
    (1, blockOf 3 [firstTid 2]), (1, voteBy 1 0 1), (1, voteBy 3 0 3),
    (2, blockOf 2 [firstTid 2]), (2, blockOf 1 [firstTid 1]), (2, voteBy 2 0 2),
    (2, voteBy 1 0 1), (2, voteBy 2 1 2)]

/-- The blocks that have been committed, by node. -/
def commitsOf (nodes : Fin 3 → Plugin Unit) : List (List (ℤ × Bytes)) :=
  (List.finRange 3).map fun i => (nodes i).committed.map fun c => (c.block.height, c.block.id)

/-- The hypothesis holds of three nodes, two of which commit a block. -/
theorem commits_agree_secondRound :
    ∃ nodes, System.run (System.checked (fun nodes a => unrequested (nodes a.1) a.2) threeStep)
        threeStart (secondRound ++ [(1, voteBy 3 1 2)]) = some nodes ∧
      commitsOf nodes = [[], [(2, idOf 2)], [(2, idOf 2)]] ∧
      ∀ i j, ∀ c ∈ (nodes i).committed, ∀ c' ∈ (nodes j).committed,
        c.block.height = c'.block.height → c.block.id = c'.block.id := by
  have hcommits : (System.run (System.checked (fun nodes a => unrequested (nodes a.1) a.2)
      threeStep) threeStart (secondRound ++ [(1, voteBy 3 1 2)])).map commitsOf =
        some [[], [(2, idOf 2)], [(2, idOf 2)]] := by decide +kernel
  obtain ⟨nodes, hnodes, hcommits⟩ := Option.map_eq_some_iff.1 hcommits
  refine ⟨nodes, hnodes, hcommits, commits_agree plainNet (fun _ => threeNodes) ?_⟩
  have hinit : ((network plainNet fun _ => threeNodes).restrict fun (nodes : Fin 3 → Plugin Unit) a =>
      ¬ lateTransaction plainNet (nodes a.1) a.2).init threeStart := threeStart_init
  refine System.Reachable.run (fun {s a t} hstep => ?_) (.init hinit) hnodes
  unfold System.checked at hstep
  split_ifs at hstep with hcheck
  exact ⟨not_lateTransaction_of_unrequested hcheck, network_of_threeStep hstep⟩

/-- **Two nodes commit different blocks at one height.**  Node 3 has committed the block
of node 2; now the transaction arrives at node 2, which votes for the block of node 1
and commits it. -/
theorem commits_disagree :
    ∃ nodes : Fin 3 → Plugin Unit, (network plainNet fun _ => threeNodes).Reachable nodes ∧
      ∃ c ∈ (nodes 1).committed, ∃ c' ∈ (nodes 2).committed,
        c.block.height = c'.block.height ∧ c.block.id ≠ c'.block.id := by
  have hcommits : (System.run threeStep threeStart (secondRound ++ [(1, transactionOf 1)])).any
      (fun nodes => (nodes 1).committed.any fun c => (nodes 2).committed.any fun c' =>
        decide (c.block.height = c'.block.height ∧ c.block.id ≠ c'.block.id)) = true := by
    decide +kernel
  obtain ⟨nodes, hnodes, hany⟩ := (Option.any_eq_true _ _).1 hcommits
  obtain ⟨c, hc, hany⟩ := List.any_eq_true.1 hany
  obtain ⟨c', hc', hdiff⟩ := List.any_eq_true.1 hany
  exact ⟨nodes, System.Reachable.run network_of_threeStep (.init threeStart_init) hnodes, c, hc,
    c', hc', of_decide_eq_true hdiff⟩

end NoLeader
end AergoLite
