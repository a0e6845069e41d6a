/-
# Elections in two rounds

Voters cast ballots for candidates in a first and a second round, at most one
each in either.  A candidate *carries* a round when more than half of the
`size` of the electorate cast a ballot for it.  A candidate is *blocked* when
so many voters chose another one in the first round that it cannot carry that
round any more.  If a ballot is cast in the second round only when every
candidate is blocked (`Election.Sound`), at most one candidate ever carries a
round (`Election.Sound.carries_unique`): two majorities of one round share a
voter, and a second-round majority holds a voter who saw every candidate
blocked in the first.
-/

import Mathlib.Algebra.BigOperators.Group.Finset.Basic
import Mathlib.Data.Finset.Card
import Mathlib.Tactic.Use

namespace TwoRoundVoting

/-- More than half of `n`. -/
def majority (n : ℕ) : ℕ := n / 2 + 1

/-- **Two majorities share a member.** -/
theorem exists_mem_of_majority {V : Type*} [DecidableEq V] {A B S : Finset V} {n : ℕ}
    (hS : S.card ≤ n) (hAS : A ⊆ S) (hBS : B ⊆ S) (hA : majority n ≤ A.card)
    (hB : majority n ≤ B.card) : ∃ v, v ∈ A ∧ v ∈ B := by
  have hunion : (A ∪ B).card ≤ n :=
    (Finset.card_le_card (Finset.union_subset hAS hBS)).trans hS
  have hinter := Finset.card_union_add_card_inter A B
  unfold majority at hA hB
  have hpos : 0 < (A ∩ B).card := by omega
  obtain ⟨v, hv⟩ := Finset.card_pos.1 hpos
  exact ⟨v, (Finset.mem_inter.1 hv).1, (Finset.mem_inter.1 hv).2⟩

/-- An electorate and the ballots its voters have cast: `cast r v b` when `v`
chose `b` in round `r`.  The majority is taken of `size`. -/
structure Election (V B : Type*) where
  voters : Finset V
  size : ℕ
  cast : Fin 2 → V → B → Prop

namespace Election

variable {V B : Type*}

/-- Candidate `b` has a majority in round `r`. -/
def Carries (E : Election V B) (r : Fin 2) (b : B) : Prop :=
  ∃ Q : Finset V, Q ⊆ E.voters ∧ majority E.size ≤ Q.card ∧ ∀ v ∈ Q, E.cast r v b

/-- Too many voters chose another candidate in the first round for `b` to carry
it. -/
def Blocked (E : Election V B) (b : B) : Prop :=
  ∃ S : Finset V, S ⊆ E.voters ∧ E.size < S.card + majority E.size ∧
    ∀ v ∈ S, ∃ b', b' ≠ b ∧ E.cast 0 v b'

/-- The rules of the election. -/
structure Sound (E : Election V B) : Prop where
  card_le : E.voters.card ≤ E.size
  single : ∀ {r v b b'}, E.cast r v b → E.cast r v b' → b = b'
  second : ∀ {v b}, E.cast 1 v b → ∀ b', E.Blocked b'

/-- More ballots, the same electorate. -/
structure Extends (E E' : Election V B) : Prop where
  voters : E'.voters = E.voters
  size : E'.size = E.size
  cast : ∀ {r v b}, E.cast r v b → E'.cast r v b

/-- A candidate that is blocked stays blocked. -/
theorem Blocked.mono {E E' : Election V B} (h : E.Extends E') {b : B} (hb : E.Blocked b) :
    E'.Blocked b := by
  obtain ⟨S, hS, hcard, hcast⟩ := hb
  refine ⟨S, h.voters ▸ hS, h.size ▸ hcard, fun v hv => ?_⟩
  obtain ⟨b', hne, hb'⟩ := hcast v hv
  exact ⟨b', hne, h.cast hb'⟩

/-- A majority is not lost. -/
theorem Carries.mono {E E' : Election V B} (h : E.Extends E') {r : Fin 2} {b : B}
    (hb : E.Carries r b) : E'.Carries r b := by
  obtain ⟨Q, hQ, hcard, hcast⟩ := hb
  exact ⟨Q, h.voters ▸ hQ, h.size ▸ hcard, fun v hv => h.cast (hcast v hv)⟩

/-- A majority is not empty. -/
theorem Carries.exists_cast {E : Election V B} {r : Fin 2} {b : B} (hb : E.Carries r b) :
    ∃ v, E.cast r v b := by
  obtain ⟨Q, -, hcard, hcast⟩ := hb
  unfold majority at hcard
  obtain ⟨v, hv⟩ := Finset.card_pos.1 (show 0 < Q.card by omega)
  exact ⟨v, hcast v hv⟩

variable [DecidableEq V]

/-- **A blocked candidate does not carry the first round.**  The voters who
chose another one and the majority for it would not fit into the electorate. -/
theorem Sound.not_carries_of_blocked {E : Election V B} (hE : E.Sound) {b : B}
    (hb : E.Blocked b) : ¬ E.Carries 0 b := by
  rintro ⟨Q, hQ, hcard, hcast⟩
  obtain ⟨S, hS, hlt, hother⟩ := hb
  have hdisj : Disjoint S Q := by
    refine Finset.disjoint_left.2 fun v hvS hvQ => ?_
    obtain ⟨b', hne, hb'⟩ := hother v hvS
    exact hne (hE.single hb' (hcast v hvQ))
  have hunion := (Finset.card_le_card (Finset.union_subset hS hQ)).trans hE.card_le
  rw [Finset.card_union_of_disjoint hdisj] at hunion
  omega

/-- **The test for a second round.**  A voter has counted first-round ballots, for one
candidate in each of the lists `counted k`, `k ∈ lists`.  If no list reaches a majority
with all the voters who have not been counted, every candidate is blocked, those without
a list too. -/
theorem Sound.blocked_of_counted {E : Election V B} (hE : E.Sound) [DecidableEq B] {κ : Type*}
    {lists : Finset κ} {candidate : κ → B} {counted : κ → Finset V} {k₀ : κ} (hk₀ : k₀ ∈ lists)
    (hinj : ∀ k ∈ lists, ∀ l ∈ lists, candidate k = candidate l → k = l)
    (hvoters : ∀ k ∈ lists, counted k ⊆ E.voters)
    (hcast : ∀ k ∈ lists, ∀ v ∈ counted k, E.cast 0 v (candidate k))
    (hopen : ∀ k ∈ lists, (counted k).card + E.size <
      majority E.size + ∑ l ∈ lists, (counted l).card) (b : B) : E.Blocked b := by
  refine ⟨(lists.filter fun k => candidate k ≠ b).biUnion counted, ?_, ?_, fun v hv => ?_⟩
  · exact Finset.biUnion_subset.2 fun k hk => hvoters k (Finset.mem_filter.1 hk).1
  · have hdisj : ((lists.filter fun k => candidate k ≠ b).biUnion counted).card =
        ∑ k ∈ lists.filter fun k => candidate k ≠ b, (counted k).card := by
      refine Finset.card_biUnion fun k hk l hl hne => Finset.disjoint_left.2 fun v hvk hvl => hne ?_
      have hkl := (Finset.mem_filter.1 hk).1
      have hll := (Finset.mem_filter.1 hl).1
      exact hinj k hkl l hll (hE.single (hcast k hkl v hvk) (hcast l hll v hvl))
    have hsum := Finset.sum_filter_add_sum_filter_not lists (fun k => candidate k ≠ b)
      fun k => (counted k).card
    rw [hdisj]
    by_cases hb : ∃ k ∈ lists, candidate k = b
    · obtain ⟨k, hk, rfl⟩ := hb
      have hone : ∑ l ∈ lists.filter (fun l => ¬ candidate l ≠ candidate k), (counted l).card =
          (counted k).card := by
        refine Finset.sum_eq_single_of_mem k (by simp [hk]) fun l hl hne => absurd ?_ hne
        obtain ⟨hl, heq⟩ := Finset.mem_filter.1 hl
        exact hinj l hl k hk (not_not.1 heq)
      have hlt := hopen k hk
      omega
    · have hnone : lists.filter (fun l => ¬ candidate l ≠ b) = ∅ :=
        Finset.filter_eq_empty_iff.2 fun l hl heq => hb ⟨l, hl, not_not.1 heq⟩
      rw [hnone, Finset.sum_empty] at hsum
      have hlt := hopen k₀ hk₀
      omega
  · obtain ⟨k, hk, hv⟩ := Finset.mem_biUnion.1 hv
    obtain ⟨hk, hne⟩ := Finset.mem_filter.1 hk
    exact ⟨candidate k, hne, hcast k hk v hv⟩

/-- At most one candidate carries a given round. -/
theorem Sound.carries_unique_of_round {E : Election V B} (hE : E.Sound) {r : Fin 2} {b b' : B}
    (hb : E.Carries r b) (hb' : E.Carries r b') : b = b' := by
  obtain ⟨Q, hQ, hcard, hcast⟩ := hb
  obtain ⟨Q', hQ', hcard', hcast'⟩ := hb'
  obtain ⟨v, hv, hv'⟩ := exists_mem_of_majority hE.card_le hQ hQ' hcard hcard'
  exact hE.single (hcast v hv) (hcast' v hv')

/-- No candidate carries the first round once another carries the second. -/
theorem Sound.not_carries_first {E : Election V B} (hE : E.Sound) {b b' : B}
    (hb' : E.Carries 1 b') : ¬ E.Carries 0 b := by
  obtain ⟨v, hv⟩ := hb'.exists_cast
  exact hE.not_carries_of_blocked (hE.second hv b)

/-- **At most one candidate carries a round, whichever round it is.** -/
theorem Sound.carries_unique {E : Election V B} (hE : E.Sound) {r r' : Fin 2} {b b' : B}
    (hb : E.Carries r b) (hb' : E.Carries r' b') : b = b' := by
  match r, r' with
  | 0, 0 => exact hE.carries_unique_of_round hb hb'
  | 1, 1 => exact hE.carries_unique_of_round hb hb'
  | 0, 1 => exact absurd hb (hE.not_carries_first hb')
  | 1, 0 => exact absurd hb' (hE.not_carries_first hb)

end Election
end TwoRoundVoting
