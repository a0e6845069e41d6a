/-
# The last nonce of a node

What the functions of `Core.Blocks` do to the nonces of the authorization list, read as the
functions of `core/sqlite3.c` read it: the entry of a node is the first one with its id.  Node
ids are made of 31 bits of a hash, so two keys may have one, and the later entry then never
counts: its nonces stay 0.

`Counts` says what the list holds, as two functions of the node, the live nonce and the copy;
each operation on the list is an operation on the two.
-/

import AergoLite.Core.Nonces

namespace AergoLite
namespace Core

variable {auths auths' : List NodeAuth}

/-- The last nonce of a node, 0 if it is not in the list. -/
def lastNonceOf (auths : List NodeAuth) (nodeId : ℤ) : ℤ :=
  ((aergoliteGetAuthorization auths nodeId).map NodeAuth.lastNonce).getD 0

/-- The nonce that was saved for it. -/
def savedNonceOf (auths : List NodeAuth) (nodeId : ℤ) : ℤ :=
  ((aergoliteGetAuthorization auths nodeId).map NodeAuth.savedNonce).getD 0

/-- An id that `generate_node_id_from_pubkey` can make. -/
def IsNodeId (nodeId : ℤ) : Prop := 0 ≤ nodeId ∧ nodeId < 2 ^ 31

/-- **What the list holds.** -/
structure Counts (live copy : ℕ → ℕ) (auths : List NodeAuth) : Prop where
  ids : ∀ auth ∈ auths, IsNodeId auth.nodeId
  /-- Of the entries with one id, only the first counts. -/
  first : auths.Pairwise fun a b => b.nodeId = a.nodeId → b.lastNonce = 0 ∧ b.savedNonce = 0
  live : ∀ n : ℕ, lastNonceOf auths n = live n
  copy : ∀ n : ℕ, savedNonceOf auths n = copy n

theorem getAuthorization_cons (auth : NodeAuth) (auths : List NodeAuth) (nodeId : ℤ) :
    aergoliteGetAuthorization (auth :: auths) nodeId =
      if auth.nodeId = nodeId then some auth else aergoliteGetAuthorization auths nodeId := by
  unfold aergoliteGetAuthorization
  rw [List.find?_cons]
  split_ifs with hid
  · rw [beq_iff_eq.2 hid]
  · rw [beq_eq_false_iff_ne.2 hid]

/-- An operation on each entry. -/
theorem getAuthorization_map {set : NodeAuth → NodeAuth} (hset : ∀ a, (set a).nodeId = a.nodeId)
    (auths : List NodeAuth) (nodeId : ℤ) : aergoliteGetAuthorization (auths.map set) nodeId =
      (aergoliteGetAuthorization auths nodeId).map set := by
  have hid : (fun auth : NodeAuth => auth.nodeId == nodeId) ∘ set =
      fun auth => auth.nodeId == nodeId := by
    funext auth
    rw [Function.comp_apply, hset]
  unfold aergoliteGetAuthorization
  rw [List.find?_map, hid]

/-- The entry that is advanced is the one that is found. -/
theorem getAuthorization_update {set : NodeAuth → NodeAuth}
    (hset : ∀ a, (set a).nodeId = a.nodeId) (auths : List NodeAuth) (nodeId id : ℤ) :
    aergoliteGetAuthorization (updateAuth nodeId set auths) id =
      if id = nodeId then (aergoliteGetAuthorization auths id).map set
      else aergoliteGetAuthorization auths id := by
  induction auths with
  | nil => simp [updateAuth, aergoliteGetAuthorization]
  | cons auth auths ih =>
      rw [updateAuth]
      by_cases hnode : auth.nodeId = nodeId
      · rw [if_pos hnode, getAuthorization_cons, getAuthorization_cons, hset]
        split_ifs with hid hne hne
        · rfl
        · exact absurd (hid.symm.trans hnode) hne
        · exact absurd (hnode.trans hne.symm) hid
        · rfl
      · rw [if_neg hnode, getAuthorization_cons, getAuthorization_cons]
        by_cases hid : auth.nodeId = id
        · rw [if_pos hid, if_neg fun h => hnode (hid.trans h), if_pos hid]
        · rw [if_neg hid, if_neg hid]
          exact ih

/-- The entries after one of them is advanced. -/
theorem mem_updateAuth {set : NodeAuth → NodeAuth} {nodeId : ℤ} {auth : NodeAuth}
    (h : auth ∈ updateAuth nodeId set auths) :
    auth ∈ auths ∨ ∃ a ∈ auths, a.nodeId = nodeId ∧ auth = set a := by
  induction auths with
  | nil => exact .inl h
  | cons head tail ih =>
      rw [updateAuth] at h
      split_ifs at h with hnode
      · rcases List.mem_cons.1 h with rfl | h
        · exact .inr ⟨head, List.mem_cons_self, hnode, rfl⟩
        · exact .inl (List.mem_cons_of_mem _ h)
      · rcases List.mem_cons.1 h with rfl | h
        · exact .inl List.mem_cons_self
        · rcases ih h with hmem | ⟨a, ha, heq⟩
          · exact .inl (List.mem_cons_of_mem _ hmem)
          · exact .inr ⟨a, List.mem_cons_of_mem _ ha, heq⟩

theorem getAuthorization_append (auths : List NodeAuth) (auth : NodeAuth) (nodeId : ℤ) :
    aergoliteGetAuthorization (auths ++ [auth]) nodeId =
      (aergoliteGetAuthorization auths nodeId).or
        (if auth.nodeId = nodeId then some auth else none) := by
  have hone := getAuthorization_cons auth [] nodeId
  unfold aergoliteGetAuthorization at hone ⊢
  rw [List.find?_append, hone]
  rfl

/-- A node of the list is found there. -/
theorem exists_getAuthorization {nodeId : ℤ} (h : nodeId ∈ auths.map NodeAuth.nodeId) :
    ∃ auth, aergoliteGetAuthorization auths nodeId = some auth := by
  obtain ⟨auth, hmem, hid⟩ := List.mem_map.1 h
  refine Option.isSome_iff_exists.1 (List.find?_isSome.2 ⟨auth, hmem, ?_⟩)
  exact beq_iff_eq.2 hid

namespace Counts

variable {live copy : ℕ → ℕ}

/-- The entries of a node that are not the first have the last nonce 0. -/
theorem lastNonce (h : Counts live copy auths) {auth : NodeAuth} (hmem : auth ∈ auths) :
    auth.lastNonce = lastNonceOf auths auth.nodeId ∨ auth.lastNonce = 0 := by
  have hfirst := h.first
  clear h
  unfold lastNonceOf
  induction auths with
  | nil => exact absurd hmem List.not_mem_nil
  | cons head tail ih =>
      rw [List.pairwise_cons] at hfirst
      rw [getAuthorization_cons]
      rcases List.mem_cons.1 hmem with rfl | htail
      · rw [if_pos rfl]
        exact .inl rfl
      · split_ifs with hid
        · exact .inr (hfirst.1 auth htail hid.symm).1
        · exact ih htail hfirst.2

/-- An operation on the nonces of each entry. -/
theorem map (h : Counts live copy auths) {set : NodeAuth → NodeAuth} {live' copy' : ℕ → ℕ}
    (hid : ∀ a, (set a).nodeId = a.nodeId)
    (hzero : ∀ a, a.lastNonce = 0 ∧ a.savedNonce = 0 →
      (set a).lastNonce = 0 ∧ (set a).savedNonce = 0)
    (hlive : ∀ n : ℕ, lastNonceOf (auths.map set) n = live' n)
    (hcopy : ∀ n : ℕ, savedNonceOf (auths.map set) n = copy' n) :
    Counts live' copy' (auths.map set) where
  ids auth hmem := by
    obtain ⟨a, ha, rfl⟩ := List.mem_map.1 hmem
    rw [hid]
    exact h.ids a ha
  first := by
    rw [List.pairwise_map]
    refine h.first.imp ?_
    intro a b hab heq
    rw [hid, hid] at heq
    exact hzero b (hab heq)
  live := hlive
  copy := hcopy

theorem save (h : Counts live copy auths) : Counts live live (saveAuthNonces auths) := by
  have hfind := @getAuthorization_map (fun auth => { auth with savedNonce := auth.lastNonce })
    (fun _ => rfl) auths
  refine h.map (fun _ => rfl) (fun a ha => ⟨ha.1, ha.1⟩) (fun n => ?_) fun n => ?_
  · rw [← h.live, lastNonceOf, lastNonceOf, hfind, Option.map_map]
    rfl
  · rw [← h.live, savedNonceOf, lastNonceOf, hfind, Option.map_map]
    rfl

theorem reload (h : Counts live copy auths) : Counts copy copy (reloadAuthNonces auths) := by
  have hfind := @getAuthorization_map (fun auth => { auth with lastNonce := auth.savedNonce })
    (fun _ => rfl) auths
  refine h.map (fun _ => rfl) (fun a ha => ⟨ha.2, ha.2⟩) (fun n => ?_) fun n => ?_
  · rw [← h.copy, lastNonceOf, savedNonceOf, hfind, Option.map_map]
    rfl
  · rw [← h.copy, savedNonceOf, savedNonceOf, hfind, Option.map_map]
    rfl

/-- The nonce of a node of the list is advanced. -/
theorem update (h : Counts live copy auths) {n : ℕ}
    (hmem : (n : ℤ) ∈ auths.map NodeAuth.nodeId) (k : ℕ) :
    Counts (Function.update live n k) copy (updateAuthLastNonce n k auths) where
  ids auth hauth := by
    rcases mem_updateAuth hauth with hauth | ⟨a, ha, -, rfl⟩
    · exact h.ids auth hauth
    · exact h.ids a ha
  first := by
    have hfirst := h.first
    clear h hmem
    induction auths with
    | nil => exact .nil
    | cons head tail ih =>
        rw [List.pairwise_cons] at hfirst
        rw [updateAuthLastNonce, updateAuth]
        split_ifs with hnode
        · exact .cons hfirst.1 hfirst.2
        · refine .cons (fun b hb heq => ?_) (ih hfirst.2)
          rcases mem_updateAuth hb with hb | ⟨a, -, ha, rfl⟩
          · exact hfirst.1 b hb heq
          · exact absurd (heq.symm.trans ha) hnode
  live m := by
    obtain ⟨auth, hauth⟩ := exists_getAuthorization hmem
    rw [lastNonceOf, updateAuthLastNonce,
      @getAuthorization_update (fun auth => { auth with lastNonce := k }) fun _ => rfl]
    by_cases hm : m = n
    · subst hm
      rw [if_pos rfl, hauth, Function.update_self]
      rfl
    · rw [if_neg (by omega), Function.update_of_ne hm]
      exact h.live m
  copy m := by
    rw [← h.copy, savedNonceOf, savedNonceOf, updateAuthLastNonce,
      @getAuthorization_update (fun auth => { auth with lastNonce := k }) fun _ => rfl]
    split_ifs
    · rw [Option.map_map]
      rfl
    · rfl

/-- A node that is authorized has no transaction yet. -/
theorem append (h : Counts live copy auths) {auth : NodeAuth} (hid : IsNodeId auth.nodeId)
    (hzero : auth.lastNonce = 0 ∧ auth.savedNonce = 0) : Counts live copy (auths ++ [auth]) where
  ids other hother := by
    rcases List.mem_append.1 hother with hother | hother
    · exact h.ids other hother
    · rwa [List.mem_singleton.1 hother]
  first := by
    refine List.pairwise_append.2 ⟨h.first, List.pairwise_singleton _ _, fun a _ b hb _ => ?_⟩
    rwa [List.mem_singleton.1 hb]
  live n := by
    rw [← h.live, lastNonceOf, lastNonceOf, getAuthorization_append]
    cases aergoliteGetAuthorization auths n with
    | some other => rfl
    | none =>
        rw [Option.none_or]
        split_ifs
        · exact hzero.1
        · rfl
  copy n := by
    rw [← h.copy, savedNonceOf, savedNonceOf, getAuthorization_append]
    cases aergoliteGetAuthorization auths n with
    | some other => rfl
    | none =>
        rw [Option.none_or]
        split_ifs
        · exact hzero.2
        · rfl

/-- Only the nonces of the list matter. -/
theorem of_authNonces (h : Counts live copy auths) (heq : authNonces auths' = authNonces auths) :
    Counts live copy auths' := by
  have hfind : ∀ (as : List NodeAuth) (nodeId : ℤ),
      (aergoliteGetAuthorization as nodeId).map (fun a => (a.nodeId, a.lastNonce, a.savedNonce)) =
        (authNonces as).find? fun e => e.1 == nodeId := by
    intro as nodeId
    rw [authNonces, List.find?_map]
    rfl
  have hlast : ∀ (as : List NodeAuth) (nodeId : ℤ), lastNonceOf as nodeId =
      (((authNonces as).find? fun e => e.1 == nodeId).map fun e => e.2.1).getD 0 := by
    intro as nodeId
    rw [← hfind, Option.map_map]
    rfl
  have hsaved : ∀ (as : List NodeAuth) (nodeId : ℤ), savedNonceOf as nodeId =
      (((authNonces as).find? fun e => e.1 == nodeId).map fun e => e.2.2).getD 0 := by
    intro as nodeId
    rw [← hfind, Option.map_map]
    rfl
  have hpairs : ∀ as : List NodeAuth,
      (authNonces as).Pairwise (fun e f => f.1 = e.1 → f.2.1 = 0 ∧ f.2.2 = 0) ↔
        as.Pairwise fun a b => b.nodeId = a.nodeId → b.lastNonce = 0 ∧ b.savedNonce = 0 := by
    intro as
    rw [authNonces, List.pairwise_map]
  refine ⟨fun auth hauth => ?_, ?_, fun n => ?_, fun n => ?_⟩
  · have hnode := List.mem_map_of_mem (f := NodeAuth.nodeId) hauth
    rw [← map_fst_authNonces, heq, map_fst_authNonces] at hnode
    obtain ⟨other, hother, hid⟩ := List.mem_map.1 hnode
    exact hid ▸ h.ids other hother
  · rw [← hpairs, heq, hpairs]
    exact h.first
  · rw [← h.live, hlast, hlast, heq]
  · rw [← h.copy, hsaved, hsaved, heq]

end Counts

end Core
end AergoLite
