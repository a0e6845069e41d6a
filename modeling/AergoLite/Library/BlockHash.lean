/-
# Hashes of blocks

A hash takes a text in blocks of `n` symbols, and compresses each into its state.  It does this as
the symbols come, with the begin of the next block in a buffer (`feed`), and the state is the one
that the blocks of the whole text lead to, however the text comes (`feed_spec`).

The text is padded so that its end tells its length (`Padding`).  Then two texts with the same hash
are a collision of the compression (`collides_of_hash`), the theorem of Merkle and Damgård.
-/

import Mathlib.Data.List.Basic
import Mathlib.Data.List.Induction
import Mathlib.Tactic.Common
import Mathlib.Tactic.Set

namespace BlockHash

variable {σ β : Type*}

/-! ## Blocks -/

/-- The first blocks of a text. -/
def takeBlocks (n : ℕ) : ℕ → List β → List (List β)
  | 0, _ => []
  | k + 1, text => text.take n :: takeBlocks n k (text.drop n)

/-- The blocks of a text; what is left of it is not a block. -/
def blocks (n : ℕ) (text : List β) : List (List β) := takeBlocks n (text.length / n) text

theorem blocks_append {n : ℕ} (hn : 0 < n) {block : List β} (hblock : block.length = n)
    (text : List β) : blocks n (block ++ text) = block :: blocks n text := by
  have hcount : (block ++ text).length / n = text.length / n + 1 := by
    rw [List.length_append, hblock, Nat.add_comm, Nat.add_div_right _ hn]
  unfold blocks
  rw [hcount, takeBlocks, List.take_left' hblock, List.drop_left' hblock]

theorem blocks_flatten {n : ℕ} (hn : 0 < n) {bs : List (List β)} (h : ∀ b ∈ bs, b.length = n) :
    blocks n bs.flatten = bs := by
  induction bs with
  | nil =>
      unfold blocks
      rw [List.flatten_nil, List.length_nil, Nat.zero_div]
      rfl
  | cons b bs ih =>
      rw [List.flatten_cons, blocks_append hn (h b List.mem_cons_self),
        ih fun b' hb' => h b' (List.mem_cons_of_mem _ hb')]

/-- A text is its blocks and what is left. -/
theorem exists_blocks {n : ℕ} (hn : 0 < n) (text : List β) :
    ∃ (bs : List (List β)) (rest : List β), text = bs.flatten ++ rest ∧
      (∀ b ∈ bs, b.length = n) ∧ rest.length < n := by
  induction hsize : text.length using Nat.strongRecOn generalizing text with
  | ind size ih =>
      by_cases hshort : text.length < n
      · exact ⟨[], text, rfl, fun _ h => absurd h List.not_mem_nil, hshort⟩
      · obtain ⟨bs, rest, hdrop, hbs, hrest⟩ := ih (text.drop n).length
          (by rw [List.length_drop]; omega) (text.drop n) rfl
        refine ⟨text.take n :: bs, rest, ?_, ?_, hrest⟩
        · rw [List.flatten_cons, List.append_assoc, ← hdrop, List.take_append_drop]
        · intro b hb
          rcases List.mem_cons.1 hb with rfl | hb
          · rw [List.length_take]
            omega
          · exact hbs b hb

/-- A text of whole blocks. -/
theorem flatten_blocks {n : ℕ} (hn : 0 < n) {text : List β} (h : text.length % n = 0) :
    (blocks n text).flatten = text ∧ ∀ b ∈ blocks n text, b.length = n := by
  obtain ⟨bs, rest, rfl, hbs, hrest⟩ := exists_blocks hn text
  have hlength : bs.flatten.length % n = 0 := by
    clear h
    induction bs with
    | nil => exact Nat.zero_mod n
    | cons b bs ih =>
        rw [List.flatten_cons, List.length_append, hbs b List.mem_cons_self, Nat.add_mod_left]
        exact ih fun b' hb' => hbs b' (List.mem_cons_of_mem _ hb')
  have hnil : rest = [] := by
    rw [List.length_append, Nat.add_mod, hlength, Nat.zero_add, Nat.mod_mod,
      Nat.mod_eq_of_lt hrest] at h
    exact List.length_eq_zero_iff.1 h
  rw [hnil, List.append_nil, blocks_flatten hn hbs]
  exact ⟨rfl, hbs⟩

/-! ## Feeding -/

/-- The next symbol, with the state and the buffer. -/
def feed (compress : σ → List β → σ) (n : ℕ) (c : σ × List β) (x : β) : σ × List β :=
  if c.2.length + 1 = n then (compress c.1 (c.2 ++ [x]), []) else (c.1, c.2 ++ [x])

variable {compress : σ → List β → σ} {n : ℕ}

theorem foldl_feed_short (s : σ) {buffer text : List β} (h : buffer.length + text.length < n) :
    text.foldl (feed compress n) (s, buffer) = (s, buffer ++ text) := by
  induction text generalizing buffer with
  | nil => rw [List.foldl_nil, List.append_nil]
  | cons x text ih =>
      rw [List.length_cons] at h
      have hone : feed compress n (s, buffer) x = (s, buffer ++ [x]) :=
        if_neg (show ¬buffer.length + 1 = n by omega)
      rw [List.foldl_cons, hone, ih (by rw [List.length_append, List.length_singleton]; omega),
        List.append_assoc, List.singleton_append]

theorem foldl_feed_block (hn : 0 < n) (s : σ) {block : List β} (h : block.length = n) :
    block.foldl (feed compress n) (s, []) = (compress s block, []) := by
  rcases List.eq_nil_or_concat block with rfl | ⟨init, x, rfl⟩
  · rw [List.length_nil] at h
    omega
  · rw [List.concat_eq_append, List.length_append, List.length_singleton] at h
    rw [List.concat_eq_append, List.foldl_append,
      foldl_feed_short s (by rw [List.length_nil]; omega), List.nil_append]
    exact if_pos h

/-- **The state after a text** is the one its blocks lead to, and the buffer is what is left. -/
theorem feed_spec (hn : 0 < n) (s : σ) {bs : List (List β)} {rest : List β}
    (hbs : ∀ b ∈ bs, b.length = n) (hrest : rest.length < n) :
    (bs.flatten ++ rest).foldl (feed compress n) (s, []) = (bs.foldl compress s, rest) := by
  induction bs generalizing s with
  | nil =>
      rw [List.flatten_nil, List.nil_append, List.foldl_nil,
        foldl_feed_short s (by rw [List.length_nil]; omega), List.nil_append]
  | cons b bs ih =>
      rw [List.flatten_cons, List.append_assoc, List.foldl_append,
        foldl_feed_block hn s (hbs b List.mem_cons_self),
        ih _ fun b' hb' => hbs b' (List.mem_cons_of_mem _ hb'), List.foldl_cons]

/-! ## Collisions -/

/-- Two states with a block each that are compressed to one state. -/
def Collides (compress : σ → List β → σ) (n : ℕ) : Prop :=
  ∃ s b t c, b.length = n ∧ c.length = n ∧ (s, b) ≠ (t, c) ∧ compress s b = compress t c

/-- Two different lists with the same number of blocks that lead to one state. -/
theorem collides_of_foldl (s : σ) {bs cs : List (List β)} (hbs : ∀ b ∈ bs, b.length = n)
    (hcs : ∀ c ∈ cs, c.length = n) (hlength : bs.length = cs.length) (hne : bs ≠ cs)
    (heq : bs.foldl compress s = cs.foldl compress s) : Collides compress n := by
  induction bs using List.reverseRecOn generalizing cs with
  | nil => exact absurd (List.length_eq_zero_iff.1 hlength.symm).symm hne
  | append_singleton bs b ih =>
      rcases List.eq_nil_or_concat cs with rfl | ⟨cs, c, rfl⟩
      · rw [List.length_append, List.length_singleton, List.length_nil] at hlength
        omega
      · rw [List.concat_eq_append] at hcs hlength hne heq
        rw [List.foldl_append, List.foldl_append] at heq
        have hb := hbs b (List.mem_append_right _ List.mem_cons_self)
        have hc := hcs c (List.mem_append_right _ List.mem_cons_self)
        by_cases hlast : (bs.foldl compress s, b) = (cs.foldl compress s, c)
        · -- the last step is the same, so the lists differ before it
          obtain ⟨hstate, rfl⟩ := Prod.mk.inj hlast
          refine ih (fun b' hb' => hbs b' (List.mem_append_left _ hb'))
            (fun c' hc' => hcs c' (List.mem_append_left _ hc')) ?_ ?_ hstate
          · rw [List.length_append, List.length_append] at hlength
            exact Nat.add_right_cancel hlength
          · rintro rfl
            exact hne rfl
        · exact ⟨_, b, _, c, hb, hc, hlast, heq⟩

/-- **A padding whose last block tells the length.**  `Valid` are the texts it is made for. -/
structure Padding (n : ℕ) (pad : List β → List (List β)) (Valid : List β → Prop) : Prop where
  size : ∀ {text}, Valid text → ∀ b ∈ pad text, b.length = n
  nonempty : ∀ {text}, Valid text → pad text ≠ []
  inj : ∀ {a b}, Valid a → Valid b → pad a = pad b → a = b
  last : ∀ {a b}, Valid a → Valid b → (pad a).getLast? = (pad b).getLast? →
    (pad a).length = (pad b).length

/-- **Two texts with one hash are a collision of the compression.** -/
theorem collides_of_hash {pad : List β → List (List β)} {Valid : List β → Prop}
    (hpad : Padding n pad Valid) (s : σ) {a b : List β} (ha : Valid a) (hb : Valid b) (hne : a ≠ b)
    (heq : (pad a).foldl compress s = (pad b).foldl compress s) : Collides compress n := by
  by_cases hlength : (pad a).length = (pad b).length
  · exact collides_of_foldl s (hpad.size ha) (hpad.size hb) hlength
      (fun h => hne (hpad.inj ha hb h)) heq
  · rcases List.eq_nil_or_concat (pad a) with hnil | ⟨as, x, hx⟩
    · exact absurd hnil (hpad.nonempty ha)
    rcases List.eq_nil_or_concat (pad b) with hnil | ⟨bs, y, hy⟩
    · exact absurd hnil (hpad.nonempty hb)
    have hsizeA := hpad.size ha
    have hsizeB := hpad.size hb
    have hlast := mt (hpad.last ha hb) hlength
    rw [List.concat_eq_append] at hx hy
    rw [hx] at heq hlast hsizeA
    rw [hy] at heq hlast hsizeB
    rw [List.getLast?_concat, List.getLast?_concat] at hlast
    rw [List.foldl_append, List.foldl_append] at heq
    refine ⟨_, x, _, y, hsizeA x (List.mem_append_right _ List.mem_cons_self),
      hsizeB y (List.mem_append_right _ List.mem_cons_self), fun h => hlast ?_, heq⟩
    rw [(Prod.mk.inj h).2]

end BlockHash
