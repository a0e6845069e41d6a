/-
# Stream ciphers

A stream cipher combines the text, letter by letter, with a keystream that the text has no part
in.  `combine` is this combination; where combining twice with one letter gives back what was
there, combining twice with one keystream does (`combine_combine`), whatever the keystream.

A program does not compute the keystream apart.  It runs a generator along with the text, one
letter after another (`generate`), or it computes blocks of the keystream from a counter
(`ofBlocks`).  Both are combinations with a keystream (`generate_eq_combine`,
`combine_ofBlocks_append`).
-/

import Mathlib.Data.List.GetD
import Mathlib.Data.Nat.Notation
import Mathlib.Logic.Function.Iterate
import Mathlib.Tactic.Cases

namespace StreamCipher

variable {α κ σ : Type*}

/-- The text, combined with a keystream. -/
def combine (op : α → κ → α) (key : ℕ → κ) (text : List α) : List α :=
  text.mapIdx fun n a => op a (key n)

@[simp] theorem combine_nil (op : α → κ → α) (key : ℕ → κ) : combine op key [] = [] := rfl

theorem combine_cons (op : α → κ → α) (key : ℕ → κ) (a : α) (text : List α) :
    combine op key (a :: text) = op a (key 0) :: combine op (fun n => key (n + 1)) text :=
  List.mapIdx_cons

@[simp] theorem length_combine (op : α → κ → α) (key : ℕ → κ) (text : List α) :
    (combine op key text).length = text.length := List.length_mapIdx

theorem combine_append (op : α → κ → α) (key : ℕ → κ) (s t : List α) :
    combine op key (s ++ t) = combine op key s ++ combine op (fun n => key (n + s.length)) t :=
  List.mapIdx_append

/-- Only as much of the keystream matters as there is text. -/
theorem combine_congr {op : α → κ → α} {key key' : ℕ → κ} {text : List α}
    (h : ∀ n < text.length, key n = key' n) : combine op key text = combine op key' text := by
  refine List.ext_getElem (by simp) fun n hn _ => ?_
  rw [length_combine] at hn
  simp only [combine, List.getElem_mapIdx, h n hn]

/-- **The keystream decrypts what it encrypted.** -/
theorem combine_combine {op : α → κ → α} (hop : ∀ a k, op (op a k) k = a) (key : ℕ → κ)
    (text : List α) : combine op key (combine op key text) = text := by
  refine List.ext_getElem (by simp) fun n _ _ => ?_
  simp only [combine, List.getElem_mapIdx, hop]

/-! ## Generators -/

/-- The text, combined with what a generator gives for each letter. -/
def generate (op : α → κ → α) (next : σ → σ) (key : σ → κ) : σ → List α → List α
  | _, [] => []
  | s, a :: text => op a (key (next s)) :: generate op next key (next s) text

/-- The keystream of a generator. -/
def ofGenerator (next : σ → σ) (key : σ → κ) (s : σ) (n : ℕ) : κ := key (next^[n + 1] s)

theorem generate_eq_combine (op : α → κ → α) (next : σ → σ) (key : σ → κ) (s : σ)
    (text : List α) : generate op next key s text = combine op (ofGenerator next key s) text := by
  induction text generalizing s with
  | nil => rfl
  | cons a text ih =>
    rw [generate, combine_cons, ih]
    rfl

/-! ## Blocks -/

/-- A block, combined with the begin of a text. -/
theorem zipWith_eq_combine (op : α → κ → α) (block : List κ) (text : List α)
    (h : text.length ≤ block.length) (k : κ) :
    List.zipWith op text block = combine op (fun n => block.getD n k) text := by
  refine List.ext_getElem (by simp [h]) fun n hn _ => ?_
  rw [List.length_zipWith] at hn
  have hblock : n < block.length := by omega
  simp only [combine, List.getElem_zipWith, List.getElem_mapIdx, List.getD_eq_getElem _ _ hblock]

/-- The keystream of blocks of one length. -/
def ofBlocks (size : ℕ) (block : ℕ → List κ) (k : κ) (n : ℕ) : κ :=
  (block (n / size)).getD (n % size) k

/-- One block, and then the blocks after it. -/
theorem combine_ofBlocks_append {op : α → κ → α} {size : ℕ} (block : ℕ → List κ) (k : κ)
    (hsize : 0 < size) {s : List α} (hs : s.length = size) (hblock : (block 0).length = size)
    (t : List α) :
    combine op (ofBlocks size block k) (s ++ t)
      = List.zipWith op s (block 0) ++ combine op (ofBlocks size (fun n => block (n + 1)) k) t := by
  rw [combine_append, zipWith_eq_combine op _ s (by omega) k]
  congr 1
  · refine combine_congr fun n hn => ?_
    have hn : n < size := hs ▸ hn
    simp only [ofBlocks, Nat.div_eq_of_lt hn, Nat.mod_eq_of_lt hn]
  · refine combine_congr fun n _ => ?_
    simp only [ofBlocks, hs, Nat.add_div_right n hsize, Nat.add_mod_right]

/-- A block that is not full. -/
theorem combine_ofBlocks_short {op : α → κ → α} {size : ℕ} (block : ℕ → List κ) (k : κ)
    {text : List α} (htext : text.length < size) (hblock : (block 0).length = size) :
    combine op (ofBlocks size block k) text = List.zipWith op text (block 0) := by
  rw [zipWith_eq_combine op _ text (by omega) k]
  refine combine_congr fun n hn => ?_
  have hn : n < size := by omega
  simp only [ofBlocks, Nat.div_eq_of_lt hn, Nat.mod_eq_of_lt hn]

end StreamCipher
