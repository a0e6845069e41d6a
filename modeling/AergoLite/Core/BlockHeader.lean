/-
# The header data

`read_block_header` (`core/sqlite3.c`) reads the fields of a block header from the data that
is signed: a version, the time, the height, three hashes and the id of the producer.  Height
and id are integers of variable length (`sqlite4GetVarint64`).

A header is thus a function of its data and its signature (`readBlockHeaderData_eq`).
-/

import AergoLite.Core.Databases

namespace AergoLite
namespace Core

/-- A block of memory as a C string. -/
def textOf (data : Bytes) : Text := data.map fun b => Char.ofNat b.toNat

theorem textOf_injective : Function.Injective textOf := by
  refine List.map_injective_iff.2 fun a b h => UInt8.toNat_inj.1 ?_
  have hvalid : ∀ c : UInt8, (Char.ofNat c.toNat).toNat = c.toNat := fun c => by
    rw [Char.ofNat, dif_pos (Or.inl (by have := c.toNat_lt; omega))]
    rfl
  rw [← hvalid a, ← hvalid b]
  exact congrArg Char.toNat h

/-- An unsigned number, the most significant byte first. -/
def bigEndian (z : Bytes) : ℕ := z.foldl (fun v b => 256 * v + b.toNat) 0

/-- `(int64) v`. -/
def toInt64 (v : ℕ) : ℤ := (BitVec.ofNat 64 v).toInt

/-- `(int) v`. -/
def toInt32 (v : ℕ) : ℤ := (BitVec.ofNat 32 v).toInt

/-- `sqlite4GetVarint64`: the number and what follows it, or `none` where 0 is returned as
there are not enough bytes. -/
def sqlite4GetVarint64 : Bytes → Option (ℕ × Bytes)
  | [] => none
  | z₀ :: z =>
    if z₀.toNat ≤ 240 then some (z₀.toNat, z)
    else if z₀.toNat ≤ 248 then
      match z with
      | [] => none
      | z₁ :: z => some ((z₀.toNat - 241) * 256 + z₁.toNat + 240, z)
    else
      let count := z₀.toNat - 247
      if z.length < count then none
      else
        let v := bigEndian (z.take count)
        some (if z₀.toNat = 249 then 2288 + v else v, z.drop count)

/-- The block creator identifier, with which the data ends.  Where nothing is left to read
`node_id` is used without a value, and the outcome is `none`. -/
def readCreator (p : Bytes) : Option (Except Rc ℤ) :=
  match sqlite4GetVarint64 p with
  | none => if p = [] then none else some (.error .invalid)
  | some (nodeId, p) => if p = [] then some (.ok (toInt32 nodeId)) else some (.error .invalid)

/-- `read_block_header` up to the check of the signature: the time and the header. -/
def readBlockHeaderData (data sig : Bytes) : Option (Except Rc (ℤ × Header)) :=
  if data.length < 75 ∨ sig.length ≠ 64 then some (.error .misuse)
  else if data.head? ≠ some 1 then some (.error .invalid)
  else
    let timestamp := toInt64 (bigEndian ((data.drop 1).take 8).reverse)
    -- at least 66 bytes are left, so there is a number
    let (blockHeight, p) := (sqlite4GetVarint64 (data.drop 9)).getD (0, data.drop 9)
    if p.length < 32 then some (.error .invalid)
    else
      let (prevHash, p) := p.splitAt 32
      if p.length < 32 then some (.error .invalid)
      else
        let (txnsHash, p) := p.splitAt 32
        if p.length < 32 then some (.error .invalid)
        else
          let (stateHash, p) := p.splitAt 32
          (readCreator p).map fun creator => creator.map fun nodeId => (timestamp,
            ⟨toInt64 blockHeight, prevHash, txnsHash, stateHash, nodeId, textOf data, sig⟩)

/-- A header has the data and the signature it is read from. -/
theorem readBlockHeaderData_eq {data sig : Bytes} {timestamp : ℤ} {header : Header}
    (h : readBlockHeaderData data sig = some (.ok (timestamp, header))) :
    header.data = textOf data ∧ header.sig = sig := by
  unfold readBlockHeaderData at h
  dsimp only at h
  split_ifs at h
  · cases h
  · cases h
  · cases h
  · cases h
  · cases h
  · obtain ⟨creator, -, hheader⟩ := Option.map_eq_some_iff.1 h
    cases creator with
    | error rc => cases hheader
    | ok nodeId =>
        obtain ⟨-, rfl⟩ := Prod.mk.inj (Except.ok.inj hheader)
        exact ⟨rfl, rfl⟩

/-- **A header is what its data and its signature say.** -/
theorem readBlockHeaderData_unique {data data' sig sig' : Bytes} {timestamp timestamp' : ℤ}
    {header header' : Header}
    (h : readBlockHeaderData data sig = some (.ok (timestamp, header)))
    (h' : readBlockHeaderData data' sig' = some (.ok (timestamp', header')))
    (hdata : header.data = header'.data) (hsig : header.sig = header'.sig) :
    timestamp = timestamp' ∧ header = header' := by
  obtain ⟨htext, hsign⟩ := readBlockHeaderData_eq h
  obtain ⟨htext', hsign'⟩ := readBlockHeaderData_eq h'
  obtain rfl : data = data' := textOf_injective (htext.symm.trans (hdata.trans htext'))
  obtain rfl : sig = sig' := hsign.symm.trans (hsig.trans hsign')
  exact Prod.mk.inj (Except.ok.inj (Option.some.inj (h.symm.trans h')))

end Core
end AergoLite
