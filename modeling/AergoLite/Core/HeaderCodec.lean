/-
# The codec of block headers

`build_block_header` writes the data of a header and `read_block_header` reads it
(`core/sqlite3.c`): a version, the time, the height, three hashes and the id of the creator.
Height and creator are integers of variable length, written by `sqlite4PutVarint64`.

What is written is read back.  The reader takes an integer in any of the forms of
`sqlite4GetVarint64`, of which `Varint` is the list, and not only in the shortest one: what is
accepted has the six fields, but it is what the writer makes of them only if both integers are
written in the shortest form (`readHeader_codec`).
-/

import AergoLite.Core.BlockHeader
import AergoLite.Core.Blocks

namespace AergoLite
namespace Core

/-! ## Numbers of a fixed length -/

/-- A number in `n` bytes, the most significant first. -/
def bigEndianBytes : ℕ → ℕ → Bytes
  | 0, _ => []
  | n + 1, v => bigEndianBytes n (v / 256) ++ [UInt8.ofNat v]

@[simp] theorem length_bigEndianBytes (n v : ℕ) : (bigEndianBytes n v).length = n := by
  induction n generalizing v with
  | zero => rfl
  | succ n ih => simp [bigEndianBytes, ih]

@[simp] theorem bigEndian_concat (z : Bytes) (b : UInt8) :
    bigEndian (z ++ [b]) = 256 * bigEndian z + b.toNat := by
  simp [bigEndian]

/-- What is written in enough bytes is read back. -/
theorem bigEndian_bigEndianBytes {n v : ℕ} (h : v < 256 ^ n) :
    bigEndian (bigEndianBytes n v) = v := by
  induction n generalizing v with
  | zero =>
      have hzero : v = 0 := by omega
      rw [hzero]
      rfl
  | succ n ih =>
      have hdiv : v / 256 < 256 ^ n := by
        rw [Nat.div_lt_iff_lt_mul (by omega), ← Nat.pow_succ]
        exact h
      rw [bigEndianBytes, bigEndian_concat, ih hdiv, UInt8.toNat_ofNat']
      omega

/-- The bytes of a number are those it was read from. -/
theorem bigEndianBytes_bigEndian (z : Bytes) : bigEndianBytes z.length (bigEndian z) = z := by
  induction z using List.reverseRecOn with
  | nil => rfl
  | append_singleton z b ih =>
      have hb := b.toNat_lt
      have hdiv : (256 * bigEndian z + b.toNat) / 256 = bigEndian z := by omega
      have hlow : UInt8.ofNat (256 * bigEndian z + b.toNat) = b := by
        refine UInt8.toNat_inj.1 ?_
        rw [UInt8.toNat_ofNat']
        omega
      rw [List.length_append, List.length_singleton, bigEndianBytes, bigEndian_concat, hdiv, ih, hlow]

theorem bigEndian_lt (z : Bytes) : bigEndian z < 256 ^ z.length := by
  induction z using List.reverseRecOn with
  | nil => exact Nat.one_pos
  | append_singleton z b ih =>
      have hb := b.toNat_lt
      rw [bigEndian_concat, List.length_append, List.length_singleton, Nat.pow_succ]
      omega

/-- The higher bytes and the lower bytes of a number. -/
theorem bigEndianBytes_append (m n v : ℕ) :
    bigEndianBytes m (v / 256 ^ n) ++ bigEndianBytes n v = bigEndianBytes (m + n) v := by
  induction n generalizing v with
  | zero => simp [bigEndianBytes]
  | succ n ih =>
      have hdiv : v / 256 ^ (n + 1) = v / 256 / 256 ^ n := by
        rw [Nat.div_div_eq_div_mul, Nat.pow_succ, Nat.mul_comm]
      rw [bigEndianBytes, ← List.append_assoc, hdiv, ih]
      rfl

/-- The bytes of a number do not depend on the higher ones. -/
theorem bigEndianBytes_mod (n v : ℕ) : bigEndianBytes n (v % 256 ^ n) = bigEndianBytes n v := by
  induction n generalizing v with
  | zero => rfl
  | succ n ih =>
      have hdiv : v % 256 ^ (n + 1) / 256 = v / 256 % 256 ^ n := by
        rw [Nat.pow_succ', Nat.mod_mul_right_div_self]
      have hlow : UInt8.ofNat (v % 256 ^ (n + 1)) = UInt8.ofNat v := by
        refine UInt8.toNat_inj.1 ?_
        rw [UInt8.toNat_ofNat', UInt8.toNat_ofNat', Nat.pow_succ']
        exact Nat.mod_mul_right_mod v 256 (256 ^ n)
      rw [bigEndianBytes, bigEndianBytes, hdiv, ih, hlow]

/-! ## Integers of variable length -/

/-- `varintWrite32`. -/
def varintWrite32 (y : ℕ) : Bytes := bigEndianBytes 4 y

/-- `sqlite4PutVarint64`. -/
def sqlite4PutVarint64 (x : ℕ) : Bytes :=
  if x ≤ 240 then [UInt8.ofNat x]
  else if x ≤ 2287 then
    let y := x - 240
    [UInt8.ofNat (y / 256 + 241), UInt8.ofNat (y % 256)]
  else if x ≤ 67823 then 249 :: bigEndianBytes 2 (x - 2288)
  else
    let y := x % 2 ^ 32
    let w := x / 2 ^ 32
    if w = 0 then if y ≤ 16777215 then 250 :: bigEndianBytes 3 y else 251 :: varintWrite32 y
    else if w ≤ 255 then 252 :: (bigEndianBytes 1 w ++ varintWrite32 y)
    else if w ≤ 65535 then 253 :: (bigEndianBytes 2 w ++ varintWrite32 y)
    else if w ≤ 16777215 then 254 :: (bigEndianBytes 3 w ++ varintWrite32 y)
    else 255 :: (varintWrite32 w ++ varintWrite32 y)

/-- The forms in which `sqlite4GetVarint64` reads a number. -/
inductive Varint : ℕ → Bytes → Prop
  | one {b : UInt8} (small : b.toNat ≤ 240) : Varint b.toNat [b]
  | two {b c : UInt8} (low : 240 < b.toNat) (high : b.toNat ≤ 248) :
      Varint ((b.toNat - 241) * 256 + c.toNat + 240) [b, c]
  | tagged {b : UInt8} {z : Bytes} (tag : 248 < b.toNat) (length : z.length = b.toNat - 247) :
      Varint (if b.toNat = 249 then 2288 + bigEndian z else bigEndian z) (b :: z)

/-- **What the reader reads** is a number in one of the forms, and then the rest. -/
theorem sqlite4GetVarint64_iff {z rest : Bytes} {v : ℕ} :
    sqlite4GetVarint64 z = some (v, rest) ↔ ∃ code, Varint v code ∧ z = code ++ rest := by
  constructor
  · intro h
    unfold sqlite4GetVarint64 at h
    cases z with
    | nil => cases h
    | cons b z =>
        dsimp only at h
        by_cases hone : b.toNat ≤ 240
        · rw [if_pos hone] at h
          obtain ⟨rfl, rfl⟩ := Prod.mk.inj (Option.some.inj h)
          exact ⟨[b], .one hone, rfl⟩
        rw [if_neg hone] at h
        by_cases htwo : b.toNat ≤ 248
        · rw [if_pos htwo] at h
          cases z with
          | nil => cases h
          | cons c z =>
              obtain ⟨rfl, rfl⟩ := Prod.mk.inj (Option.some.inj h)
              exact ⟨[b, c], .two (by omega) htwo, rfl⟩
        rw [if_neg htwo] at h
        by_cases hlength : z.length < b.toNat - 247
        · rw [if_pos hlength] at h
          cases h
        · rw [if_neg hlength] at h
          obtain ⟨rfl, rfl⟩ := Prod.mk.inj (Option.some.inj h)
          refine ⟨b :: z.take (b.toNat - 247), .tagged (by omega) ?_, ?_⟩
          · rw [List.length_take]
            omega
          · rw [List.cons_append, List.take_append_drop]
  · rintro ⟨code, hcode, rfl⟩
    cases hcode with
    | one small => simp [sqlite4GetVarint64, small]
    | @two b c low high =>
        have hone : ¬b.toNat ≤ 240 := by omega
        simp [sqlite4GetVarint64, hone, high]
    | @tagged b z tag length =>
        have htake : (z ++ rest).take (b.toNat - 247) = z := by rw [← length, List.take_left]
        have hdrop : (z ++ rest).drop (b.toNat - 247) = rest := by rw [← length, List.drop_left]
        have hlong : ¬(z ++ rest).length < b.toNat - 247 := by
          rw [List.length_append]
          omega
        unfold sqlite4GetVarint64
        dsimp only [List.cons_append]
        rw [if_neg (by omega), if_neg (by omega), if_neg hlong, htake, hdrop]

/-- No form is the beginning of another. -/
theorem Varint.append_inj {v v' : ℕ} {code code' rest rest' : Bytes} (h : Varint v code)
    (h' : Varint v' code') (heq : code ++ rest = code' ++ rest') :
    v = v' ∧ code = code' ∧ rest = rest' := by
  have hread : sqlite4GetVarint64 (code ++ rest) = some (v, rest) :=
    sqlite4GetVarint64_iff.2 ⟨code, h, rfl⟩
  rw [heq, sqlite4GetVarint64_iff.2 ⟨code', h', rfl⟩] at hread
  obtain ⟨rfl, rfl⟩ := Prod.mk.inj (Option.some.inj hread)
  exact ⟨rfl, List.append_cancel_right heq, rfl⟩

/-- A form has from one byte to nine. -/
theorem Varint.length_bounds {v : ℕ} {code : Bytes} (h : Varint v code) :
    1 ≤ code.length ∧ code.length ≤ 9 := by
  cases h with
  | one => simp
  | two => simp
  | @tagged b z tag length =>
      have hb := b.toNat_lt
      rw [List.length_cons]
      omega

/-- The form of a number is determined by its length. -/
theorem Varint.eq_of_length {v : ℕ} {code code' : Bytes} (h : Varint v code)
    (h' : Varint v code') (hlength : code.length = code'.length) : code = code' := by
  generalize hv : v = v' at h'
  cases h with
  | @one b small =>
      cases h' with
      | @one b' small' => rw [UInt8.toNat_inj.1 hv]
      | two => simp at hlength
      | tagged tag' length' =>
          simp only [List.length_cons, List.length_nil] at hlength
          omega
  | @two b c low high =>
      cases h' with
      | one => simp at hlength
      | @two b' c' low' high' =>
          have hc := c.toNat_lt
          have hc' := c'.toNat_lt
          have hb : b.toNat = b'.toNat := by omega
          have hlast : c.toNat = c'.toNat := by omega
          rw [UInt8.toNat_inj.1 hb, UInt8.toNat_inj.1 hlast]
      | tagged tag' length' =>
          simp only [List.length_cons, List.length_nil] at hlength
          omega
  | @tagged b z tag length =>
      cases h' with
      | one =>
          simp only [List.length_cons, List.length_nil] at hlength
          omega
      | two =>
          simp only [List.length_cons, List.length_nil] at hlength
          omega
      | @tagged b' z' tag' length' =>
          rw [List.length_cons, List.length_cons] at hlength
          obtain rfl : b = b' := UInt8.toNat_inj.1 (by omega)
          have hvalue : bigEndian z = bigEndian z' := by
            split_ifs at hv <;> omega
          rw [← bigEndianBytes_bigEndian z, ← bigEndianBytes_bigEndian z', hvalue,
            Nat.succ.inj hlength]

/-- The writer without the split of the number into two words. -/
theorem sqlite4PutVarint64_eq {x : ℕ} (h : 67823 < x) :
    sqlite4PutVarint64 x =
      if x < 256 ^ 3 then 250 :: bigEndianBytes 3 x
      else if x < 256 ^ 4 then 251 :: bigEndianBytes 4 x
      else if x < 256 ^ 5 then 252 :: bigEndianBytes 5 x
      else if x < 256 ^ 6 then 253 :: bigEndianBytes 6 x
      else if x < 256 ^ 7 then 254 :: bigEndianBytes 7 x
      else 255 :: bigEndianBytes 8 x := by
  have hlow : ∀ n, bigEndianBytes n (x / 2 ^ 32) ++ varintWrite32 (x % 2 ^ 32) =
      bigEndianBytes (n + 4) x := by
    intro n
    rw [← bigEndianBytes_append n 4 x, varintWrite32]
    exact congrArg _ (bigEndianBytes_mod 4 x)
  have hhigh : varintWrite32 (x / 2 ^ 32) ++ varintWrite32 (x % 2 ^ 32) = bigEndianBytes 8 x :=
    hlow 4
  unfold sqlite4PutVarint64
  rw [if_neg (by omega), if_neg (by omega), if_neg (by omega)]
  dsimp only
  rw [hlow, hlow, hlow, hhigh]
  by_cases hword : x / 2 ^ 32 = 0
  · have hsmall : x % 2 ^ 32 = x := by omega
    rw [if_pos hword, hsmall, varintWrite32]
    by_cases hthree : x < 256 ^ 3
    · rw [if_pos (by omega), if_pos hthree]
    · rw [if_neg (by omega), if_neg hthree, if_pos (by omega)]
  · rw [if_neg hword, if_neg (show ¬x < 256 ^ 3 by omega), if_neg (show ¬x < 256 ^ 4 by omega)]
    have hfive : x / 2 ^ 32 ≤ 255 ↔ x < 256 ^ 5 := by omega
    have hsix : x / 2 ^ 32 ≤ 65535 ↔ x < 256 ^ 6 := by omega
    have hseven : x / 2 ^ 32 ≤ 16777215 ↔ x < 256 ^ 7 := by omega
    simp only [hfive, hsix, hseven]

/-- The writer writes one of the forms. -/
theorem varint_sqlite4PutVarint64 {x : ℕ} (h : x < 2 ^ 64) : Varint x (sqlite4PutVarint64 x) := by
  -- a form with a first byte from 250 on holds the number itself
  have htagged : ∀ (b : UInt8) (n : ℕ), 249 < b.toNat → n = b.toNat - 247 → x < 256 ^ n →
      Varint x (b :: bigEndianBytes n x) := by
    intro b n hb hn hx
    have hform := Varint.tagged (b := b) (z := bigEndianBytes n x) (by omega) (by simp [hn])
    rwa [if_neg (by omega), bigEndian_bigEndianBytes hx] at hform
  by_cases hlarge : 67823 < x
  · rw [sqlite4PutVarint64_eq hlarge]
    split_ifs with hthree hfour hfive hsix hseven
    · exact htagged 250 3 (by decide) (by decide) hthree
    · exact htagged 251 4 (by decide) (by decide) hfour
    · exact htagged 252 5 (by decide) (by decide) hfive
    · exact htagged 253 6 (by decide) (by decide) hsix
    · exact htagged 254 7 (by decide) (by decide) hseven
    · exact htagged 255 8 (by decide) (by decide) (by omega)
  unfold sqlite4PutVarint64
  by_cases hone : x ≤ 240
  · rw [if_pos hone]
    have hbyte : (UInt8.ofNat x).toNat = x := by
      rw [UInt8.toNat_ofNat']
      omega
    have hform := Varint.one (b := UInt8.ofNat x) (by omega)
    rwa [hbyte] at hform
  rw [if_neg hone]
  by_cases htwo : x ≤ 2287
  · rw [if_pos htwo]
    dsimp only
    have hfirst : (UInt8.ofNat ((x - 240) / 256 + 241)).toNat = (x - 240) / 256 + 241 := by
      rw [UInt8.toNat_ofNat']
      omega
    have hsecond : (UInt8.ofNat ((x - 240) % 256)).toNat = (x - 240) % 256 := by
      rw [UInt8.toNat_ofNat']
      omega
    have hform := Varint.two (b := UInt8.ofNat ((x - 240) / 256 + 241))
      (c := UInt8.ofNat ((x - 240) % 256)) (by omega) (by omega)
    rw [hfirst, hsecond] at hform
    have hvalue : ((x - 240) / 256 + 241 - 241) * 256 + (x - 240) % 256 + 240 = x := by omega
    rwa [hvalue] at hform
  · rw [if_neg htwo, if_pos (by omega)]
    have hform := Varint.tagged (b := 249) (z := bigEndianBytes 2 (x - 2288)) (by decide) (by simp)
    rw [if_pos (by decide), bigEndian_bigEndianBytes (by omega)] at hform
    have hvalue : 2288 + (x - 2288) = x := by omega
    rwa [hvalue] at hform

/-- **No form is shorter than what the writer writes.** -/
theorem length_sqlite4PutVarint64_le {v : ℕ} {code : Bytes} (h : Varint v code) :
    (sqlite4PutVarint64 v).length ≤ code.length := by
  cases h with
  | @one b small => simp [sqlite4PutVarint64, small]
  | @two b c low high =>
      have hc := c.toNat_lt
      unfold sqlite4PutVarint64
      rw [if_pos (show (b.toNat - 241) * 256 + c.toNat + 240 ≤ 2287 by omega)]
      split_ifs <;> simp
  | @tagged b z tag length =>
      have hz := bigEndian_lt z
      rw [List.length_cons]
      by_cases htwo : b.toNat = 249
      · have hlength : z.length = 2 := by omega
        rw [hlength] at hz
        rw [if_pos htwo, hlength]
        unfold sqlite4PutVarint64
        rw [if_pos (show 2288 + bigEndian z ≤ 67823 by omega)]
        split_ifs <;> simp
      rw [if_neg htwo]
      have hlarger : ∀ k, 256 ^ k ≤ bigEndian z → k < z.length := fun k hk =>
        (Nat.pow_lt_pow_iff_right (by decide)).1 (hk.trans_lt hz)
      by_cases hlarge : 67823 < bigEndian z
      · rw [sqlite4PutVarint64_eq hlarge]
        have hthree := hlarger 3
        have hfour := hlarger 4
        have hfive := hlarger 5
        have hsix := hlarger 6
        have hseven := hlarger 7
        split_ifs <;> simp only [List.length_cons, length_bigEndianBytes] <;> omega
      · unfold sqlite4PutVarint64
        split_ifs <;> simp <;> omega

/-- A number is written in the shortest of its forms. -/
def Shortest (code : Bytes) : Prop :=
  ∀ v code', Varint v code → Varint v code' → code.length ≤ code'.length

/-- **The shortest form of a number** is the one the writer writes. -/
theorem Varint.shortest_iff {v : ℕ} {code : Bytes} (h : Varint v code) (h64 : v < 2 ^ 64) :
    Shortest code ↔ code = sqlite4PutVarint64 v := by
  have hwritten := varint_sqlite4PutVarint64 h64
  constructor
  · intro hshort
    refine h.eq_of_length hwritten (Nat.le_antisymm ?_ (length_sqlite4PutVarint64_le h))
    exact hshort v _ h hwritten
  · rintro rfl v' code' hv hcode'
    obtain ⟨rfl, -, -⟩ := hv.append_inj h (rfl : _ ++ [] = _ ++ [])
    exact length_sqlite4PutVarint64_le hcode'

/-- There is a number where there are nine bytes. -/
theorem sqlite4GetVarint64_isSome {z : Bytes} (h : 9 ≤ z.length) :
    ∃ v rest, sqlite4GetVarint64 z = some (v, rest) := by
  unfold sqlite4GetVarint64
  match z with
  | [] => simp at h
  | [_] => simp at h
  | b :: c :: z =>
      have hb := b.toNat_lt
      rw [List.length_cons, List.length_cons] at h
      dsimp only
      split_ifs with hone htwo hlength
      · exact ⟨_, _, rfl⟩
      · exact ⟨_, _, rfl⟩
      · rw [List.length_cons] at hlength
        omega
      · exact ⟨_, _, rfl⟩
      · exact ⟨_, _, rfl⟩

/-! ## The fields of a header -/

/-- The values of a header, in the types of the source: `int64`, `int` and 32 bytes. -/
structure HeaderFields where
  timestamp : BitVec 64
  height : BitVec 64
  prevHash : Bytes
  txnsHash : Bytes
  stateHash : Bytes
  nodeId : BitVec 32
  prevHash_length : prevHash.length = 32
  txnsHash_length : txnsHash.length = 32
  stateHash_length : stateHash.length = 32

/-- The data that `build_block_header` signs; the id is extended to 64 bits. -/
def HeaderFields.data (f : HeaderFields) : Bytes :=
  1 :: ((bigEndianBytes 8 f.timestamp.toNat).reverse ++ (sqlite4PutVarint64 f.height.toNat ++
    (f.prevHash ++ (f.txnsHash ++ (f.stateHash ++
      sqlite4PutVarint64 (f.nodeId.signExtend 64).toNat)))))

/-- The header with these values. -/
def HeaderFields.header (f : HeaderFields) (data sig : Bytes) : Header :=
  ⟨f.height.toInt, f.prevHash, f.txnsHash, f.stateHash, f.nodeId.toInt, textOf data, sig⟩

/-- Data with the six fields after the version, the two integers in one of their forms. -/
structure HeaderParts where
  time : Bytes
  height : ℕ
  heightCode : Bytes
  prevHash : Bytes
  txnsHash : Bytes
  stateHash : Bytes
  nodeId : ℕ
  nodeIdCode : Bytes
  time_length : time.length = 8
  height_code : Varint height heightCode
  prevHash_length : prevHash.length = 32
  txnsHash_length : txnsHash.length = 32
  stateHash_length : stateHash.length = 32
  nodeId_code : Varint nodeId nodeIdCode

namespace HeaderParts

/-- The parts one after the other. -/
def data (p : HeaderParts) : Bytes :=
  1 :: (p.time ++ (p.heightCode ++ (p.prevHash ++ (p.txnsHash ++ (p.stateHash ++ p.nodeIdCode)))))

/-- The values the reader makes of the parts. -/
def fields (p : HeaderParts) : HeaderFields where
  timestamp := BitVec.ofNat 64 (bigEndian p.time.reverse)
  height := BitVec.ofNat 64 p.height
  prevHash := p.prevHash
  txnsHash := p.txnsHash
  stateHash := p.stateHash
  nodeId := BitVec.ofNat 32 p.nodeId
  prevHash_length := p.prevHash_length
  txnsHash_length := p.txnsHash_length
  stateHash_length := p.stateHash_length

/-- The two integers are written in their shortest form, and the id is that of an `int`. -/
structure Shortest (p : HeaderParts) : Prop where
  height : Core.Shortest p.heightCode
  nodeId : Core.Shortest p.nodeIdCode
  int : p.nodeId < 2 ^ 31 ∨ 2 ^ 64 - 2 ^ 31 ≤ p.nodeId

theorem length_data (p : HeaderParts) :
    p.data.length = 105 + p.heightCode.length + p.nodeIdCode.length := by
  simp only [data, List.length_cons, List.length_append, p.time_length, p.prevHash_length,
    p.txnsHash_length, p.stateHash_length]
  omega

end HeaderParts

/-- What follows the hashes is the id, in one of its forms. -/
theorem readCreator_iff {z : Bytes} {nodeId : ℤ} :
    readCreator z = some (.ok nodeId) ↔ ∃ n, Varint n z ∧ nodeId = toInt32 n := by
  unfold readCreator
  constructor
  · intro h
    split at h
    · split_ifs at h
      cases h
    · rename_i n rest hread
      split_ifs at h with hrest
      · obtain ⟨code, hcode, rfl⟩ := sqlite4GetVarint64_iff.1 hread
        rw [hrest, List.append_nil]
        exact ⟨n, hcode, (Except.ok.inj (Option.some.inj h)).symm⟩
      · cases h
  · rintro ⟨n, hcode, rfl⟩
    have hread : sqlite4GetVarint64 z = some (n, []) :=
      sqlite4GetVarint64_iff.2 ⟨z, hcode, (List.append_nil z).symm⟩
    rw [hread]
    rfl

/-- **What the reader accepts**, up to the signature: the six fields. -/
theorem readBlockHeaderData_iff {data sig : Bytes} {timestamp : ℤ} {header : Header} :
    readBlockHeaderData data sig = some (.ok (timestamp, header)) ↔
      sig.length = 64 ∧ ∃ p : HeaderParts, data = p.data ∧ timestamp = p.fields.timestamp.toInt ∧
        header = p.fields.header data sig := by
  constructor
  · intro h
    unfold readBlockHeaderData at h
    by_cases hsize : data.length < 75 ∨ sig.length ≠ 64
    · rw [if_pos hsize] at h
      cases h
    rw [if_neg hsize] at h
    by_cases hversion : data.head? ≠ some 1
    · rw [if_pos hversion] at h
      cases h
    rw [if_neg hversion] at h
    obtain ⟨tail, rfl⟩ : ∃ tail, data = 1 :: tail := by
      cases data with
      | nil => simp at hversion
      | cons b tail => exact ⟨tail, by simpa using hversion⟩
    rw [List.length_cons] at hsize
    obtain ⟨v, z, hread⟩ := sqlite4GetVarint64_isSome (z := tail.drop 8) (by
      rw [List.length_drop]
      omega)
    obtain ⟨heightCode, hheight, hz⟩ := sqlite4GetVarint64_iff.1 hread
    simp only [List.drop_succ_cons, List.drop_zero, hread, Option.getD_some,
      List.splitAt_eq] at h
    by_cases hprev : z.length < 32
    · rw [if_pos hprev] at h
      cases h
    rw [if_neg hprev] at h
    by_cases htxns : (z.drop 32).length < 32
    · rw [if_pos htxns] at h
      cases h
    rw [if_neg htxns] at h
    by_cases hstate : ((z.drop 32).drop 32).length < 32
    · rw [if_pos hstate] at h
      cases h
    rw [if_neg hstate] at h
    obtain ⟨creator, hcreator, hheader⟩ := Option.map_eq_some_iff.1 h
    cases creator with
    | error rc => cases hheader
    | ok nodeId =>
        obtain ⟨rfl, rfl⟩ := Prod.mk.inj (Except.ok.inj hheader)
        obtain ⟨n, hn, rfl⟩ := readCreator_iff.1 hcreator
        simp only [List.length_drop] at htxns hstate
        refine ⟨by omega, {
          time := tail.take 8
          height := v
          heightCode
          prevHash := z.take 32
          txnsHash := (z.drop 32).take 32
          stateHash := ((z.drop 32).drop 32).take 32
          nodeId := n
          nodeIdCode := ((z.drop 32).drop 32).drop 32
          time_length := by rw [List.length_take]; omega
          height_code := hheight
          prevHash_length := by rw [List.length_take]; omega
          txnsHash_length := by rw [List.length_take, List.length_drop]; omega
          stateHash_length := by simp only [List.length_take, List.length_drop]; omega
          nodeId_code := hn }, ?_, rfl, rfl⟩
        simp only [HeaderParts.data, List.take_append_drop, ← hz]
  · rintro ⟨hsig, p, rfl, rfl, rfl⟩
    have hlength := p.length_data
    have hcode := p.height_code.length_bounds
    have htime : (p.data.drop 1).take 8 = p.time := by
      simp only [HeaderParts.data, List.drop_succ_cons, List.drop_zero, List.take_left' p.time_length]
    have htail : p.data.drop 9 = p.heightCode ++ (p.prevHash ++ (p.txnsHash ++
        (p.stateHash ++ p.nodeIdCode))) := by
      simp only [HeaderParts.data, List.drop_succ_cons, List.drop_left' p.time_length]
    have hread := sqlite4GetVarint64_iff.2 ⟨p.heightCode, p.height_code, htail⟩
    have hcreator := readCreator_iff.2 ⟨p.nodeId, p.nodeId_code, rfl⟩
    unfold readBlockHeaderData
    rw [if_neg (by omega), if_neg (by simp [HeaderParts.data]), htime, hread]
    simp only [Option.getD_some, List.splitAt_eq, List.take_left' p.prevHash_length,
      List.drop_left' p.prevHash_length, List.take_left' p.txnsHash_length,
      List.drop_left' p.txnsHash_length, List.take_left' p.stateHash_length,
      List.drop_left' p.stateHash_length, List.length_append, p.prevHash_length,
      p.txnsHash_length, p.stateHash_length, hcreator]
    rw [if_neg (by omega), if_neg (by omega), if_neg (by omega)]
    rfl

/-! ## What the writer writes -/

theorem Varint.lt {v : ℕ} {code : Bytes} (h : Varint v code) : v < 2 ^ 64 := by
  cases h with
  | one small => omega
  | @two b c low high =>
      have hc := c.toNat_lt
      omega
  | @tagged b z tag length =>
      have hb := b.toNat_lt
      have hz := (bigEndian_lt z).trans_le (Nat.pow_le_pow_right (by decide)
        (show z.length ≤ 8 by omega))
      by_cases htwo : b.toNat = 249
      · have hlength : z.length = 2 := by omega
        have hsmall := bigEndian_lt z
        rw [hlength] at hsmall
        rw [if_pos htwo]
        omega
      · rw [if_neg htwo]
        exact hz

/-- An `int` that is extended to 64 bits. -/
theorem toNat_signExtend_iff {n : ℕ} (h : n < 2 ^ 64) :
    ((BitVec.ofNat 32 n).signExtend 64).toNat = n ↔ n < 2 ^ 31 ∨ 2 ^ 64 - 2 ^ 31 ≤ n := by
  rw [BitVec.toNat_signExtend, BitVec.toNat_setWidth, BitVec.msb_eq_decide, BitVec.toNat_ofNat]
  by_cases hmsb : 2 ^ (32 - 1) ≤ n % 2 ^ 32
  · simp only [hmsb, decide_true, if_true]
    omega
  · simp only [hmsb, decide_false, Bool.false_eq_true, if_false]
    omega

namespace HeaderFields

/-- What the writer writes has the six fields, in the shortest form. -/
def parts (f : HeaderFields) : HeaderParts where
  time := (bigEndianBytes 8 f.timestamp.toNat).reverse
  height := f.height.toNat
  heightCode := sqlite4PutVarint64 f.height.toNat
  prevHash := f.prevHash
  txnsHash := f.txnsHash
  stateHash := f.stateHash
  nodeId := (f.nodeId.signExtend 64).toNat
  nodeIdCode := sqlite4PutVarint64 (f.nodeId.signExtend 64).toNat
  time_length := by rw [List.length_reverse, length_bigEndianBytes]
  height_code := varint_sqlite4PutVarint64 f.height.isLt
  prevHash_length := f.prevHash_length
  txnsHash_length := f.txnsHash_length
  stateHash_length := f.stateHash_length
  nodeId_code := varint_sqlite4PutVarint64 (f.nodeId.signExtend 64).isLt

/-- The values are read back from the parts. -/
theorem fields_parts (f : HeaderFields) : f.parts.fields = f := by
  have htime : bigEndian (bigEndianBytes 8 f.timestamp.toNat) = f.timestamp.toNat :=
    bigEndian_bigEndianBytes f.timestamp.isLt
  have hid : BitVec.ofNat 32 (f.nodeId.signExtend 64).toNat = f.nodeId := by
    rw [BitVec.ofNat_toNat]
    refine BitVec.eq_of_getLsbD_eq fun i hi => ?_
    simp [BitVec.getElem_signExtend, hi, show i < 64 by omega]
  simp only [parts, HeaderParts.fields, List.reverse_reverse, htime, hid, BitVec.ofNat_toNat,
    BitVec.setWidth_eq]

end HeaderFields

/-- **The parts are what the writer makes of their values** if and only if both integers are
in their shortest form and the id is that of an `int`. -/
theorem HeaderParts.data_eq_iff (p : HeaderParts) : p.data = p.fields.data ↔ p.Shortest := by
  have htime : (bigEndianBytes 8 p.fields.timestamp.toNat).reverse = p.time := by
    have hlt := bigEndian_lt p.time.reverse
    have hbytes := bigEndianBytes_bigEndian p.time.reverse
    rw [List.length_reverse, p.time_length] at hlt hbytes
    rw [HeaderParts.fields, BitVec.toNat_ofNat, Nat.mod_eq_of_lt (b := 2 ^ 64) hlt, hbytes,
      List.reverse_reverse]
  have hheight : p.fields.height.toNat = p.height := by
    rw [HeaderParts.fields, BitVec.toNat_ofNat, Nat.mod_eq_of_lt p.height_code.lt]
  have hint := toNat_signExtend_iff p.nodeId_code.lt
  have hwritten := varint_sqlite4PutVarint64 (p.fields.nodeId.signExtend 64).isLt
  rw [HeaderFields.data, htime, hheight]
  constructor
  · intro h
    have htail := List.append_cancel_left (List.tail_eq_of_cons_eq h)
    obtain ⟨-, hcode, hhashes⟩ := p.height_code.append_inj
      (varint_sqlite4PutVarint64 p.height_code.lt) htail
    have hid := List.append_cancel_left (List.append_cancel_left (List.append_cancel_left hhashes))
    obtain ⟨hvalue, -, -⟩ := p.nodeId_code.append_inj hwritten
      (congrArg (· ++ ([] : Bytes)) hid)
    refine ⟨(p.height_code.shortest_iff p.height_code.lt).2 hcode,
      (p.nodeId_code.shortest_iff p.nodeId_code.lt).2 ?_, hint.1 hvalue.symm⟩
    rw [hvalue]
    exact hid
  · intro h
    have hvalue : (p.fields.nodeId.signExtend 64).toNat = p.nodeId := hint.2 h.int
    rw [hvalue, ← (p.height_code.shortest_iff p.height_code.lt).1 h.height,
      ← (p.nodeId_code.shortest_iff p.nodeId_code.lt).1 h.nodeId]
    rfl

/-! ## The codec -/

variable {D : Type}

/-- `build_block_header`: the data and the signature. -/
def buildBlockHeader (env : Env D) (a : Aergolite D) (f : HeaderFields) :
    Except Rc (Bytes × Bytes) :=
  match aergoliteSignRaw env a (env.crypto.sha256 (textOf f.data)) with
  | .error rc => .error rc
  | .ok sig => .ok (f.data, sig)

/-- `read_block_header`. -/
def readSignedHeader (env : Env D) (a : Aergolite D) (data sig : Bytes) :
    Option (Except Rc (ℤ × Header)) :=
  (readBlockHeaderData data sig).map fun read => read.bind fun (timestamp, header) =>
    if readBlockHeader env a header = .ok then .ok (timestamp, header)
    else .error (readBlockHeader env a header)

/-- What is accepted has been read, and its signature is that of the creator. -/
theorem readSignedHeader_iff {env : Env D} {a : Aergolite D} {data sig : Bytes}
    {read : ℤ × Header} : readSignedHeader env a data sig = some (.ok read) ↔
      readBlockHeaderData data sig = some (.ok read) ∧ readBlockHeader env a read.2 = .ok := by
  unfold readSignedHeader
  constructor
  · intro h
    obtain ⟨result, hread, hsigned⟩ := Option.map_eq_some_iff.1 h
    cases result with
    | error rc => cases hsigned
    | ok found =>
        dsimp only [Except.bind] at hsigned
        split_ifs at hsigned with hok
        obtain rfl := Except.ok.inj hsigned
        exact ⟨hread, hok⟩
  · rintro ⟨hread, hok⟩
    rw [hread, Option.map_some]
    dsimp only [Except.bind]
    rw [if_pos hok]

/-- A signature that is accepted has 64 bytes. -/
theorem length_of_verifyRaw {env : Env D} {a : Aergolite D} {hash sig : Bytes} {nodeId : ℤ}
    (h : a.verifyRaw env hash nodeId sig = .ok) : sig.length = 64 := by
  unfold Aergolite.verifyRaw aergoliteVerifyRawById at h
  split at h
  · cases h
  · exact (aergoliteVerifyRaw_eq_ok.1 h).2.1

/-- The six values that are returned are the same. -/
def SameValues (read read' : ℤ × Header) : Prop :=
  read.1 = read'.1 ∧ read.2.height = read'.2.height ∧ read.2.prevHash = read'.2.prevHash ∧
    read.2.txnsHash = read'.2.txnsHash ∧ read.2.stateHash = read'.2.stateHash ∧
    read.2.nodeId = read'.2.nodeId

/-- The values determine the fields. -/
theorem fields_eq_of_sameValues {f f' : HeaderFields} {data data' sig sig' : Bytes}
    (h : SameValues (f.timestamp.toInt, f.header data sig)
      (f'.timestamp.toInt, f'.header data' sig')) : f = f' := by
  obtain ⟨htime, hheight, hprev, htxns, hstate, hid⟩ := h
  have htimestamp := BitVec.eq_of_toInt_eq htime
  have hnumber := BitVec.eq_of_toInt_eq hheight
  have hcreator := BitVec.eq_of_toInt_eq hid
  cases f
  cases f'
  dsimp only [HeaderFields.header] at htimestamp hnumber hprev htxns hstate hcreator
  subst htimestamp hnumber hprev htxns hstate hcreator
  rfl

/-- **The codec of block headers.**  What the writer writes and the creator signs is read
back.  What is accepted has the six fields, and is what the writer makes of their values if and
only if its integers are in the shortest form; so two data of this kind are the same if they
have the same values. -/
theorem readSignedHeader_codec (env : Env D) (a : Aergolite D) :
    (∀ (b : Aergolite D) (f : HeaderFields) (data sig : Bytes),
      buildBlockHeader env b f = .ok (data, sig) →
      a.verifyRaw env (env.crypto.sha256 (textOf data)) f.nodeId.toInt sig = .ok →
      readSignedHeader env a data sig = some (.ok (f.timestamp.toInt, f.header data sig))) ∧
    (∀ (data sig : Bytes) (timestamp : ℤ) (header : Header),
      readSignedHeader env a data sig = some (.ok (timestamp, header)) →
      ∃ p : HeaderParts, data = p.data ∧ timestamp = p.fields.timestamp.toInt ∧
        header = p.fields.header data sig ∧ (data = p.fields.data ↔ p.Shortest)) ∧
    (∀ (p p' : HeaderParts) (sig sig' : Bytes) (read read' : ℤ × Header),
      readSignedHeader env a p.data sig = some (.ok read) →
      readSignedHeader env a p'.data sig' = some (.ok read') →
      SameValues read read' → p.Shortest → p'.Shortest → p.data = p'.data) := by
  refine ⟨fun b f data sig hbuild hsig => ?_, fun data sig timestamp header h => ?_,
    fun p p' sig sig' read read' h h' hsame hshort hshort' => ?_⟩
  · have hlength : sig.length = 64 := length_of_verifyRaw hsig
    obtain rfl : data = f.data := by
      unfold buildBlockHeader at hbuild
      split at hbuild
      · cases hbuild
      · exact (Prod.mk.inj (Except.ok.inj hbuild)).1.symm
    refine readSignedHeader_iff.2 ⟨readBlockHeaderData_iff.2 ⟨hlength, f.parts, rfl, ?_, ?_⟩, hsig⟩
    · rw [f.fields_parts]
    · rw [f.fields_parts]
  · obtain ⟨hread, -⟩ := readSignedHeader_iff.1 h
    obtain ⟨-, p, rfl, htime, hheader⟩ := readBlockHeaderData_iff.1 hread
    exact ⟨p, rfl, htime, hheader, p.data_eq_iff⟩
  · have hvalues : ∀ {q : HeaderParts} {sig : Bytes} {read : ℤ × Header},
        readSignedHeader env a q.data sig = some (.ok read) →
        read = (q.fields.timestamp.toInt, q.fields.header q.data sig) := by
      intro q sig read hq
      obtain ⟨hread, -⟩ := readSignedHeader_iff.1 hq
      obtain ⟨hlength, -⟩ := readBlockHeaderData_iff.1 hread
      have hown := readBlockHeaderData_iff.2 ⟨hlength, q, rfl, rfl, rfl⟩
      exact Except.ok.inj (Option.some.inj (hread.symm.trans hown))
    rw [hvalues h, hvalues h'] at hsame
    rw [p.data_eq_iff.2 hshort, p'.data_eq_iff.2 hshort', fields_eq_of_sameValues hsame]

/-- A node that has the key of node 1. -/
def readerOfNodeOne : Aergolite Unit :=
  freshAergolite 1 (List.replicate 33 1) [⟨List.replicate 33 1, 1, false, 1, 0, 0⟩] []

/-- The fields of the block of node 1 at height 2. -/
def fieldsOfNodeOne : HeaderFields where
  timestamp := 0
  height := 2
  prevHash := List.replicate 32 0
  txnsHash := List.replicate 32 0
  stateHash := List.replicate 32 0
  nodeId := 1
  prevHash_length := List.length_replicate
  txnsHash_length := List.length_replicate
  stateHash_length := List.length_replicate

/-- Its data, with the height and the id as they are given. -/
def dataWith (heightCode nodeIdCode : Bytes) : Bytes :=
  1 :: (List.replicate 8 0 ++ (heightCode ++ (List.replicate 96 0 ++ nodeIdCode)))

/-- The signature of node 1. -/
def sigWith (data : Bytes) : Bytes :=
  plainSign (List.replicate 33 1) (plainCrypto.sha256 (textOf data))

/-- The header that node 1 builds is read back. -/
theorem readSignedHeader_codec_nodeOne :
    readSignedHeader plainEnv readerOfNodeOne fieldsOfNodeOne.data (sigWith fieldsOfNodeOne.data) =
      some (.ok (fieldsOfNodeOne.timestamp.toInt,
        fieldsOfNodeOne.header fieldsOfNodeOne.data (sigWith fieldsOfNodeOne.data))) :=
  (readSignedHeader_codec plainEnv readerOfNodeOne).1 readerOfNodeOne fieldsOfNodeOne _ _
    (by decide +kernel) (by decide +kernel)

/-- **The integers of a header can be written in several ways.**  The height 2 is read from one
byte and from four, and both data are accepted; and where the id is missing it is used without
a value. -/
theorem readSignedHeader_not_unique :
    (∃ read read', readSignedHeader plainEnv readerOfNodeOne (dataWith [2] [1])
        (sigWith (dataWith [2] [1])) = some (.ok read) ∧
      readSignedHeader plainEnv readerOfNodeOne (dataWith [250, 0, 0, 2] [1])
        (sigWith (dataWith [250, 0, 0, 2] [1])) = some (.ok read') ∧
      SameValues read read' ∧ dataWith [2] [1] ≠ dataWith [250, 0, 0, 2] [1]) ∧
    readSignedHeader plainEnv readerOfNodeOne (dataWith [2] [])
      (sigWith (dataWith [2] [])) = none := by
  refine ⟨⟨(0, fieldsOfNodeOne.header (dataWith [2] [1]) (sigWith (dataWith [2] [1]))),
    (0, fieldsOfNodeOne.header (dataWith [250, 0, 0, 2] [1])
      (sigWith (dataWith [250, 0, 0, 2] [1]))), ?_, ?_, ⟨rfl, rfl, rfl, rfl, rfl, rfl⟩, ?_⟩, ?_⟩
  all_goals decide +kernel

end Core
end AergoLite
