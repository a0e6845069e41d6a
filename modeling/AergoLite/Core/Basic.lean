/-
# The core's vocabulary: result codes, texts and signatures

The types every part of `core/sqlite3.c` shares, and the two functions through
which it checks a signature.  A definition keeps the name of the C function it
translates (`aergolite_verify_raw` is `aergoliteVerifyRaw`), and a C string is
the list of its characters before the terminator.

The elliptic curve library (`secp256k1-vrf`) and the hash (`common/sha256.c`)
are the parameter `Crypto`: nothing below depends on how they compute.
-/

import Mathlib.Algebra.Group.Int.Defs
import Mathlib.Algebra.GroupWithZero.Nat
import Mathlib.Data.Nat.Notation
import Mathlib.Tactic.SplitIfs

namespace AergoLite

/-- A C string. -/
abbrev Text := List Char

/-- A block of memory. -/
abbrev Bytes := List UInt8

/-! The comparisons of ids and of keys are lawful. -/

instance lawfulBEqId : LawfulBEq (BitVec 64) := inferInstance

instance lawfulBEqBytes : LawfulBEq Bytes := inferInstance

/-- The result codes `SQLITE_OK`, `SQLITE_ERROR`, … that the modelled functions
return; `exist` is `SQLITE_EXISTS`. -/
inductive Rc
  | ok | error | perm | busy | nomem | interrupt | notfound | empty | constraint | misuse | invalid
  | exist
  deriving DecidableEq, Repr

/-- `#define majority(X)  X / 2 + 1`. -/
def majority (x : ℕ) : ℕ := x / 2 + 1

/-- `isspace`: a blank, or one of the characters from tab to carriage return. -/
def isSpace (c : Char) : Bool :=
  c == ' ' || ('\t'.toNat ≤ c.toNat && c.toNat ≤ '\r'.toNat)

/-- What the core uses of the hash and of the curve library. -/
structure Crypto where
  sha256 : Text → Bytes
  /-- `secp256k1_ec_pubkey_parse` succeeds. -/
  ecPubkeyParse : Bytes → Bool
  /-- `secp256k1_ecdsa_signature_parse_compact` succeeds. -/
  signatureParseCompact : Bytes → Bool
  /-- `secp256k1_ecdsa_verify` of a signature, a hash and a public key. -/
  ecdsaVerify : Bytes → Bytes → Bytes → Bool

namespace Core

/-- `ADDRESS_LENGTH`. -/
def addressLength : ℕ := 52

/-- `sqlite3_malloc`: a size that is not positive or at least `0x7fffff00` is refused, and any
other if there is no memory. -/
def sqlite3Malloc (available : ℕ → Bool) (size : BitVec 32) : Bool :=
  decide (0 < size.toInt) && decide (size.toInt < 0x7fffff00) && available size.toNat

/-- `aergolite_verify_raw`, called with a public key. -/
def aergoliteVerifyRaw (c : Crypto) (hash pubkey signature : Bytes) : Rc :=
  if !c.ecPubkeyParse pubkey then .error
  else if signature.length ≠ 64 then .invalid
  else if !c.signatureParseCompact signature then .invalid
  else if !c.ecdsaVerify signature hash pubkey then .invalid
  else .ok

/-- `aergolite_verify`, called with a public key: the signature is on the hash
of the message. -/
def aergoliteVerify (c : Crypto) (msg : Text) (pubkey signature : Bytes) : Rc :=
  aergoliteVerifyRaw c (c.sha256 msg) pubkey signature

/-- An accepted signature has the compact format, and the curve library verifies
it under the key. -/
theorem aergoliteVerifyRaw_eq_ok {c : Crypto} {hash pubkey signature : Bytes} :
    aergoliteVerifyRaw c hash pubkey signature = .ok ↔
      c.ecPubkeyParse pubkey = true ∧ signature.length = 64 ∧
        c.signatureParseCompact signature = true ∧ c.ecdsaVerify signature hash pubkey = true := by
  unfold aergoliteVerifyRaw
  split_ifs <;> simp_all

end Core

/-- A signature that spells out the first 32 bytes of the key and the hash. -/
def plainSign (pubkey hash : Bytes) : Bytes :=
  (pubkey.take 32 ++ hash ++ List.replicate 64 0).take 64

/-- A `Crypto` to evaluate the definitions with: the hash of a text is its
characters and `plainSign` makes the signatures. -/
def plainCrypto : Crypto where
  sha256 msg := msg.map fun c => c.toNat.toUInt8
  ecPubkeyParse pubkey := !pubkey.isEmpty
  signatureParseCompact _ := true
  ecdsaVerify signature hash pubkey := signature == plainSign pubkey hash

end AergoLite
