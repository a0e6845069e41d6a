/-
# Special commands

The commands of a special transaction are pragmas, read by
`read_node_authorization` and `read_pragma_node_type` of `core/sqlite3.c`:

| command | effect |
| --- | --- |
| `pragma add_node=[type:]address` | a row in `aergolite_nodes` |
| `pragma node_type=type:node,…` | the type of the rows of the nodes |
| `pragma anchoring=…` | a row in `aergolite_config` |

A node is named by its address, by its id, or with `*` for all; addresses and ids
are looked up in the authorization list *in memory*, and `*` stands for that
list, which holds authorizations that no block has recorded yet.
-/

import AergoLite.Core.Databases
import Mathlib.Data.List.Defs

namespace AergoLite
namespace Core

/-- `strncmp(sql, pre, strlen(pre))==0`. -/
def startsWith (sql pre : Text) : Bool := pre.isPrefixOf sql

/-- The beginnings of the three special commands. -/
def addNodePrefix : Text := "pragma add_node=".toList
def nodeTypePrefix : Text := "pragma node_type=".toList
def anchoringPrefix : Text := "pragma anchoring=".toList

/-- `is_valid_node_type`. -/
def isValidNodeType (type : Text) : Bool := type == "full".toList || type == "light".toList

/-- `strchr(arg, c)`: the parts before and after the first `c`, if there is one. -/
def strchr (arg : Text) (c : Char) : Option (Text × Text) :=
  if c ∈ arg then some (arg.takeWhile (· != c), (arg.dropWhile (· != c)).drop 1) else none

/-- `atoi`, without overflow. -/
def atoi (s : Text) : ℤ :=
  let digits (t : Text) : ℤ :=
    (t.takeWhile Char.isDigit).foldl (fun n c => 10 * n + (c.toNat - '0'.toNat : ℕ)) 0
  match s.dropWhile isSpace with
  | '-' :: t => -digits t
  | '+' :: t => digits t
  | t => digits t

/-- `read_node_authorization`: the key and the type of a `pragma add_node`, or
`SQLITE_NOTFOUND` for another command. -/
def readNodeAuthorization (codec : Codec) (sql : Text) : Except Rc (Bytes × Text) :=
  if sql.length < 16 + addressLength then .error .invalid
  else if !startsWith sql addNodePrefix then .error .notfound
  else
    let arg := sql.drop 16
    let (type, pubkeystr) := (strchr arg ':').getD ("light".toList, arg)
    if type.length > 12 || !isValidNodeType type then .error .invalid
    else if pubkeystr.length ≠ addressLength then .error .invalid
    else match codec.addressToPubkey pubkeystr with
      | none => .error .invalid
      | some pubkey => .ok (pubkey, type)

/-- `is_node_authorized`: the id of the node with a key, if the key is in the
list. -/
def isNodeAuthorized (auths : List NodeAuth) (pubkey : Bytes) : Option ℤ :=
  (auths.find? fun auth => auth.pk == pubkey).map NodeAuth.nodeId

/-- One item of the list of a `pragma node_type`, added to the ids and the
`default` flag read so far. -/
def readNodeItem (codec : Codec) (auths : List NodeAuth) (read : List ℤ × Bool) (item : Text) :
    Option (List ℤ × Bool) :=
  let add (nodeId : ℤ) := (if nodeId ∈ read.1 then read.1 else read.1 ++ [nodeId], read.2)
  if item.length = addressLength then
    match (codec.addressToPubkey item).bind (isNodeAuthorized auths) with
    | none => none
    | some nodeId => if nodeId = 0 then none else some (add nodeId)
  else if item = ['*'] then some (read.1 ++ auths.map NodeAuth.nodeId, read.2)
  else if item = "default".toList then some (read.1, true)
  else
    let nodeId := atoi item
    if nodeId ≤ 0 then none
    else match aergoliteGetAuthorization auths nodeId with
      | none => none
      | some _ => some (add nodeId)

/-- `read_pragma_node_type`: the type, the ids of the nodes and the `default`
flag. -/
def readPragmaNodeType (codec : Codec) (auths : List NodeAuth) (sql : Text) :
    Except Rc (Text × List ℤ × Bool) :=
  if sql.length < 17 + 6 then .error .invalid
  else if !startsWith sql nodeTypePrefix then .error .notfound
  else match strchr (sql.drop 17) ':' with
    | none => .error .invalid
    | some (type, list) =>
      if type.length > 12 || !isValidNodeType type then .error .invalid
      else match (list.splitOn ',').foldlM (readNodeItem codec auths) ([], false) with
        | none => .error .invalid
        | some read => .ok (type, read)

/-- `read_authorized_pubkey`: the key and the type of the first command of a log. -/
def readAuthorizedPubkey (codec : Codec) (log : Log) : Except Rc (Bytes × Text) :=
  match getTransactionItem BinnValue.string? log with
  | none => .error .invalid
  | some sql => readNodeAuthorization codec sql

/-- `aergolite_verify_authorization`: a special transaction is signed with the key of
the blockchain admin.  The result is `none` where the C code appends a null
pointer to the signed text. -/
def aergoliteVerifyAuthorization (c : Crypto) (adminPubkey : Bytes) (log : Log) : Option Rc :=
  if !isSpecialTransaction log then some .invalid
  else match txnSig log with
    | some ⟨true, signature, some pubkey⟩ =>
        if pubkey.length ≠ 33 ∨ adminPubkey.take 33 ≠ pubkey then some .invalid
        else (serializeTransactionToString log).map fun data => aergoliteVerify c data pubkey signature
    | _ => some .invalid

/-- `aergolite_new_authorization`: the list with an entry for the node, and the entry.
It is in no block yet. -/
def aergoliteNewAuthorization (c : Crypto) (codec : Codec) (adminPubkey : Bytes)
    (auths : List NodeAuth) (log : Log) : Option (Except Rc (List NodeAuth × NodeAuth)) :=
  match readAuthorizedPubkey codec log with
  | .error rc => some (.error rc)
  | .ok (pubkey, type) =>
    if auths.any fun auth => auth.pk == pubkey then some (.error .exist)
    else (aergoliteVerifyAuthorization c adminPubkey log).map fun rc =>
      if rc ≠ .ok then .error rc
      else
        let auth : NodeAuth :=
          ⟨pubkey, codec.generateNodeIdFromPubkey pubkey, type == "full".toList, 0, 0, 0⟩
        .ok (auths ++ [auth], auth)

/-- A command that is no `pragma add_node` is not read as one. -/
theorem readNodeAuthorization_of_not_prefix (codec : Codec) {sql : Text}
    (h : startsWith sql addNodePrefix = false) :
    ∃ rc, rc ≠ .ok ∧ readNodeAuthorization codec sql = .error rc := by
  simp only [readNodeAuthorization, h, Bool.not_false, ite_true]
  split_ifs
  · exact ⟨.invalid, by decide, rfl⟩
  · exact ⟨.notfound, by decide, rfl⟩

/-- A command that is no `pragma node_type` is not read as one, whatever the
list. -/
theorem readPragmaNodeType_of_not_prefix (codec : Codec) {sql : Text}
    (h : startsWith sql nodeTypePrefix = false) :
    ∃ rc, rc ≠ .ok ∧ ∀ auths, readPragmaNodeType codec auths sql = .error rc := by
  simp only [readPragmaNodeType, h, Bool.not_false, ite_true]
  split_ifs
  · exact ⟨.invalid, by decide, fun _ => rfl⟩
  · exact ⟨.notfound, by decide, fun _ => rfl⟩

end Core
end AergoLite
