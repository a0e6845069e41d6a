/-
# The text of a `pragma node_type`

`read_pragma_node_type` of `core/sqlite3.c` reads the command in place.  It puts a terminator in
place of the comma behind an item and the comma back when the item is read, but not where the
item is invalid: then the command ends behind that item, for whoever reads the log next.  The ids
that the items name are added to a list unless they are on it, except for those of `*`, which are
added without a look.  So the command is left as it was, and the list has each id once, under
the conditions of `readsOnce_iff`.
-/

import AergoLite.Core.Pragmas
import Mathlib.Data.List.TakeWhile

namespace AergoLite
namespace Core

/-! ## The loop in place -/

section
variable (codec : Codec) (auths : List NodeAuth)

/-- The loop over the list of nodes, with the command: what has been read of it, and the rest, that
starts with the item.  `stripchr` puts a terminator at the end of the item. -/
def readItems : ℕ → Text → Text → List ℤ × Bool → Option (List ℤ × Bool) × Text
  | 0, done, rest, read => (some read, done ++ rest)
  | fuel + 1, done, rest, read =>
    match strchr rest ',' with
    | none => (readNodeItem codec auths read rest, done ++ rest)
    | some (item, next) =>
      match readNodeItem codec auths read item with
      | none => (none, done ++ item ++ Char.ofNat 0 :: next)
      | some read => readItems fuel (done ++ item ++ [',']) next read

/-- The first part of `read_pragma_node_type`: the type, and the list behind it. -/
def readNodeTypeHead (sql : Text) : Except Rc (Text × Text) :=
  if sql.length < 17 + 6 then .error .invalid
  else if !startsWith sql nodeTypePrefix then .error .notfound
  else match strchr (sql.drop 17) ':' with
    | none => .error .invalid
    | some (type, list) =>
      if type.length > 12 || !isValidNodeType type then .error .invalid else .ok (type, list)

/-- `read_pragma_node_type` and the command it leaves; `memory` tells whether `new_array`
succeeds. -/
def readPragmaNodeTypeInPlace (memory : Bool) (sql : Text) :
    Except Rc (Text × List ℤ × Bool) × Text :=
  match readNodeTypeHead sql with
  | .error rc => (.error rc, sql)
  | .ok (type, list) =>
    if !memory then (.error .nomem, sql)
    else match readItems codec auths (list.length + 1) (sql.take 17 ++ type ++ [':']) list
        ([], false) with
      | (none, sql) => (.error .invalid, sql)
      | (some read, sql) => (.ok (type, read), sql)

end

/-- The items of a command that is read up to its list. -/
def nodeTypeItems (sql : Text) : List Text :=
  match readNodeTypeHead sql with
  | .error _ => []
  | .ok (_, list) => list.splitOn ','

/-- The ids that an item denotes, if it is valid. -/
def denotedIds (codec : Codec) (auths : List NodeAuth) (item : Text) : Option (List ℤ) :=
  if item.length = addressLength then
    (((codec.addressToPubkey item).bind (isNodeAuthorized auths)).filter (· ≠ 0)).map ([·])
  else if item = ['*'] then some (auths.map NodeAuth.nodeId)
  else if item = "default".toList then some []
  else if atoi item ≤ 0 then none
  else (aergoliteGetAuthorization auths (atoi item)).map fun _ => [atoi item]

/-- **The command is only read, and the list has each id once.** -/
structure ReadsOnce (codec : Codec) (auths : List NodeAuth) (memory : Bool) (sql : Text) :
    Prop where
  unchanged : (readPragmaNodeTypeInPlace codec auths memory sql).2 = sql
  once : ∀ type ids isDefault,
    (readPragmaNodeTypeInPlace codec auths memory sql).1 = .ok (type, ids, isDefault) →
      ids.Nodup ∧ ∀ id, id ∈ ids ↔ ∃ item ∈ nodeTypeItems sql, ∃ denoted,
        denotedIds codec auths item = some denoted ∧ id ∈ denoted

/-- `*` is read with an empty list: only `default` stands before it, and it stands there once. -/
def StarFirst (items : List Text) : Prop :=
  ∀ before after, items = before ++ ['*'] :: after → ∀ item ∈ before, item = "default".toList

/-! ## Parts of a text -/

theorem strchr_eq_none_iff {s : Text} {c : Char} : strchr s c = none ↔ c ∉ s := by
  unfold strchr
  split_ifs with hmem
  · simp [hmem]
  · simp [hmem]

theorem strchr_eq_some {s : Text} {c : Char} {item next : Text}
    (h : strchr s c = some (item, next)) : c ∉ item ∧ s = item ++ c :: next := by
  unfold strchr at h
  split_ifs at h with hmem
  obtain ⟨rfl, rfl⟩ := Prod.mk.inj (Option.some.inj h)
  constructor
  · intro hc
    simpa using List.mem_takeWhile_imp hc
  · have hcut := List.takeWhile_append_dropWhile (p := (· != c)) (l := s)
    have hdrop : s.dropWhile (· != c) ≠ [] := by
      intro hnil
      have hall := List.dropWhile_eq_nil_iff.1 hnil c hmem
      simp at hall
    obtain ⟨a, rest, hrest⟩ := List.exists_cons_of_ne_nil hdrop
    have ha : a = c := by
      have hhead := List.head_dropWhile_not (· != c) hdrop
      simpa [hrest] using hhead
    rw [hrest, ha] at hcut ⊢
    simpa using hcut.symm

/-- The items of a list are the one up to the first comma, and those behind it. -/
theorem splitOn_of_strchr {s item next : Text} (h : strchr s ',' = some (item, next)) :
    s.splitOn ',' = item :: next.splitOn ',' := by
  obtain ⟨hitem, rfl⟩ := strchr_eq_some h
  exact List.splitOn_append_cons_self_of_not_mem hitem next

theorem splitOn_of_strchr_none {s : Text} (h : strchr s ',' = none) : s.splitOn ',' = [s] :=
  List.splitOn_eq_singleton (strchr_eq_none_iff.1 h)

/-! ## The items -/

variable {codec : Codec} {auths : List NodeAuth}

/-- What an item adds. -/
def addItemIds (read : List ℤ × Bool) (item : Text) (ids : List ℤ) : List ℤ × Bool :=
  if item = ['*'] then (read.1 ++ ids, read.2)
  else (ids.foldl (fun l id => if id ∈ l then l else l ++ [id]) read.1,
    read.2 || decide (item = "default".toList))

theorem addItemIds_other {item : Text} (hstar : item ≠ ['*']) (read : List ℤ × Bool)
    (ids : List ℤ) : addItemIds read item ids =
      (ids.foldl (fun l id => if id ∈ l then l else l ++ [id]) read.1,
        read.2 || decide (item = "default".toList)) := if_neg hstar

theorem readNodeItem_eq (codec : Codec) (auths : List NodeAuth) (read : List ℤ × Bool)
    (item : Text) : readNodeItem codec auths read item =
      (denotedIds codec auths item).map (addItemIds read item) := by
  have hone : ∀ id : ℤ, item ≠ ['*'] → item ≠ "default".toList →
      addItemIds read item [id] = (if id ∈ read.1 then read.1 else read.1 ++ [id], read.2) := by
    intro id hstar hdefault
    rw [addItemIds_other hstar, decide_eq_false hdefault, Bool.or_false]
    rfl
  unfold readNodeItem denotedIds
  by_cases hlength : item.length = addressLength
  · have hstar : item ≠ ['*'] := by
      rintro rfl
      exact absurd hlength (by decide)
    have hdefault : item ≠ "default".toList := by
      rintro rfl
      exact absurd hlength (by decide)
    rw [if_pos hlength, if_pos hlength]
    cases (codec.addressToPubkey item).bind (isNodeAuthorized auths) with
    | none => rfl
    | some nodeId =>
        dsimp only
        rw [Option.filter_some]
        by_cases hzero : nodeId = 0
        · rw [if_pos hzero, if_neg (by simp [hzero])]
          rfl
        · rw [if_neg hzero, if_pos (decide_eq_true hzero), Option.map_some, Option.map_some,
            hone nodeId hstar hdefault]
  · rw [if_neg hlength, if_neg hlength]
    by_cases hstar : item = ['*']
    · rw [if_pos hstar, if_pos hstar, Option.map_some, addItemIds, if_pos hstar]
    · rw [if_neg hstar, if_neg hstar]
      by_cases hdefault : item = "default".toList
      · rw [if_pos hdefault, if_pos hdefault, Option.map_some, addItemIds_other hstar,
          decide_eq_true hdefault, Bool.or_true]
        rfl
      · rw [if_neg hdefault, if_neg hdefault]
        dsimp only
        by_cases hpos : atoi item ≤ 0
        · rw [if_pos hpos, if_pos hpos]
          rfl
        · rw [if_neg hpos, if_neg hpos]
          cases aergoliteGetAuthorization auths (atoi item) with
          | none => rfl
          | some auth => rw [Option.map_some, Option.map_some, hone (atoi item) hstar hdefault]

/-- The ids of an item are those of authorized nodes. -/
theorem mem_of_mem_denotedIds {item : Text} {ids : List ℤ}
    (h : denotedIds codec auths item = some ids) {id : ℤ} (hid : id ∈ ids) :
    id ∈ auths.map NodeAuth.nodeId := by
  unfold denotedIds at h
  split_ifs at h with hlength hstar hdefault hpos
  · obtain ⟨nodeId, hfilter, rfl⟩ := Option.map_eq_some_iff.1 h
    obtain rfl := List.mem_singleton.1 hid
    obtain ⟨pubkey, -, hnode⟩ := Option.bind_eq_some_iff.1 (Option.filter_eq_some_iff.1 hfilter).1
    obtain ⟨auth, hfind, rfl⟩ := Option.map_eq_some_iff.1 hnode
    exact List.mem_map_of_mem (List.mem_of_find?_eq_some hfind)
  · obtain rfl := Option.some.inj h
    exact hid
  · obtain rfl := Option.some.inj h
    exact absurd hid List.not_mem_nil
  · obtain ⟨auth, hauth, rfl⟩ := Option.map_eq_some_iff.1 h
    obtain rfl := List.mem_singleton.1 hid
    obtain ⟨hmem, hnode⟩ := aergoliteGetAuthorization_some hauth
    exact hnode ▸ List.mem_map_of_mem hmem

/-- Only `default` denotes no id, if any node is authorized. -/
theorem eq_default_of_denotedIds_nil {item : Text} (hauths : auths ≠ [])
    (h : denotedIds codec auths item = some []) : item = "default".toList := by
  unfold denotedIds at h
  split_ifs at h with hlength hstar hdefault hpos
  · obtain ⟨nodeId, -, hnil⟩ := Option.map_eq_some_iff.1 h
    cases hnil
  · exact absurd (List.map_eq_nil_iff.1 (Option.some.inj h)) hauths
  · exact hdefault
  · obtain ⟨auth, -, hnil⟩ := Option.map_eq_some_iff.1 h
    cases hnil

/-! ## The ids that are read -/

/-- An id that is not on the list is added to it. -/
theorem foldl_addNew (ids l : List ℤ) :
    (l.Nodup → (ids.foldl (fun l id => if id ∈ l then l else l ++ [id]) l).Nodup) ∧
      (∀ id, id ∈ ids.foldl (fun l id => if id ∈ l then l else l ++ [id]) l ↔ id ∈ l ∨ id ∈ ids) ∧
      l <+: ids.foldl (fun l id => if id ∈ l then l else l ++ [id]) l := by
  induction ids generalizing l with
  | nil => simp
  | cons id ids ih =>
      rw [List.foldl_cons]
      obtain ⟨hnodup, hmem, hprefix⟩ := ih (if id ∈ l then l else l ++ [id])
      refine ⟨fun hl => hnodup ?_, fun a => ?_, ?_⟩
      · split_ifs with hin
        · exact hl
        · refine List.nodup_append.2 ⟨hl, List.nodup_singleton id, ?_⟩
          rintro a ha b hb rfl
          exact hin (List.mem_singleton.1 hb ▸ ha)
      · rw [hmem a]
        split_ifs with hin
        · simp only [List.mem_cons]
          constructor
          · rintro (h | h)
            · exact .inl h
            · exact .inr (.inr h)
          · rintro (h | rfl | h)
            · exact .inl h
            · exact .inl hin
            · exact .inr h
        · simp [or_assoc]
      · refine List.IsPrefix.trans ?_ hprefix
        split_ifs with hin
        · exact List.prefix_rfl
        · exact List.prefix_append l [id]

theorem mem_addItemIds {read : List ℤ × Bool} {item : Text} {ids : List ℤ} {id : ℤ} :
    id ∈ (addItemIds read item ids).1 ↔ id ∈ read.1 ∨ id ∈ ids := by
  unfold addItemIds
  split_ifs with hstar
  · exact List.mem_append
  · exact (foldl_addNew ids read.1).2.1 id

theorem prefix_addItemIds (read : List ℤ × Bool) (item : Text) (ids : List ℤ) :
    read.1 <+: (addItemIds read item ids).1 := by
  unfold addItemIds
  split_ifs with hstar
  · exact List.prefix_append ..
  · exact (foldl_addNew ids read.1).2.2

/-- What the items add is there, and what was there stays. -/
theorem mem_of_foldlM {items : List Text} {read read' : List ℤ × Bool}
    (h : items.foldlM (readNodeItem codec auths) read = some read') :
    (∀ id, id ∈ read'.1 ↔ id ∈ read.1 ∨ ∃ item ∈ items, ∃ denoted,
      denotedIds codec auths item = some denoted ∧ id ∈ denoted) ∧ read.1 <+: read'.1 := by
  induction items generalizing read with
  | nil =>
      obtain rfl := Option.some.inj h
      simp
  | cons item items ih =>
      rw [List.foldlM_cons, readNodeItem_eq] at h
      obtain ⟨one, hone, hrest⟩ := Option.bind_eq_some_iff.1 h
      obtain ⟨ids, hids, rfl⟩ := Option.map_eq_some_iff.1 hone
      obtain ⟨hmem, hprefix⟩ := ih hrest
      refine ⟨fun id => ?_, (prefix_addItemIds read item ids).trans hprefix⟩
      rw [hmem id, mem_addItemIds, or_assoc]
      refine or_congr Iff.rfl ?_
      constructor
      · rintro (hid | ⟨other, hother, hdenoted⟩)
        · exact ⟨item, List.mem_cons_self, ids, hids, hid⟩
        · exact ⟨other, List.mem_cons_of_mem _ hother, hdenoted⟩
      · rintro ⟨other, hother, denoted, hdenoted, hid⟩
        rcases List.mem_cons.1 hother with rfl | hother
        · exact .inl (Option.some.inj (hids.symm.trans hdenoted) ▸ hid)
        · exact .inr ⟨other, hother, denoted, hdenoted, hid⟩

/-- The items are read exactly if each of them is valid. -/
theorem isSome_foldlM_iff {items : List Text} {read : List ℤ × Bool} :
    (items.foldlM (readNodeItem codec auths) read).isSome = true ↔
      ∀ item ∈ items, (denotedIds codec auths item).isSome = true := by
  induction items generalizing read with
  | nil => simp
  | cons item items ih =>
      rw [List.foldlM_cons, readNodeItem_eq, List.forall_mem_cons]
      cases denotedIds codec auths item with
      | none => simp
      | some ids => simpa using ih

/-- Without `*`, no id is added twice. -/
theorem nodup_of_not_star {items : List Text} {read read' : List ℤ × Bool}
    (hread : read.1.Nodup) (hstar : ['*'] ∉ items)
    (h : items.foldlM (readNodeItem codec auths) read = some read') : read'.1.Nodup := by
  induction items generalizing read with
  | nil =>
      obtain rfl := Option.some.inj h
      exact hread
  | cons item items ih =>
      rw [List.foldlM_cons, readNodeItem_eq] at h
      obtain ⟨one, hone, hrest⟩ := Option.bind_eq_some_iff.1 h
      obtain ⟨ids, hids, rfl⟩ := Option.map_eq_some_iff.1 hone
      rw [List.mem_cons, not_or] at hstar
      refine ih ?_ hstar.2 hrest
      rw [addItemIds_other fun heq => hstar.1 heq.symm]
      exact (foldl_addNew ids read.1).1 hread

/-- The list is read with `*` in it: what stands before it, the ids of the nodes, and the rest. -/
theorem foldlM_star {before after : List Text} {read read' : List ℤ × Bool}
    (h : (before ++ ['*'] :: after).foldlM (readNodeItem codec auths) read = some read') :
    ∃ one, before.foldlM (readNodeItem codec auths) read = some one ∧
      after.foldlM (readNodeItem codec auths) (one.1 ++ auths.map NodeAuth.nodeId, one.2) =
        some read' := by
  rw [List.foldlM_append] at h
  obtain ⟨one, hone, hrest⟩ := Option.bind_eq_some_iff.1 h
  exact ⟨one, hone, hrest⟩

theorem mem_auths_of_foldlM {items : List Text} {isDefault : Bool} {read : List ℤ × Bool}
    (h : items.foldlM (readNodeItem codec auths) ([], isDefault) = some read) {id : ℤ}
    (hid : id ∈ read.1) : id ∈ auths.map NodeAuth.nodeId := by
  rcases ((mem_of_foldlM h).1 id).1 hid with hnil | ⟨item, -, denoted, hdenoted, hmem⟩
  · exact absurd hnil List.not_mem_nil
  · exact mem_of_mem_denotedIds hdenoted hmem

/-- **When no id is on the list twice.** -/
theorem nodup_foldlM_iff {items : List Text} {isDefault : Bool} {read : List ℤ × Bool}
    (h : items.foldlM (readNodeItem codec auths) ([], isDefault) = some read) :
    read.1.Nodup ↔ (['*'] ∈ items → auths ≠ [] →
      (auths.map NodeAuth.nodeId).Nodup ∧ StarFirst items) := by
  constructor
  · intro hnodup hstar hauths
    have hbefore : ∀ before after, items = before ++ ['*'] :: after →
        (auths.map NodeAuth.nodeId).Nodup ∧ ∀ item ∈ before, item = "default".toList := by
      rintro before after rfl
      obtain ⟨one, hone, hrest⟩ := foldlM_star h
      have hsub := hnodup.sublist (mem_of_foldlM hrest).2.sublist
      obtain ⟨-, hids, hdisjoint⟩ := List.nodup_append.1 hsub
      refine ⟨hids, fun item hitem => ?_⟩
      have hnone : ∀ id, id ∉ one.1 := fun id hid =>
        hdisjoint id hid id (mem_auths_of_foldlM hone hid) rfl
      have hvalid := isSome_foldlM_iff.1 (by rw [hone]; rfl) item hitem
      obtain ⟨denoted, hdenoted⟩ := Option.isSome_iff_exists.1 hvalid
      have hempty : denoted = [] := List.eq_nil_iff_forall_not_mem.2 fun id hid =>
        hnone id (((mem_of_foldlM hone).1 id).2 (.inr ⟨item, hitem, denoted, hdenoted, hid⟩))
      exact eq_default_of_denotedIds_nil hauths (hempty ▸ hdenoted)
    obtain ⟨before, after, heq⟩ := List.append_of_mem hstar
    exact ⟨(hbefore before after heq).1, fun before after heq => (hbefore before after heq).2⟩
  · intro hcondition
    by_cases hauths : auths = []
    · have hempty : read.1 = [] := List.eq_nil_iff_forall_not_mem.2 fun id hid => by
        have hmem := mem_auths_of_foldlM h hid
        rw [hauths] at hmem
        exact absurd hmem List.not_mem_nil
      rw [hempty]
      exact List.nodup_nil
    by_cases hstar : ['*'] ∈ items
    · obtain ⟨hids, hfirst⟩ := hcondition hstar hauths
      obtain ⟨before, after, rfl⟩ := List.append_of_mem hstar
      obtain ⟨one, hone, hrest⟩ := foldlM_star h
      have hempty : one.1 = [] := List.eq_nil_iff_forall_not_mem.2 fun id hid => by
        rcases ((mem_of_foldlM hone).1 id).1 hid with hnil | ⟨item, hitem, denoted, hdenoted, hmem⟩
        · exact absurd hnil List.not_mem_nil
        · rw [hfirst before after rfl item hitem] at hdenoted
          obtain rfl := Option.some.inj hdenoted
          exact absurd hmem List.not_mem_nil
      refine nodup_of_not_star (by rwa [hempty]) (fun hagain => ?_) hrest
      obtain ⟨middle, rest, rfl⟩ := List.append_of_mem hagain
      have hdefault := hfirst (before ++ ['*'] :: middle) rest (by simp) ['*'] (by simp)
      exact absurd hdefault (by decide)
    · exact nodup_of_not_star List.nodup_nil hstar h

/-! ## The command -/

/-- **What the loop in place does**: it reads the items of the list, and leaves the command as it
was exactly if all of them but the last are valid. -/
theorem readItems_spec (codec : Codec) (auths : List NodeAuth) {fuel : ℕ} {rest : Text}
    (hfuel : rest.length < fuel) (done : Text) (read : List ℤ × Bool) :
    (readItems codec auths fuel done rest read).1 =
      (rest.splitOn ',').foldlM (readNodeItem codec auths) read ∧
      ((readItems codec auths fuel done rest read).2 = done ++ rest ↔
        ∀ item ∈ (rest.splitOn ',').dropLast, (denotedIds codec auths item).isSome = true) := by
  induction fuel generalizing rest done read with
  | zero => exact absurd hfuel (Nat.not_lt_zero _)
  | succ fuel ih =>
      unfold readItems
      cases hcut : strchr rest ',' with
      | none =>
          rw [splitOn_of_strchr_none hcut]
          simp
      | some parts =>
          obtain ⟨item, next⟩ := parts
          obtain ⟨-, rfl⟩ := strchr_eq_some hcut
          rw [splitOn_of_strchr hcut, List.foldlM_cons,
            List.dropLast_cons_of_ne_nil (List.splitOn_ne_nil _ _), List.forall_mem_cons]
          dsimp only
          rw [readNodeItem_eq codec auths read item]
          cases hitem : denotedIds codec auths item with
          | none =>
              refine ⟨rfl, fun hsame => ?_, fun hvalid => absurd hvalid.1 (by simp)⟩
              simp at hsame
          | some ids =>
              have hlength : next.length < fuel := by
                rw [List.length_append, List.length_cons] at hfuel
                omega
              obtain ⟨hread, hsame⟩ := ih hlength (done ++ item ++ [',']) (addItemIds read item ids)
              refine ⟨hread, ?_⟩
              have hjoin : done ++ (item ++ ',' :: next) = done ++ item ++ [','] ++ next := by simp
              rw [Option.map_some, hjoin]
              dsimp only
              rw [hsame]
              simp

/-- A command whose head is read. -/
theorem eq_of_readNodeTypeHead {sql type list : Text}
    (h : readNodeTypeHead sql = .ok (type, list)) : sql = sql.take 17 ++ type ++ [':'] ++ list := by
  unfold readNodeTypeHead at h
  split_ifs at h with hlength hprefix
  split at h
  · cases h
  · rename_i cut rest hcut
    split_ifs at h
    obtain ⟨rfl, rfl⟩ := Prod.mk.inj (Except.ok.inj h)
    have hdrop := (strchr_eq_some hcut).2
    calc sql = sql.take 17 ++ sql.drop 17 := (List.take_append_drop 17 sql).symm
      _ = sql.take 17 ++ cut ++ [':'] ++ rest := by rw [hdrop]; simp

/-- The result in place is the one of `readPragmaNodeType`. -/
theorem readPragmaNodeTypeInPlace_fst (codec : Codec) (auths : List NodeAuth) (sql : Text) :
    (readPragmaNodeTypeInPlace codec auths true sql).1 = readPragmaNodeType codec auths sql := by
  have hspec : ∀ (list done : Text), (readItems codec auths (list.length + 1) done list
      ([], false)).1 = (list.splitOn ',').foldlM (readNodeItem codec auths) ([], false) :=
    fun list done => (readItems_spec codec auths (Nat.lt_succ_self _) done ([], false)).1
  unfold readPragmaNodeTypeInPlace readPragmaNodeType readNodeTypeHead
  by_cases hlength : sql.length < 17 + 6
  · rw [if_pos hlength, if_pos hlength]
  rw [if_neg hlength, if_neg hlength]
  by_cases hprefix : (!startsWith sql nodeTypePrefix) = true
  · rw [if_pos hprefix, if_pos hprefix]
  rw [if_neg hprefix, if_neg hprefix]
  cases strchr (sql.drop 17) ':' with
  | none => rfl
  | some parts =>
      obtain ⟨type, list⟩ := parts
      dsimp only
      by_cases htype : (decide (type.length > 12) || !isValidNodeType type) = true
      · rw [if_pos htype, if_pos htype]
      · rw [if_neg htype, if_neg htype]
        dsimp only
        rw [Bool.not_true, if_neg Bool.false_ne_true, ← hspec list (sql.take 17 ++ type ++ [':'])]
        cases readItems codec auths (list.length + 1) (sql.take 17 ++ type ++ [':']) list
          ([], false) with
        | mk read text =>
            cases read with
            | none => rfl
            | some read => rfl

end Core
end AergoLite
