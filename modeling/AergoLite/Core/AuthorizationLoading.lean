/-
# What a load leaves in memory

`load_authorizations` (`core/sqlite3.c`) collects what the admin has signed from two places: the
special transactions on `wal-local`, and the rows of `aergolite_nodes`.  The first loop is
`aergoliteIterateWal` with `load_authorizations_cb1`, and the second is that of
`Core.AuthorizationRefresh`, whose results assume that every special transaction is a valid
authorization and that nodes have distinct ids.  Here both are arbitrary.

Three things keep an authorization, or what its row says, out of memory (`loadsAll_iff`):

* only `SQLITE_EXISTS` is turned into `SQLITE_OK`, so a special transaction that is another
  command, or that is not signed by the admin, stops the first loop, and the second is not run;
* the iteration passes over the log that follows one of several frames (`Core.WalLog`);
* a row updates the first entry with its id, which may be that of another key.
-/

import AergoLite.Core.AuthorizationRuns
import AergoLite.Core.WalLog

namespace AergoLite
namespace Core

open Refresh

variable {D : Type}

/-! ## The function -/

section
variable (env : Env D) (r : BinnReader) (f : PageFormat) (decode : Bytes → Log)

/-- `load_authorizations_cb1`, called with the bytes of a log.  Nothing is left of the node once
the process has crashed. -/
def loadAuthorizationsCallback : LogCallback (Option (Aergolite D)) := fun _ log s =>
  match s.bind fun a => loadAuthorizationsCb1 env a (decode log) with
  | some (rc, a) => (rc, some a)
  | none => (.error, none)

/-- `load_authorizations`, of the frames of `wal-local`. -/
def loadAuthorizationsFromWal (wal : List Frame) (column : ℤ → Log) (a : Aergolite D) :
    Option (Aergolite D) :=
  let (rc, s) := aergoliteIterateWal r f wal (loadAuthorizationsCallback env decode) true (some a)
  s.bind fun a =>
    if rc ≠ .ok ∧ rc ≠ .empty then some a else reloadAuthorizations env column a

/-- The transactions on `wal-local`. -/
def localTxns (items : List WalItem) : List Log := (txnsAt f 1 items).map fun txn => decode txn.2

/-- The transactions that the iteration delivers. -/
def deliveredTxns (items : List WalItem) : List Log :=
  (delivered f false 1 items).map fun txn => decode txn.2

end

variable {env : Env D} {a b c : Aergolite D} {log : Log} {logs : List Log}

theorem callAll_loadAuthorizations {decode : Bytes → Log} (txns : List (ℕ × Bytes)) :
    callAll (loadAuthorizationsCallback env decode) txns (some a) =
      match iterateLocalTxns env a (txns.map fun txn => decode txn.2) with
      | some (rc, b) => (rc, some b)
      | none => (.error, none) := by
  induction txns generalizing a with
  | nil => rfl
  | cons txn txns ih =>
      rw [callAll_cons, List.map_cons, iterateLocalTxns, loadAuthorizationsCallback,
        Option.bind_some]
      cases hcb : loadAuthorizationsCb1 env a (decode txn.2) with
      | none => rfl
      | some r =>
          obtain ⟨rc, b⟩ := r
          dsimp only [Option.bind_eq_bind, Option.bind_some]
          by_cases hrc : rc = .ok
          · rw [if_neg (not_not.2 hrc), if_neg (not_not.2 hrc), ih]
          · rw [if_pos hrc, if_pos hrc]

/-- The function on the frames is the one on the transactions that are delivered. -/
theorem loadAuthorizationsFromWal_eq {r : BinnReader} {f : PageFormat} {decode : Bytes → Log}
    {items : List WalItem} (hitems : ∀ item ∈ items, item.Valid r) (column : ℤ → Log) :
    loadAuthorizationsFromWal env r f decode (framesOf f items) column a =
      loadAuthorizations env (deliveredTxns f decode items) column a := by
  unfold loadAuthorizationsFromWal loadAuthorizations deliveredTxns
  have hforward := aergoliteIterateWal_forward (f := f) (loadAuthorizationsCallback env decode)
    hitems (some a)
  dsimp only at hforward ⊢
  rcases hforward with ⟨hempty, hsame, hnone⟩ | heq
  · rw [hempty, hsame, hnone]
    rfl
  · rw [heq, callAll_loadAuthorizations]
    cases iterateLocalTxns env a ((delivered f false 1 items).map fun txn => decode txn.2) <;> rfl

theorem mem_localTxns_of_delivered {f : PageFormat} {decode : Bytes → Log} {items : List WalItem}
    (h : log ∈ deliveredTxns f decode items) : log ∈ localTxns f decode items := by
  have hmem : ∀ (items : List WalItem) (skip : Bool) (iFrame : ℕ),
      ∀ txn ∈ delivered f skip iFrame items, txn ∈ txnsAt f iFrame items := by
    intro items
    induction items with
    | nil => exact fun _ _ _ h => h
    | cons item items ih =>
        intro skip iFrame txn htxn
        cases item with
        | page frame => exact ih _ _ _ htxn
        | txn log =>
            cases skip with
            | true => exact List.mem_cons_of_mem _ (ih _ _ _ htxn)
            | false =>
                rcases List.mem_cons.1 htxn with rfl | htxn
                · exact List.mem_cons_self
                · exact List.mem_cons_of_mem _ (ih _ _ _ htxn)
  obtain ⟨txn, htxn, rfl⟩ := List.mem_map.1 h
  exact List.mem_map_of_mem (hmem _ _ _ _ htxn)

/-! ## The scan of the transactions -/

/-- The key that an authorization names, whoever signed it. -/
def readKey (env : Env D) (log : Log) : Option Bytes :=
  (readAuthorizedPubkey env.codec log).toOption.map Prod.fst

/-- The transaction does not stop the scan: it is not special, or it is a valid authorization, or
it names a key that is known. -/
def PassesLog (env : Env D) (adminPubkey : Bytes) (known : List Bytes) (log : Log) : Prop :=
  isSpecialTransaction log = true →
    (authorizedKey env adminPubkey log).isSome = true ∨ ∃ pk ∈ known, readKey env log = some pk

/-- The transaction stops the scan, with an error that `load_authorizations` returns. -/
def StopsScan (env : Env D) (adminPubkey : Bytes) (known : List Bytes) (log : Log) : Prop :=
  ¬PassesLog env adminPubkey known log ∧
    (readKey env log = none ∨
      (aergoliteVerifyAuthorization env.crypto adminPubkey log).isSome = true)

/-- No transaction stops the scan, which begins with some known keys. -/
def AllPass (env : Env D) (adminPubkey : Bytes) : List Bytes → List Log → Prop
  | _, [] => True
  | known, log :: logs => PassesLog env adminPubkey known log ∧
    AllPass env adminPubkey (known ++ (authorizedKey env adminPubkey log).toList) logs

/-- The keys of the list, and those of the valid authorizations among some transactions. -/
def knownKeys (env : Env D) (a : Aergolite D) (logs : List Log) : List Bytes :=
  a.keys ++ logs.filterMap (authorizedKey env a.adminPubkey)

/-- The entry that is added for a key. -/
def newEntry (codec : Codec) (pk : Bytes) (type : Text) : NodeAuth :=
  ⟨pk, codec.generateNodeIdFromPubkey pk, type == "full".toList, 0, 0, 0⟩

/-- The list with one more entry. -/
def Aergolite.appendAuth (a : Aergolite D) (auth : NodeAuth) : Aergolite D :=
  { a with authorizations := a.authorizations ++ [auth] }

theorem newAuthorization_eq (env : Env D) (a : Aergolite D) (log : Log) :
    a.newAuthorization env log =
      match readAuthorizedPubkey env.codec log with
      | .error rc => some (rc, a)
      | .ok (pk, type) =>
        if pk ∈ a.keys then some (.exist, a)
        else (aergoliteVerifyAuthorization env.crypto a.adminPubkey log).map fun rc =>
          if rc = .ok then (.ok, a.appendAuth (newEntry env.codec pk type)) else (rc, a) := by
  unfold Aergolite.newAuthorization aergoliteNewAuthorization
  cases readAuthorizedPubkey env.codec log with
  | error rc => rfl
  | ok read =>
      obtain ⟨pk, type⟩ := read
      dsimp only
      have hany : (a.authorizations.any fun auth => auth.pk == pk) = true ↔ pk ∈ a.keys := by
        simp [Aergolite.keys]
      by_cases hknown : pk ∈ a.keys
      · rw [if_pos hknown, if_pos (hany.2 hknown)]
        rfl
      · rw [if_neg hknown, if_neg (mt hany.1 hknown), Option.map_map]
        congr 1
        funext rc
        by_cases hrc : rc = .ok <;> simp [hrc, newEntry, Aergolite.appendAuth]

/-- A valid authorization has an entry afterwards. -/
theorem newAuthorization_of_authorized {pk : Bytes}
    (h : authorizedKey env a.adminPubkey log = some pk) : ∃ type, a.newAuthorization env log =
      some (if pk ∈ a.keys then (.exist, a) else (.ok, a.appendAuth (newEntry env.codec pk type))) := by
  unfold authorizedKey at h
  rw [newAuthorization_eq]
  cases hread : readAuthorizedPubkey env.codec log with
  | error rc => simp [hread] at h
  | ok read =>
      rw [hread] at h
      dsimp only at h ⊢
      split_ifs at h with hverify
      obtain rfl := Option.some.inj h
      refine ⟨read.2, ?_⟩
      by_cases hknown : read.1 ∈ a.keys
      · rw [if_pos hknown, if_pos hknown]
      · rw [if_neg hknown, if_neg hknown, hverify]
        rfl

/-- What the scan of some transactions adds to the list. -/
structure Adds (env : Env D) (logs : List Log) (a b : Aergolite D) : Prop where
  same : SameNode a b
  entries : ∃ fresh, b.authorizations = a.authorizations ++ fresh ∧
    ∀ auth ∈ fresh, auth.sinceBlock = 0
  keyed : Keyed env.codec a.keys (authKeys a.authorizations) →
    Keyed env.codec b.keys (authKeys b.authorizations)
  found : ∀ p, b.keys.find? p = (knownKeys env a logs).find? p

theorem mem_iff_find? {l : List Bytes} {pk : Bytes} :
    pk ∈ l ↔ (l.find? (· == pk)).isSome = true := by
  simp [List.find?_isSome]

theorem Adds.mem_keys (h : Adds env logs a b) {pk : Bytes} :
    pk ∈ b.keys ↔ pk ∈ knownKeys env a logs := by
  rw [mem_iff_find?, h.found, ← mem_iff_find?]

theorem Adds.adminPubkey (h : Adds env logs a b) : b.adminPubkey = a.adminPubkey := by
  rw [h.same]

/-- Nothing is added. -/
theorem Adds.refl (env : Env D) (a : Aergolite D) : Adds env [] a a where
  same := rfl
  entries := ⟨[], (List.append_nil _).symm, fun _ h => absurd h List.not_mem_nil⟩
  keyed h := h
  found p := by simp [knownKeys]

/-- The scans of two sequences of transactions. -/
theorem Adds.trans {more : List Log} (h : Adds env logs a b) (h' : Adds env more b c) :
    Adds env (logs ++ more) a c where
  same := h.same.trans h'.same
  entries := by
    obtain ⟨fresh, heq, hzero⟩ := h.entries
    obtain ⟨fresh', heq', hzero'⟩ := h'.entries
    refine ⟨fresh ++ fresh', by rw [heq', heq, List.append_assoc], fun auth hauth => ?_⟩
    exact (List.mem_append.1 hauth).elim (hzero auth) (hzero' auth)
  keyed hkeyed := h'.keyed (h.keyed hkeyed)
  found p := by
    have hbase := h.found p
    rw [h'.found]
    unfold knownKeys at hbase ⊢
    rw [List.filterMap_append, ← List.append_assoc, List.find?_append, hbase, ← List.find?_append,
      h.adminPubkey]

theorem authorizedKey_of_not_special {adminPubkey : Bytes}
    (h : ¬isSpecialTransaction log = true) : authorizedKey env adminPubkey log = none := by
  unfold authorizedKey
  cases readAuthorizedPubkey env.codec log with
  | error rc => rfl
  | ok read => simp [aergoliteVerifyAuthorization, h]

theorem authorizedKey_of_read {adminPubkey pk : Bytes} {type : Text}
    (h : readAuthorizedPubkey env.codec log = .ok (pk, type)) :
    authorizedKey env adminPubkey log =
      if aergoliteVerifyAuthorization env.crypto adminPubkey log = some .ok then some pk
      else none := by
  unfold authorizedKey
  rw [h]

/-- Items that are in the list already are not found behind it. -/
theorem find?_append_of_subset {l more : List Bytes} (h : ∀ pk ∈ more, pk ∈ l)
    (p : Bytes → Bool) : (l ++ more).find? p = l.find? p := by
  rw [List.find?_append]
  cases hfind : l.find? p with
  | some pk => rfl
  | none =>
      rw [Option.none_or, List.find?_eq_none]
      exact fun pk hpk => List.find?_eq_none.1 hfind pk (h pk hpk)

/-- The entry of a new key. -/
theorem adds_newEntry {pk : Bytes} (type : Text) (hnew : pk ∉ a.keys)
    (hkey : authorizedKey env a.adminPubkey log = some pk) :
    Adds env [log] a (a.appendAuth (newEntry env.codec pk type)) where
  same := rfl
  entries := ⟨_, rfl, fun auth hauth => List.mem_singleton.1 hauth ▸ rfl⟩
  keyed hkeyed := by
    refine (hkeyed.mono fun pk hpk => ?_).append rfl ?_ hnew
    · simp only [Aergolite.keys, Aergolite.appendAuth, List.map_append]
      exact List.mem_append_left _ hpk
    · simp [Aergolite.keys, Aergolite.appendAuth, newEntry]
  found p := by simp [knownKeys, Aergolite.keys, Aergolite.appendAuth, hkey, newEntry]

/-- **A transaction that does not stop the scan.** -/
theorem loadAuthorizationsCb1_passes (h : PassesLog env a.adminPubkey a.keys log) :
    ∃ b, loadAuthorizationsCb1 env a log = some (.ok, b) ∧ Adds env [log] a b := by
  unfold loadAuthorizationsCb1
  by_cases hspecial : isSpecialTransaction log = true
  · rw [if_pos hspecial, newAuthorization_eq]
    have hpasses := h hspecial
    unfold readKey at hpasses
    cases hread : readAuthorizedPubkey env.codec log with
    | error rc => simp [authorizedKey, hread, Except.toOption] at hpasses
    | ok read =>
        obtain ⟨pk, type⟩ := read
        have hkey := @authorizedKey_of_read D env log a.adminPubkey pk type hread
        dsimp only
        by_cases hknown : pk ∈ a.keys
        · rw [if_pos hknown]
          refine ⟨a, rfl, rfl, (Adds.refl env a).entries, fun h => h, fun p => ?_⟩
          refine (find?_append_of_subset (fun other hother => ?_) p).symm
          have hother : authorizedKey env a.adminPubkey log = some other := by
            simpa using hother
          rw [hkey] at hother
          split_ifs at hother
          exact Option.some.inj hother ▸ hknown
        · rw [if_neg hknown]
          have hverify : aergoliteVerifyAuthorization env.crypto a.adminPubkey log = some .ok := by
            by_contra hverify
            rw [hkey, if_neg hverify, hread] at hpasses
            rcases hpasses with hsome | ⟨other, hother, heq⟩
            · exact absurd hsome Bool.false_ne_true
            · have hpk : pk = other := Option.some.inj heq
              exact hknown (hpk ▸ hother)
          rw [hverify]
          rw [if_pos hverify] at hkey
          exact ⟨_, rfl, adds_newEntry type hknown hkey⟩
  · rw [if_neg hspecial]
    refine ⟨a, rfl, rfl, (Adds.refl env a).entries, fun h => h, fun p => ?_⟩
    simp [knownKeys, authorizedKey_of_not_special hspecial]

theorem readAuthorizedPubkey_error {codec : Codec} {rc : Rc}
    (h : readAuthorizedPubkey codec log = .error rc) : rc ≠ .ok ∧ rc ≠ .empty ∧ rc ≠ .exist := by
  unfold readAuthorizedPubkey at h
  split at h
  · cases h
    decide
  · unfold readNodeAuthorization at h
    split_ifs at h <;> grind

theorem aergoliteVerifyAuthorization_ne {crypto : Crypto} {adminPubkey : Bytes} {rc : Rc}
    (h : aergoliteVerifyAuthorization crypto adminPubkey log = some rc) :
    rc ≠ .empty ∧ rc ≠ .exist := by
  have hverify : ∀ data pubkey signature, aergoliteVerify crypto data pubkey signature ≠ .empty ∧
      aergoliteVerify crypto data pubkey signature ≠ .exist := by
    intro data pubkey signature
    unfold aergoliteVerify aergoliteVerifyRaw
    split_ifs <;> decide
  unfold aergoliteVerifyAuthorization at h
  split_ifs at h
  · cases h
    decide
  · split at h
    · split_ifs at h
      · cases h
        decide
      · obtain ⟨data, -, rfl⟩ := Option.map_eq_some_iff.1 h
        exact hverify _ _ _
    · cases h
      decide

/-- **A transaction that stops the scan.** -/
theorem loadAuthorizationsCb1_stops (h : StopsScan env a.adminPubkey a.keys log) :
    ∃ rc, rc ≠ .ok ∧ rc ≠ .empty ∧ loadAuthorizationsCb1 env a log = some (rc, a) := by
  obtain ⟨hpasses, hdefined⟩ := h
  unfold PassesLog readKey at hpasses
  unfold readKey at hdefined
  rw [Classical.not_imp, not_or] at hpasses
  obtain ⟨hspecial, hinvalid, hunknown⟩ := hpasses
  unfold loadAuthorizationsCb1
  rw [if_pos hspecial, newAuthorization_eq]
  cases hread : readAuthorizedPubkey env.codec log with
  | error rc =>
      obtain ⟨hok, hempty, hexist⟩ := readAuthorizedPubkey_error hread
      exact ⟨rc, hok, hempty, by simp [hexist]⟩
  | ok read =>
      obtain ⟨pk, type⟩ := read
      have hnew : pk ∉ a.keys := fun hmem => hunknown ⟨pk, hmem, by rw [hread]; rfl⟩
      rw [hread] at hdefined
      obtain ⟨rc, hverify⟩ := Option.isSome_iff_exists.1 (hdefined.resolve_left nofun)
      have hrc : rc ≠ .ok := fun hok => hinvalid (by
        rw [authorizedKey_of_read hread, hverify, hok]
        rfl)
      obtain ⟨hempty, hexist⟩ := aergoliteVerifyAuthorization_ne hverify
      exact ⟨rc, hrc, hempty, by simp [hnew, hverify, hrc, hexist]⟩

/-- A transaction that does neither. -/
theorem loadAuthorizationsCb1_crashes (hpasses : ¬PassesLog env a.adminPubkey a.keys log)
    (hstops : ¬StopsScan env a.adminPubkey a.keys log) :
    loadAuthorizationsCb1 env a log = none := by
  have hdefined : ¬(readKey env log = none ∨
      (aergoliteVerifyAuthorization env.crypto a.adminPubkey log).isSome = true) :=
    fun h => hstops ⟨hpasses, h⟩
  unfold PassesLog at hpasses
  unfold readKey at hpasses hdefined
  rw [Classical.not_imp, not_or] at hpasses
  obtain ⟨hspecial, -, hunknown⟩ := hpasses
  unfold loadAuthorizationsCb1
  rw [if_pos hspecial, newAuthorization_eq]
  cases hread : readAuthorizedPubkey env.codec log with
  | error rc => simp [hread, Except.toOption] at hdefined
  | ok read =>
      obtain ⟨pk, type⟩ := read
      have hnew : pk ∉ a.keys := fun hmem => hunknown ⟨pk, hmem, by rw [hread]; rfl⟩
      simp only [not_or, Bool.not_eq_true, Option.isSome_eq_false_iff, Option.isNone_iff_eq_none]
        at hdefined
      simp [hnew, hdefined.2]

/-- It matters only which keys are known. -/
theorem passesLog_congr {adminPubkey : Bytes} {known known' : List Bytes}
    (h : ∀ pk, pk ∈ known ↔ pk ∈ known') :
    PassesLog env adminPubkey known log ↔ PassesLog env adminPubkey known' log := by
  unfold PassesLog
  simp only [h]

theorem allPass_congr {adminPubkey : Bytes} {known known' : List Bytes}
    (h : ∀ pk, pk ∈ known ↔ pk ∈ known') :
    AllPass env adminPubkey known logs ↔ AllPass env adminPubkey known' logs := by
  induction logs generalizing known known' with
  | nil => exact Iff.rfl
  | cons log logs ih =>
      refine and_congr (passesLog_congr h) (ih fun pk => ?_)
      rw [List.mem_append, List.mem_append, h]

/-- **The scan of transactions that do not stop it**, whatever follows them. -/
theorem iterateLocalTxns_passed (h : AllPass env a.adminPubkey a.keys logs) :
    ∃ b, Adds env logs a b ∧ ∀ more, iterateLocalTxns env a (logs ++ more) =
      iterateLocalTxns env b more := by
  induction logs generalizing a with
  | nil => exact ⟨a, Adds.refl env a, fun _ => rfl⟩
  | cons log logs ih =>
      obtain ⟨hpasses, hrest⟩ := h
      obtain ⟨c, hc, hadds⟩ := loadAuthorizationsCb1_passes hpasses
      have hknown : ∀ pk, pk ∈ a.keys ++ (authorizedKey env a.adminPubkey log).toList ↔
          pk ∈ c.keys := by
        intro pk
        rw [hadds.mem_keys]
        cases hkey : authorizedKey env a.adminPubkey log <;> simp [knownKeys, hkey]
      rw [allPass_congr hknown, ← hadds.adminPubkey] at hrest
      obtain ⟨b, hb, hscan⟩ := ih hrest
      refine ⟨b, hadds.trans hb, fun more => ?_⟩
      rw [List.cons_append, iterateLocalTxns, hc]
      exact hscan more

theorem AllPass.passes {adminPubkey : Bytes} {known : List Bytes} {pre post : List Log}
    (h : AllPass env adminPubkey known (pre ++ log :: post)) :
    PassesLog env adminPubkey (known ++ pre.filterMap (authorizedKey env adminPubkey)) log := by
  induction pre generalizing known with
  | nil =>
      rw [List.filterMap_nil, List.append_nil]
      exact h.1
  | cons first pre ih =>
      refine (passesLog_congr fun pk => ?_).1 (ih h.2)
      cases hkey : authorizedKey env adminPubkey first <;> simp [hkey]

/-- The first transaction that stops the scan is the only one. -/
theorem first_unique {adminPubkey : Bytes} {known : List Bytes} {pre post pre' post' : List Log}
    {log log' : Log} (heq : pre ++ log :: post = pre' ++ log' :: post')
    (hpre : AllPass env adminPubkey known pre) (hpre' : AllPass env adminPubkey known pre')
    (hlog : ¬PassesLog env adminPubkey
      (known ++ pre.filterMap (authorizedKey env adminPubkey)) log)
    (hlog' : ¬PassesLog env adminPubkey
      (known ++ pre'.filterMap (authorizedKey env adminPubkey)) log') :
    pre = pre' ∧ log = log' := by
  rcases List.append_eq_append_iff.1 heq with ⟨more, rfl, hmore⟩ | ⟨more, rfl, hmore⟩
  · cases more with
    | nil => exact ⟨(List.append_nil _).symm, (List.cons.inj hmore).1⟩
    | cons first more =>
        obtain ⟨rfl, -⟩ := List.cons.inj hmore
        exact absurd hpre'.passes hlog
  · cases more with
    | nil => exact ⟨List.append_nil _, (List.cons.inj hmore).1.symm⟩
    | cons first more =>
        obtain ⟨rfl, -⟩ := List.cons.inj hmore
        exact absurd hpre.passes hlog'

/-- Either no transaction stops the scan, or there is a first one that does. -/
theorem allPass_or_first (env : Env D) (adminPubkey : Bytes) (known : List Bytes)
    (logs : List Log) : AllPass env adminPubkey known logs ∨
      ∃ pre log post, logs = pre ++ log :: post ∧ AllPass env adminPubkey known pre ∧
        ¬PassesLog env adminPubkey
          (known ++ pre.filterMap (authorizedKey env adminPubkey)) log := by
  induction logs generalizing known with
  | nil => exact .inl trivial
  | cons log logs ih =>
      by_cases hpasses : PassesLog env adminPubkey known log
      · rcases ih (known ++ (authorizedKey env adminPubkey log).toList) with
          hall | ⟨pre, stop, post, rfl, hpre, hstop⟩
        · exact .inl ⟨hpasses, hall⟩
        · refine .inr ⟨log :: pre, stop, post, rfl, ⟨hpasses, hpre⟩, fun h => hstop ?_⟩
          refine (passesLog_congr fun pk => ?_).1 h
          cases hkey : authorizedKey env adminPubkey log <;> simp [hkey]
      · refine .inr ⟨[], log, logs, rfl, trivial, ?_⟩
        rwa [List.filterMap_nil, List.append_nil]

/-! ## The loop over the rows -/

/-- The entries with an id. -/
def Aergolite.entriesOf (a : Aergolite D) (nodeId : ℤ) : List NodeAuth :=
  a.authorizations.filter fun auth => auth.nodeId == nodeId

/-- An entry with what a row says of it. -/
def withRow (row : AllowedNode) (auth : NodeAuth) : NodeAuth :=
  { auth with
    isFullNode := row.type == "full".toList
    sinceBlock := row.firstBlock
    lastNonce := row.lastNonce }

/-- What the step for a row does to the entries with its id: the key is added if it is not there,
and the first entry is updated. -/
def UpdatesEntries (row : AllowedNode) (entries entries' : List NodeAuth) : Prop :=
  ∃ keyed : List NodeAuth,
    (keyed = entries ∧ row.pubkey ∈ entries.map NodeAuth.pk ∨
      row.pubkey ∉ entries.map NodeAuth.pk ∧ ∃ auth : NodeAuth, auth.pk = row.pubkey ∧
        auth.sinceBlock = 0 ∧ keyed = entries ++ [auth]) ∧
    entries' = keyed.modifyHead (withRow row)

theorem filter_updateAuth {set : NodeAuth → NodeAuth}
    (hset : ∀ auth, (set auth).nodeId = auth.nodeId) (auths : List NodeAuth) (nodeId id : ℤ) :
    (updateAuth nodeId set auths).filter (fun auth => auth.nodeId == id) =
      if id = nodeId then (auths.filter fun auth => auth.nodeId == id).modifyHead set
      else auths.filter fun auth => auth.nodeId == id := by
  induction auths with
  | nil => simp [updateAuth]
  | cons auth auths ih =>
      rw [updateAuth]
      by_cases hid : auth.nodeId = nodeId
      · rw [if_pos hid]
        by_cases heq : id = nodeId
        · simp [hset, hid, heq]
        · have hne : ¬nodeId = id := fun h => heq h.symm
          simp [hset, hid, heq, hne]
      · rw [if_neg hid]
        by_cases heq : id = nodeId
        · subst heq
          simpa [hid] using ih
        · simp only [List.filter_cons, ih, if_neg heq]

theorem updateAuth_updateAuth {set set' : NodeAuth → NodeAuth}
    (hset : ∀ auth, (set auth).nodeId = auth.nodeId) (nodeId : ℤ) (auths : List NodeAuth) :
    updateAuth nodeId set' (updateAuth nodeId set auths) =
      updateAuth nodeId (fun auth => set' (set auth)) auths := by
  induction auths with
  | nil => rfl
  | cons auth auths ih =>
      rw [updateAuth, updateAuth]
      by_cases hid : auth.nodeId = nodeId
      · rw [if_pos hid, if_pos hid, updateAuth, if_pos ((hset auth).trans hid)]
      · rw [if_neg hid, if_neg hid, updateAuth, if_neg hid, ih]

theorem mem_entriesOf {auth : NodeAuth} {nodeId : ℤ} :
    auth ∈ a.entriesOf nodeId ↔ auth ∈ a.authorizations ∧ auth.nodeId = nodeId := by
  simp [Aergolite.entriesOf]

/-- `load_authorizations_cb2` on an entry that is in the list is one update. -/
theorem refreshAuth_eq {row : AllowedNode} (h : a.entriesOf row.nodeId ≠ []) :
    refreshAuth a row =
      { a with authorizations := updateAuth row.nodeId (withRow row) a.authorizations } := by
  obtain ⟨auth, hauth⟩ := List.exists_mem_of_ne_nil _ h
  obtain ⟨hmem, hid⟩ := mem_entriesOf.1 hauth
  have hany : a.authorizations.any (fun auth => auth.nodeId == row.nodeId) = true :=
    List.any_eq_true.2 ⟨auth, hmem, beq_iff_eq.2 hid⟩
  have htwice := @updateAuth_updateAuth (fun auth => { auth with
      isFullNode := row.type == "full".toList
      sinceBlock := row.firstBlock }) (fun auth => { auth with lastNonce := row.lastNonce })
    (fun _ => rfl) row.nodeId a.authorizations
  unfold refreshAuth updateAuthorizationsCb updateAuthLastNonce
  rw [if_pos hany]
  dsimp only at htwice ⊢
  rw [htwice]
  rfl

theorem withRow_nodeId (row : AllowedNode) (auth : NodeAuth) :
    (withRow row auth).nodeId = auth.nodeId :=
  rfl

/-- What the updates change. -/
theorem entriesOf_refreshAuth {row : AllowedNode} (h : a.entriesOf row.nodeId ≠ []) :
    SameNode a (refreshAuth a row) ∧
      authKeys (refreshAuth a row).authorizations = authKeys a.authorizations ∧
      (refreshAuth a row).entriesOf row.nodeId =
        (a.entriesOf row.nodeId).modifyHead (withRow row) ∧
      ∀ id, id ≠ row.nodeId → (refreshAuth a row).entriesOf id = a.entriesOf id := by
  rw [refreshAuth_eq h]
  unfold Aergolite.entriesOf
  refine ⟨rfl, @map_updateAuth _ _ (withRow row) _ (fun _ => rfl) _, ?_, fun id hne => ?_⟩
  · rw [filter_updateAuth (withRow_nodeId row), if_pos rfl]
  · rw [filter_updateAuth (withRow_nodeId row), if_neg hne]

theorem keys_eq_of_authKeys (h : authKeys b.authorizations = authKeys a.authorizations) :
    b.keys = a.keys := by
  unfold Aergolite.keys
  rw [map_pk_eq, h, ← map_pk_eq]

/-- The entry of a known key is among those with the id of the key. -/
theorem mem_keys_iff (h : Keyed env.codec a.keys (authKeys a.authorizations)) {pk : Bytes} :
    pk ∈ a.keys ↔ pk ∈ (a.entriesOf (env.codec.generateNodeIdFromPubkey pk)).map NodeAuth.pk := by
  constructor
  · intro hmem
    obtain ⟨auth, hauth, rfl⟩ := List.mem_map.1 hmem
    have hid := h.ids _ (List.mem_map_of_mem hauth)
    exact List.mem_map_of_mem (mem_entriesOf.2 ⟨hauth, hid⟩)
  · intro hmem
    obtain ⟨auth, hauth, rfl⟩ := List.mem_map.1 hmem
    exact List.mem_map_of_mem (mem_entriesOf.1 hauth).1

/-- What the loop over the rows keeps. -/
structure Loads (codec : Codec) (a b : Aergolite D) : Prop where
  same : SameNode a b
  keyed : Keyed codec b.keys (authKeys b.authorizations)

/-- **The step for a row**, whatever the other entries are. -/
theorem loadAuthorizationsCb2_updates {column : ℤ → Log} {keys : List Bytes}
    {rows : List AllowedNode} (hrows : RowsAuthorized env a.adminPubkey keys column rows)
    (h : Loads env.codec a b) {row : AllowedNode} (hrow : row ∈ rows) :
    ∃ c, loadAuthorizationsCb2 env column b row = some c ∧
      Updates Aergolite.entriesOf AllowedNode.nodeId (Loads env.codec a) UpdatesEntries b row
        c := by
  have hid := hrows.ids row hrow
  have hadmin : b.adminPubkey = a.adminPubkey := by rw [h.same]
  have hkey := hadmin ▸ hrows.authorized row hrow
  have hrefresh : ∀ d : Aergolite D, Loads env.codec a d → row.pubkey ∈ d.keys →
      Loads env.codec a (refreshAuth d row) ∧ (refreshAuth d row).entriesOf row.nodeId =
        (d.entriesOf row.nodeId).modifyHead (withRow row) ∧
      ∀ id, id ≠ row.nodeId → (refreshAuth d row).entriesOf id = d.entriesOf id := by
    intro d hd hmem
    have hne : d.entriesOf row.nodeId ≠ [] := by
      rw [mem_keys_iff hd.keyed, ← hid] at hmem
      rintro hnil
      rw [hnil] at hmem
      exact absurd hmem List.not_mem_nil
    obtain ⟨hsame, hkeys, hentries, hothers⟩ := entriesOf_refreshAuth hne
    refine ⟨⟨hd.same.trans hsame, ?_⟩, hentries, hothers⟩
    rw [hkeys, keys_eq_of_authKeys hkeys]
    exact hd.keyed
  obtain ⟨type, hnew⟩ := newAuthorization_of_authorized hkey
  unfold loadAuthorizationsCb2
  rw [hnew]
  by_cases hknown : row.pubkey ∈ b.keys
  · obtain ⟨hloads, hentries, hothers⟩ := hrefresh b h hknown
    rw [if_pos hknown]
    refine ⟨_, rfl, hloads, ⟨b.entriesOf row.nodeId, .inl ⟨rfl, ?_⟩, hentries⟩, hothers⟩
    rw [hid]
    exact (mem_keys_iff h.keyed).1 hknown
  · have hadds := @adds_newEntry D env _ _ _ type hknown hkey
    have hmem : row.pubkey ∈ (b.appendAuth (newEntry env.codec row.pubkey type)).keys := by
      simp [Aergolite.keys, Aergolite.appendAuth, newEntry]
    obtain ⟨hloads, hentries, hothers⟩ :=
      hrefresh _ ⟨h.same.trans hadds.same, hadds.keyed h.keyed⟩ hmem
    have hself : (b.appendAuth (newEntry env.codec row.pubkey type)).entriesOf row.nodeId =
        b.entriesOf row.nodeId ++ [newEntry env.codec row.pubkey type] := by
      simp [Aergolite.entriesOf, Aergolite.appendAuth, newEntry, hid]
    rw [if_neg hknown]
    refine ⟨_, rfl, hloads, ⟨_, .inr ⟨?_, newEntry env.codec row.pubkey type, rfl, rfl, hself⟩,
      hentries⟩, fun id hne => ?_⟩
    · rwa [hid, ← mem_keys_iff h.keyed]
    · have hother : ¬env.codec.generateNodeIdFromPubkey row.pubkey = id := fun heq =>
        hne (heq.symm.trans hid.symm)
      refine (hothers id hne).trans ?_
      simp [Aergolite.entriesOf, Aergolite.appendAuth, newEntry, hother]

/-- **What the loop over the rows leaves.** -/
theorem reloadAuthorizations_updated {column : ℤ → Log} {keys : List Bytes}
    (hkeyed : Keyed env.codec a.keys (authKeys a.authorizations))
    (hrows : RowsAuthorized env a.adminPubkey keys column a.db.worker.nodes)
    (hquery : a.db.command.1 = .ok) :
    ∃ b, reloadAuthorizations env column a = some b ∧
      Keyed env.codec b.keys (authKeys b.authorizations) ∧
      (∀ row ∈ a.db.worker.nodes,
        UpdatesEntries row (a.entriesOf row.nodeId) (b.entriesOf row.nodeId)) ∧
      ∀ id, id ∉ a.db.worker.nodes.map AllowedNode.nodeId → b.entriesOf id = a.entriesOf id := by
  obtain ⟨faults, hcommand⟩ := command_eq a.db
  have hnodes : a.db.command.2.worker.nodes = a.db.worker.nodes := by rw [hcommand]
  obtain ⟨b, hb, hupdated⟩ := exists_foldlM_update (s := { a with db := a.db.command.2 })
    hrows.distinct (fun d hd row hrow => loadAuthorizationsCb2_updates
      (a := { a with db := a.db.command.2 }) hrows hd hrow) ⟨rfl, hkeyed⟩
  refine ⟨b, ?_, hupdated.inv.keyed, hupdated.upd, hupdated.others⟩
  unfold reloadAuthorizations
  dsimp only
  rw [if_neg (not_not.2 hquery), hnodes]
  exact hb

/-- The data of a row is in the list. -/
def InList (auths : List NodeAuth) (row : AllowedNode) : Prop :=
  ∃ auth ∈ auths, RecordsRow auth row ∧ auth.lastNonce = row.lastNonce

theorem mem_keys_of_updatesEntries {row : AllowedNode} {entries entries' : List NodeAuth}
    (h : UpdatesEntries row entries entries') {pk : Bytes} :
    pk ∈ entries'.map NodeAuth.pk ↔ pk ∈ entries.map NodeAuth.pk ∨ pk = row.pubkey := by
  obtain ⟨keyed, hkeyed, rfl⟩ := h
  have hmap : (keyed.modifyHead (withRow row)).map NodeAuth.pk = keyed.map NodeAuth.pk := by
    cases keyed <;> rfl
  rw [hmap]
  rcases hkeyed with ⟨rfl, hmem⟩ | ⟨-, auth, hpk, -, rfl⟩
  · constructor
    · exact .inl
    · rintro (h | rfl)
      · exact h
      · exact hmem
  · rw [List.map_append, List.mem_append, List.map_singleton, List.mem_singleton, hpk]

theorem inList_withRow {row : AllowedNode} {head : NodeAuth} {tail : List NodeAuth}
    (hid : head.nodeId = row.nodeId) :
    InList (withRow row head :: tail) row ↔ head.pk = row.pubkey ∨ InList tail row := by
  constructor
  · rintro ⟨auth, hauth, hrecords, hnonce⟩
    rcases List.mem_cons.1 hauth with rfl | hauth
    · exact .inl hrecords.pk
    · exact .inr ⟨auth, hauth, hrecords, hnonce⟩
  · rintro (hpk | ⟨auth, hauth, hdata⟩)
    · exact ⟨_, List.mem_cons_self, ⟨hid, hpk, rfl, rfl⟩, rfl⟩
    · exact ⟨auth, List.mem_cons_of_mem _ hauth, hdata⟩

/-- **When a row is in memory after its step**: its key is the first with its id, or it was in
memory before. -/
theorem inList_of_updatesEntries {row : AllowedNode} {entries entries' : List NodeAuth}
    (h : UpdatesEntries row entries entries') (hids : ∀ auth ∈ entries', auth.nodeId = row.nodeId)
    (hsince : 0 < row.firstBlock) : InList entries' row ↔
      (∀ auth ∈ entries.head?, auth.pk = row.pubkey) ∨ InList entries row := by
  obtain ⟨keyed, hkeyed, rfl⟩ := h
  rcases hkeyed with ⟨rfl, hmem⟩ | ⟨hnew, auth, hpk, hzero, rfl⟩
  · cases keyed with
    | nil => exact absurd hmem List.not_mem_nil
    | cons head tail =>
        have hid : head.nodeId = row.nodeId := hids (withRow row head) List.mem_cons_self
        rw [List.modifyHead_cons, inList_withRow hid, List.head?_cons]
        simp only [Option.mem_some_iff, forall_eq']
        constructor
        · rintro (hpk | ⟨auth, hauth, hdata⟩)
          · exact .inl hpk
          · exact .inr ⟨auth, List.mem_cons_of_mem _ hauth, hdata⟩
        · rintro (hpk | ⟨auth, hauth, hdata⟩)
          · exact .inl hpk
          · rcases List.mem_cons.1 hauth with rfl | hauth
            · exact .inl hdata.1.pk
            · exact .inr ⟨auth, hauth, hdata⟩
  · cases entries with
    | nil =>
        refine iff_of_true ?_ (.inl fun _ h => absurd h (by simp))
        exact (inList_withRow (hids (withRow row auth) List.mem_cons_self)).2 (.inl hpk)
    | cons head tail =>
        have hid : head.nodeId = row.nodeId := hids (withRow row head) List.mem_cons_self
        have hnotIn : ¬InList (head :: tail) row := by
          rintro ⟨other, hother, hrecords, -⟩
          exact hnew (hrecords.pk ▸ List.mem_map_of_mem hother)
        have hhead : head.pk ≠ row.pubkey := fun heq =>
          hnew (heq ▸ List.mem_map_of_mem List.mem_cons_self)
        rw [List.cons_append, List.modifyHead_cons, inList_withRow hid]
        refine iff_of_false ?_ ?_
        · rintro (heq | ⟨other, hother, hrecords, hnonce⟩)
          · exact hhead heq
          · rcases List.mem_append.1 hother with hother | hother
            · exact hnotIn ⟨other, List.mem_cons_of_mem _ hother, hrecords, hnonce⟩
            · have hblock := hrecords.sinceBlock
              rw [List.mem_singleton.1 hother, hzero] at hblock
              omega
        · rintro (heq | hin)
          · exact hhead (heq head rfl)
          · exact hnotIn hin

/-! ## What is in memory after a load -/

/-- **Everything is loaded**: the key of each valid authorization among the transactions, and
each row. -/
structure LoadsAll (env : Env D) (txns : List Log) (a b : Aergolite D) : Prop where
  txns : ∀ log ∈ txns, ∀ pk, authorizedKey env a.adminPubkey log = some pk → pk ∈ b.keys
  rows : ∀ row ∈ a.db.worker.nodes, InList b.authorizations row

/-- The first of some keys that has the id of a row is that of the row. -/
def FirstKey (codec : Codec) (known : List Bytes) (row : AllowedNode) : Prop :=
  ∀ pk ∈ known.find? fun pk => codec.generateNodeIdFromPubkey pk == row.nodeId, pk = row.pubkey

/-- **Both sources are read**: no transaction that is delivered stops the scan, what is not
delivered is known otherwise, and each row is in memory already or has the first key with its
id. -/
structure ReadsBoth (env : Env D) (txns delivered : List Log) (a : Aergolite D) : Prop where
  pass : AllPass env a.adminPubkey a.keys delivered
  txns : ∀ log ∈ txns, ∀ pk, authorizedKey env a.adminPubkey log = some pk →
    pk ∈ knownKeys env a delivered ∨ pk ∈ a.db.worker.nodes.map AllowedNode.pubkey
  rows : ∀ row ∈ a.db.worker.nodes,
    FirstKey env.codec (knownKeys env a delivered) row ∨ InList a.authorizations row

/-- **The scan is stopped and hides nothing**: all that is valid comes before, and the rows are in
memory already. -/
structure StopHidesNothing (env : Env D) (txns delivered : List Log) (a : Aergolite D) :
    Prop where
  stop : ∃ pre log post, delivered = pre ++ log :: post ∧ AllPass env a.adminPubkey a.keys pre ∧
    StopsScan env a.adminPubkey (knownKeys env a pre) log ∧
    ∀ log ∈ txns, ∀ pk, authorizedKey env a.adminPubkey log = some pk → pk ∈ knownKeys env a pre
  rows : ∀ row ∈ a.db.worker.nodes, InList a.authorizations row

/-- The first known key with the id of a row is that of the first entry. -/
theorem Adds.firstKey_iff (h : Adds env logs a b)
    (hkeyed : Keyed env.codec b.keys (authKeys b.authorizations)) {row : AllowedNode} :
    FirstKey env.codec (knownKeys env a logs) row ↔
      ∀ auth ∈ (b.entriesOf row.nodeId).head?, auth.pk = row.pubkey := by
  have hfind : (knownKeys env a logs).find? (fun pk =>
      env.codec.generateNodeIdFromPubkey pk == row.nodeId) =
        (b.entriesOf row.nodeId).head?.map NodeAuth.pk := by
    have hcongr : b.authorizations.find? ((fun pk =>
        env.codec.generateNodeIdFromPubkey pk == row.nodeId) ∘ NodeAuth.pk) =
          b.authorizations.find? fun auth => auth.nodeId == row.nodeId := by
      rw [← List.head?_filter, ← List.head?_filter]
      refine congrArg List.head? (List.filter_congr fun auth hauth => ?_)
      have hid : auth.nodeId = env.codec.generateNodeIdFromPubkey auth.pk :=
        hkeyed.ids _ (List.mem_map_of_mem hauth)
      rw [Function.comp_apply, hid]
    rw [← h.found, Aergolite.keys, List.find?_map, hcongr, Aergolite.entriesOf, List.head?_filter]
  unfold FirstKey
  rw [hfind]
  simp

/-- A row is found in the list after a scan exactly where it was found before. -/
theorem Adds.inList_iff (h : Adds env logs a b) {row : AllowedNode} (hsince : 0 < row.firstBlock) :
    InList b.authorizations row ↔ InList a.authorizations row := by
  obtain ⟨fresh, heq, hzero⟩ := h.entries
  constructor
  · rintro ⟨auth, hauth, hrecords, hnonce⟩
    rw [heq] at hauth
    rcases List.mem_append.1 hauth with hauth | hauth
    · exact ⟨auth, hauth, hrecords, hnonce⟩
    · have hblock := hrecords.sinceBlock
      rw [hzero auth hauth] at hblock
      omega
  · rintro ⟨auth, hauth, hdata⟩
    exact ⟨auth, heq ▸ List.mem_append_left _ hauth, hdata⟩

theorem inList_entriesOf {row : AllowedNode} :
    InList (a.entriesOf row.nodeId) row ↔ InList a.authorizations row := by
  constructor
  · rintro ⟨auth, hauth, hdata⟩
    exact ⟨auth, (mem_entriesOf.1 hauth).1, hdata⟩
  · rintro ⟨auth, hauth, hrecords, hnonce⟩
    exact ⟨auth, mem_entriesOf.2 ⟨hauth, hrecords.nodeId⟩, hrecords, hnonce⟩

/-- **The load after a scan that is not stopped.** -/
theorem loadsAll_of_adds {column : ℤ → Log} {txns : List Log} {keys : List Bytes}
    (hadds : Adds env logs a c) (hkeyed : Keyed env.codec a.keys (authKeys a.authorizations))
    (hrows : RowsAuthorized env a.adminPubkey keys column a.db.worker.nodes)
    (hsince : ∀ row ∈ a.db.worker.nodes, 0 < row.firstBlock) (hquery : a.db.command.1 = .ok) :
    (∃ b, reloadAuthorizations env column c = some b ∧ LoadsAll env txns a b) ↔
      (∀ log ∈ txns, ∀ pk, authorizedKey env a.adminPubkey log = some pk →
        pk ∈ knownKeys env a logs ∨ pk ∈ a.db.worker.nodes.map AllowedNode.pubkey) ∧
      ∀ row ∈ a.db.worker.nodes,
        FirstKey env.codec (knownKeys env a logs) row ∨ InList a.authorizations row := by
  have hdb : c.db = a.db := by rw [hadds.same]
  have hrows' : RowsAuthorized env c.adminPubkey keys column c.db.worker.nodes := by
    rw [hdb, hadds.adminPubkey]
    exact hrows
  have hkeyed' := hadds.keyed hkeyed
  obtain ⟨b, hb, hfinal, hentries, hothers⟩ :=
    reloadAuthorizations_updated hkeyed' hrows' (hdb ▸ hquery)
  rw [hdb] at hentries hothers
  have hkeys : ∀ pk, pk ∈ b.keys ↔
      pk ∈ knownKeys env a logs ∨ pk ∈ a.db.worker.nodes.map AllowedNode.pubkey := by
    intro pk
    rw [← hadds.mem_keys, mem_keys_iff hfinal, mem_keys_iff hkeyed']
    by_cases hmem : env.codec.generateNodeIdFromPubkey pk ∈
        a.db.worker.nodes.map AllowedNode.nodeId
    · obtain ⟨row, hrow, hid⟩ := List.mem_map.1 hmem
      rw [← hid, mem_keys_of_updatesEntries (hentries row hrow)]
      refine or_congr_right ⟨fun heq => heq ▸ List.mem_map_of_mem hrow, fun hpk => ?_⟩
      obtain ⟨other, hother, rfl⟩ := List.mem_map.1 hpk
      have hsame := hid.trans (hrows.ids other hother).symm
      rw [List.inj_on_of_nodup_map hrows.distinct hrow hother hsame]
    · have hnone : pk ∉ a.db.worker.nodes.map AllowedNode.pubkey := by
        intro hpk
        obtain ⟨row, hrow, rfl⟩ := List.mem_map.1 hpk
        exact hmem (hrows.ids row hrow ▸ List.mem_map_of_mem hrow)
      rw [hothers _ hmem, or_iff_left hnone]
  have hloaded : ∀ row ∈ a.db.worker.nodes, InList b.authorizations row ↔
      FirstKey env.codec (knownKeys env a logs) row ∨ InList a.authorizations row := by
    intro row hrow
    rw [← inList_entriesOf, hadds.firstKey_iff hkeyed', ← hadds.inList_iff (hsince row hrow),
      ← inList_entriesOf (a := c)]
    exact inList_of_updatesEntries (hentries row hrow)
      (fun auth hauth => (mem_entriesOf.1 hauth).2) (hsince row hrow)
  constructor
  · rintro ⟨b', hb', htxns, hrows⟩
    obtain rfl := Option.some.inj (hb.symm.trans hb')
    exact ⟨fun log hlog pk hpk => (hkeys pk).1 (htxns log hlog pk hpk),
      fun row hrow => (hloaded row hrow).1 (hrows row hrow)⟩
  · rintro ⟨htxns, hrows⟩
    exact ⟨b, hb, fun log hlog pk hpk => (hkeys pk).2 (htxns log hlog pk hpk),
      fun row hrow => (hloaded row hrow).2 (hrows row hrow)⟩

/-- **When a load leaves every authorization in memory.**  The rows are those that the code has
stored, each with the authorization of its key, and can be queried; what is on `wal-local`, the
list before the load and the ids of the keys are arbitrary. -/
theorem loadsAll_iff {r : BinnReader} {f : PageFormat} {decode : Bytes → Log}
    {items : List WalItem} {column : ℤ → Log} {keys : List Bytes}
    (hitems : ∀ item ∈ items, item.Valid r)
    (hkeyed : Keyed env.codec a.keys (authKeys a.authorizations))
    (hrows : RowsAuthorized env a.adminPubkey keys column a.db.worker.nodes)
    (hsince : ∀ row ∈ a.db.worker.nodes, 0 < row.firstBlock) (hquery : a.db.command.1 = .ok) :
    (∃ b, loadAuthorizationsFromWal env r f decode (framesOf f items) column a = some b ∧
      LoadsAll env (localTxns f decode items) a b) ↔
      ReadsBoth env (localTxns f decode items) (deliveredTxns f decode items) a ∨
        StopHidesNothing env (localTxns f decode items) (deliveredTxns f decode items) a := by
  rw [loadAuthorizationsFromWal_eq hitems]
  generalize localTxns f decode items = txns
  generalize deliveredTxns f decode items = delivered
  unfold loadAuthorizations
  rcases allPass_or_first env a.adminPubkey a.keys delivered with
    hpass | ⟨pre, log, post, rfl, hpre, hfirst⟩
  · obtain ⟨c, hadds, hscan⟩ := iterateLocalTxns_passed hpass
    have hscan := hscan []
    rw [List.append_nil, iterateLocalTxns] at hscan
    rw [hscan]
    refine (loadsAll_of_adds hadds hkeyed hrows hsince hquery).trans ?_
    constructor
    · rintro ⟨htxns, hloaded⟩
      exact .inl ⟨hpass, htxns, hloaded⟩
    · rintro (⟨-, htxns, hloaded⟩ | ⟨⟨pre, log, post, rfl, -, hstop, -⟩, -⟩)
      · exact ⟨htxns, hloaded⟩
      · exact absurd hpass.passes hstop.1
  · obtain ⟨c, hadds, hscan⟩ := iterateLocalTxns_passed hpre
    have hknown : ∀ pk, pk ∈ knownKeys env a pre ↔ pk ∈ c.keys := fun pk => hadds.mem_keys.symm
    have hstops : StopsScan env a.adminPubkey (knownKeys env a pre) log ↔
        StopsScan env c.adminPubkey c.keys log := by
      unfold StopsScan
      rw [hadds.adminPubkey, passesLog_congr hknown]
    have hbehind : ¬ReadsBoth env txns (pre ++ log :: post) a := fun h =>
      hfirst h.pass.passes
    rw [hscan, iterateLocalTxns, or_iff_right hbehind]
    by_cases hstop : StopsScan env a.adminPubkey (knownKeys env a pre) log
    · obtain ⟨rc, hok, hempty, hcb⟩ := loadAuthorizationsCb1_stops (hstops.1 hstop)
      simp only [hcb, Option.bind_eq_bind, Option.bind_some, ne_eq, hok, hempty, not_false_eq_true,
        and_self, if_true]
      constructor
      · rintro ⟨b, hb, htxns, hloaded⟩
        obtain rfl := Option.some.inj hb
        exact ⟨⟨pre, log, post, rfl, hpre, hstop, fun log hlog pk hpk =>
          (hknown pk).2 (htxns log hlog pk hpk)⟩,
          fun row hrow => (hadds.inList_iff (hsince row hrow)).1 (hloaded row hrow)⟩
      · rintro ⟨⟨pre', log', post', heq, hpre', hstop', htxns⟩, hloaded⟩
        obtain ⟨rfl, -⟩ := first_unique heq hpre hpre' hfirst hstop'.1
        exact ⟨c, rfl, fun log hlog pk hpk => (hknown pk).1 (htxns log hlog pk hpk),
          fun row hrow => (hadds.inList_iff (hsince row hrow)).2 (hloaded row hrow)⟩
    · have hfirst' : ¬PassesLog env c.adminPubkey c.keys log := by
        rw [hadds.adminPubkey, ← passesLog_congr hknown]
        exact hfirst
      rw [loadAuthorizationsCb1_crashes hfirst' (mt hstops.2 hstop)]
      apply iff_of_false
      · rintro ⟨b, hb, -⟩
        cases hb
      · rintro ⟨⟨pre', log', post', heq, hpre', hstop', -⟩, -⟩
        obtain ⟨rfl, rfl⟩ := first_unique heq hpre hpre' hfirst hstop'.1
        exact hstop hstop'

/-! ## A command before an authorization -/

instance (env : Env D) (adminPubkey : Bytes) (known : List Bytes) (log : Log) :
    Decidable (PassesLog env adminPubkey known log) := by
  unfold PassesLog
  infer_instance

instance (codec : Codec) (keys : List Bytes) (entries : List (ℤ × Bytes)) :
    Decidable (Keyed codec keys entries) :=
  decidable_of_iff (_ ∧ _ ∧ _)
    ⟨fun h => ⟨h.1, h.2.1, h.2.2⟩, fun h => ⟨h.ids, h.known, h.once⟩⟩

/-- A special transaction that changes the type of a node, signed by the admin. -/
def changeType : Log :=
  let sql := "pragma node_type=full:*".toList
  let data := int64Text 1 ++ '\n' :: "d".toList ++ '\n' :: sql
  let admin : Bytes := List.replicate 33 9
  [.int64 1, .datetime "d".toList, .string sql, .bool true,
    .list [.bool true, .blob admin, .blob (plainSign admin (plainCrypto.sha256 data))]]

/-- What the two logs hold: `shortLog` the change of a type, and the other an authorization. -/
def twoLogs (log : Bytes) : Log := if log = shortLog then changeType else authorizeOne "light"

/-- The bytes of the authorization. -/
def listReaderAuthorization : Bytes := [0xE0, 5, 1, 0x20, 8]

/-- **A change of type hides the authorization behind it**, which is valid. -/
theorem changeType_hides : ¬∃ b, loadAuthorizationsFromWal oneAddressEnv listReader reservedFormat
      twoLogs (framesOf reservedFormat [.txn shortLog, .txn listReaderAuthorization])
      (fun _ => []) newNode.core = some b ∧
    LoadsAll oneAddressEnv (localTxns reservedFormat twoLogs
      [.txn shortLog, .txn listReaderAuthorization]) newNode.core b := by
  rintro ⟨b, hb, hall⟩
  have hmem : List.replicate 33 1 ∈ b.keys := by
    refine hall.txns (authorizeOne "light") ?_ _ (by decide +kernel)
    exact List.mem_cons_of_mem changeType List.mem_cons_self
  have hhidden : (loadAuthorizationsFromWal oneAddressEnv listReader reservedFormat twoLogs
      (framesOf reservedFormat [.txn shortLog, .txn listReaderAuthorization]) (fun _ => [])
      newNode.core).any (fun b => decide (List.replicate 33 1 ∈ b.keys)) = false := by
    decide +kernel
  rw [hb] at hhidden
  exact of_decide_eq_false hhidden hmem

/-- The node with its row, which says that it has sent five transactions. -/
def knownNode : Aergolite Unit :=
  freshAergolite 1 (List.replicate 33 1) [] [⟨1, List.replicate 33 1, 1, "light".toList, 5⟩]

/-- The hypotheses hold where the authorization comes first, and the row is loaded too. -/
theorem loadsAll_iff_authorizationOnly :
    ∃ b, loadAuthorizationsFromWal oneAddressEnv listReader reservedFormat twoLogs
        (framesOf reservedFormat [.txn listReaderAuthorization]) (fun _ => authorizeOne "light")
        knownNode = some b ∧
      LoadsAll oneAddressEnv (localTxns reservedFormat twoLogs [.txn listReaderAuthorization])
        knownNode b := by
  have hitems : ∀ item ∈ [WalItem.txn listReaderAuthorization], item.Valid listReader := by
    intro item hitem
    rw [List.mem_singleton.1 hitem]
    exact ⟨List.cons_ne_nil _ _, fun more => rfl, fun more => rfl⟩
  refine (@loadsAll_iff Unit oneAddressEnv knownNode listReader reservedFormat twoLogs
    [.txn listReaderAuthorization] (fun _ => authorizeOne "light") [List.replicate 33 1] hitems
    ?_ ?_ ?_ rfl).2 (.inl ⟨⟨?_, trivial⟩, ?_, ?_⟩)
  · decide +kernel
  · decide +kernel
  · decide +kernel
  · decide +kernel
  · intro log hlog pk hpk
    obtain rfl : log = authorizeOne "light" := List.mem_singleton.1 hlog
    have hkey : authorizedKey oneAddressEnv knownNode.adminPubkey (authorizeOne "light") =
        some (List.replicate 33 1) := by decide +kernel
    obtain rfl := Option.some.inj (hkey.symm.trans hpk)
    exact .inr (by decide)
  · intro row hrow
    obtain rfl := List.mem_singleton.1 hrow
    refine .inl fun pk hpk => ?_
    have hfirst : (knownKeys oneAddressEnv knownNode (deliveredTxns reservedFormat twoLogs
        [.txn listReaderAuthorization])).find? (fun pk =>
          oneAddressEnv.codec.generateNodeIdFromPubkey pk == 1) = some (List.replicate 33 1) := by
      decide +kernel
    exact (Option.some.inj (hfirst.symm.trans hpk)).symm

end Core
end AergoLite
