/-
# What a transaction without admin rights can execute

`verify_txn_access_rights` accepts a command of a node if it starts with `CALL`.
`aergolite_exec` executes the whole text: after the call that a command starts
with it goes on with what follows, and that may be any statement
(`executeTransaction_not_only_calls`).  So the statements that are run are calls
of stored procedures exactly when whatever follows the first call of a command
is a call as well (`executeTransaction_calls_iff`).
-/

import AergoLite.Core.Execution

namespace AergoLite
namespace Core

variable {D : Type}

/-- The statements that a list of commands spells out, up to the first command
that the grammar does not accept. -/
def spellCommands (syn : Syntax) : List Text → List Statement
  | [] => []
  | sql :: sqls =>
    if (spell syn sql).2 then (spell syn sql).1 ++ spellCommands syn sqls else (spell syn sql).1

/-- Those that follow the first statement of their command. -/
def furtherStatements (syn : Syntax) : List Text → List Statement
  | [] => []
  | sql :: sqls =>
    if (spell syn sql).2 then (spell syn sql).1.tail ++ furtherStatements syn sqls
    else (spell syn sql).1.tail

/-- Every statement that follows the first one of a command is a call; the
commands of a special transaction are not executed. -/
def FurtherCallsOnly (syn : Syntax) (log : Log) : Prop :=
  isSpecialTransaction log = true ∨
    ∀ st ∈ furtherStatements syn (logCommands log), st.isCall = true

/-- What is run of a list of commands are the first statements it spells out. -/
theorem executeCommands_ran (eng : Engine D) (nodeId : ℤ) (worker : Worker D)
    (sqls : List Text) :
    (executeCommands eng nodeId worker sqls).ran <+: spellCommands eng.toSyntax sqls := by
  induction sqls generalizing worker with
  | nil => simp [executeCommands, spellCommands]
  | cons sql sqls ih =>
      obtain ⟨hpre, hok⟩ := aergoliteExec_ran eng worker sql nodeId
      simp only [executeCommands, spellCommands]
      split_ifs with hrc hspell hspell
      · exact hpre.trans (List.prefix_append _ _)
      · exact hpre
      · rw [hok (not_not.1 hrc)]
        exact (List.prefix_append_right_inj _).2 (ih _)
      · rw [hok (not_not.1 hrc)] at hspell
        exact absurd rfl hspell

/-- On the obliging engine all of them are run. -/
theorem executeCommands_oblige (syn : Syntax) (nodeId : ℤ) (worker : Worker Unit)
    (sqls : List Text) :
    (executeCommands (obligingEngine syn) nodeId worker sqls).ran = spellCommands syn sqls := by
  induction sqls with
  | nil => rfl
  | cons sql sqls ih =>
      rw [executeCommands, spellCommands, aergoliteExec_oblige]
      by_cases hspell : (spell syn sql).2 = true
      · simp [hspell, ih]
      · simp [hspell]

/-- Two beginnings of one text, in lower case, do not contradict each other. -/
theorem startsWithNoCase_prefix {s pre pre' : Text} (h : startsWithNoCase s pre = true)
    (h' : startsWithNoCase s pre' = true) :
    pre.map Char.toLower <+: pre'.map Char.toLower ∨
      pre'.map Char.toLower <+: pre.map Char.toLower :=
  List.prefix_or_prefix_of_prefix (startsWithNoCase_iff.1 h) (startsWithNoCase_iff.1 h')

/-- A text that starts with `CALL` does not start with a special command. -/
theorem not_startsWith_of_call {s pre : Text} (hs : startsWithNoCase s "CALL".toList = true)
    (hpre : ¬ pre.map Char.toLower <+: "call".toList ∧
      ¬ "call".toList <+: pre.map Char.toLower) : startsWith s pre = false := by
  rw [Bool.eq_false_iff]
  intro h
  have hlower : pre.map Char.toLower <+: s.map Char.toLower :=
    (List.isPrefixOf_iff_prefix.1 h).map _
  rcases List.prefix_or_prefix_of_prefix hlower (startsWithNoCase_iff.1 hs) with h | h
  · exact hpre.1 h
  · exact hpre.2 h

/-- A command that starts with `CALL` is refused or begins with a call. -/
theorem prepare_of_call (syn : Syntax) {sql : Text}
    (h : startsWithNoCase sql "CALL".toList = true) :
    prepare syn sql = none ∨ ∃ rest, prepare syn sql = some (some (.call sql), rest) := by
  have hcreate : afterCreateProcedure sql = none := by
    unfold afterCreateProcedure
    rw [if_neg]
    intro hc
    rcases startsWithNoCase_prefix h hc with hp | hp <;> exact absurd hp (by decide)
  simp only [prepare, hcreate]
  split_ifs with hcall
  · cases syn.parseProcedureCall (sql.drop 5) with
    | none => exact .inl rfl
    | some rest => exact .inr ⟨rest, rfl⟩
  · exact .inl (by rw [syn.parse_call h]; rfl)

/-- If it spells out statements, the first one is a call. -/
theorem spell_of_call (syn : Syntax) {sql : Text}
    (h : startsWithNoCase sql "CALL".toList = true) :
    (spell syn sql).1 = [] ∨ ∃ tail, (spell syn sql).1 = .call sql :: tail := by
  have hne : sql ≠ [] := by rintro rfl; exact absurd h (by decide)
  obtain ⟨n, hn⟩ : ∃ n, sql.length = n + 1 :=
    ⟨sql.length - 1, by have := List.length_pos_iff.2 hne; omega⟩
  rw [spell, hn]
  simp only [spellLoop, hne, ite_false]
  rcases prepare_of_call syn h with hp | ⟨rest, hp⟩ <;> simp [hp]

/-- The statements of commands that start with `CALL` are calls if those are that
follow the first of each command. -/
theorem spellCommands_isCall {syn : Syntax} {sqls : List Text}
    (hcall : ∀ sql ∈ sqls, startsWithNoCase sql "CALL".toList = true) :
    (∀ st ∈ spellCommands syn sqls, st.isCall = true) ↔
      ∀ st ∈ furtherStatements syn sqls, st.isCall = true := by
  induction sqls with
  | nil => simp [spellCommands, furtherStatements]
  | cons sql sqls ih =>
      have ih := ih fun s hs => hcall s (List.mem_cons_of_mem _ hs)
      simp only [spellCommands, furtherStatements]
      rcases spell_of_call syn (hcall sql List.mem_cons_self) with hs | ⟨tail, hs⟩
      · split_ifs <;> simp [hs, ih]
      · split_ifs
        · simp only [hs, List.tail_cons, List.forall_mem_append, List.forall_mem_cons, ih]
          simp [Statement.isCall]
        · simp [hs, Statement.isCall]

/-- The commands of an accepted log that the admin has not signed start with
`CALL`. -/
theorem call_of_verified {c : Crypto} {adminPubkey nodePubkey : Bytes} {auths : List NodeAuth}
    {nodeId nonce : ℤ} {log : Log} {datetime data : Text} {auth : NodeAuth} {sig : TxnSig}
    (v : VerifiedTransaction c adminPubkey auths nodeId log nonce datetime nodePubkey auth sig
      data)
    (hadmin : (sig.key nodePubkey).take 33 ≠ adminPubkey.take 33) :
    ∀ sql ∈ logCommands log, startsWithNoCase sql "CALL".toList = true := by
  intro sql hsql
  have hall := v.allowed
  unfold verifyTxnAccessRights at hall
  split_ifs at hall with h
  have hsql := List.all_eq_true.1 h sql hsql
  unfold commandAllowed at hsql
  split_ifs at hsql with huser
  · exact absurd (beq_iff_eq.1 hsql).symm hadmin
  · exact hsql

/-- No command that starts with `CALL` is skipped. -/
theorem commandsToRun_of_call {log : Log} (hspecial : isSpecialTransaction log = false)
    (hcall : ∀ sql ∈ logCommands log, startsWithNoCase sql "CALL".toList = true) :
    commandsToRun log = logCommands log := by
  have hskip : ∀ r ∈ (logCommands log).zipIdx 1, !skipsCommand (txnSqlCount log) r.2 r.1 := by
    rintro ⟨sql, count⟩ hr
    have hsql := hcall sql (List.fst_mem_of_mem_zipIdx hr)
    have hbegin : startsWithNoCase sql "BEGIN".toList = false := by
      rw [Bool.eq_false_iff]
      intro h
      rcases startsWithNoCase_prefix hsql h with hp | hp <;> exact absurd hp (by decide)
    have hcommit : startsWithNoCase sql "COMMIT".toList = false := by
      rw [Bool.eq_false_iff]
      intro h
      rcases startsWithNoCase_prefix hsql h with hp | hp <;> exact absurd hp (by decide)
    simp only [skipsCommand, hbegin, hcommit, Bool.and_false, Bool.or_self, Bool.not_false]
  rw [commandsToRun, hspecial]
  simp only [Bool.false_eq_true, ite_false]
  rw [List.filter_eq_self.2 (by simpa using hskip), List.zipIdx_map_fst]

/-- A special transaction whose command starts with `CALL` runs nothing. -/
theorem executeSpecialTransaction_of_call (codec : Codec) (auths : List NodeAuth) (height : ℤ)
    (db : Databases D) {log : Log}
    (hcall : ∀ sql ∈ logCommands log, startsWithNoCase sql "CALL".toList = true) :
    (executeSpecialTransaction codec auths height log db).ran = [] := by
  unfold executeSpecialTransaction
  split
  · rfl
  · rename_i sql hsql
    have hmem : sql ∈ logCommands log := by
      obtain ⟨v, hv, hs⟩ := List.exists_of_findSome?_eq_some hsql
      exact List.mem_filterMap.2 ⟨v, hv, hs⟩
    have hsql := hcall sql hmem
    obtain ⟨_, -, hadd⟩ := readNodeAuthorization_of_not_prefix codec
      (not_startsWith_of_call hsql (by decide))
    obtain ⟨_, -, htype⟩ := readPragmaNodeType_of_not_prefix codec
      (not_startsWith_of_call hsql (by decide))
    have hanchoring : startsWith sql anchoringPrefix = false :=
      not_startsWith_of_call hsql (by decide)
    simp [hadd, htype, hanchoring]

/-- **Access rights and what is executed.**  The statements that are run of an
accepted log that is not signed with the admin's key are calls of stored
procedures, whatever the engine and the databases, if and only if every
statement that follows the first one of a command is a call. -/
theorem executeTransaction_calls_iff {c : Crypto} {adminPubkey : Bytes} {auths : List NodeAuth}
    {nodeId nonce : ℤ} {log : Log} {datetime : Text} (syn : Syntax) (codec : Codec)
    (h : aergoliteVerifyTransaction c adminPubkey auths nodeId log =
      some (.ok (nonce, datetime)))
    (hadmin : ∀ key, verificationKey auths nodeId log = some key →
      key.take 33 ≠ adminPubkey.take 33) :
    (∀ (D : Type) (eng : Engine D), eng.toSyntax = syn →
      ∀ isFullNode auths' height tid (db : Databases D),
        ∀ st ∈ (executeTransaction codec eng isFullNode auths' height nodeId nonce tid log db).ran,
          st.isCall = true) ↔
      FurtherCallsOnly syn log := by
  obtain ⟨nodePubkey, auth, sig, data, v⟩ := aergoliteVerifyTransaction_eq_ok.1 h
  have hcall := call_of_verified v (hadmin _ v.verificationKey_eq)
  unfold FurtherCallsOnly
  cases hspecial : isSpecialTransaction log with
  | true =>
      refine iff_of_true ?_ (.inl rfl)
      intro D eng _ isFullNode auths' height tid db st hst
      obtain ⟨db', hst⟩ := executeTransaction_ran hst
      rw [executeBody, if_pos hspecial, executeSpecialTransaction_of_call _ _ _ _ hcall] at hst
      exact absurd hst List.not_mem_nil
  | false =>
      have hbody : ∀ {D : Type} (eng : Engine D) auths' height (db : Databases D),
          (executeBody codec eng auths' height nodeId log db).ran =
            (executeCommands eng nodeId db.worker (logCommands log)).ran := by
        intro D eng auths' height db
        rw [executeBody, if_neg (by simp [hspecial]), commandsToRun_of_call hspecial hcall]
      rw [← spellCommands_isCall hcall]
      simp only [Bool.false_eq_true, false_or]
      constructor
      · intro hall st hst
        refine hall Unit (obligingEngine syn) rfl false [] 0 0 emptyDatabases st ?_
        rwa [executeTransaction_ran_of_no_faults rfl, hbody, executeCommands_oblige]
      · rintro hall D eng rfl isFullNode auths' height tid db st hst
        obtain ⟨db', hst⟩ := executeTransaction_ran hst
        rw [hbody] at hst
        exact hall st ((executeCommands_ran eng nodeId _ _).subset hst)

/-- Node 1's log with the commands, signed with its key. -/
def logWithCommands (commands : List String) : Log :=
  signedByNode (List.replicate 33 1) ([.int64 5, .datetime "d".toList] ++
    commands.map fun sql => .string sql.toList)

/-- The list that holds node 1. -/
def authsOfNodeOne : List NodeAuth := [⟨List.replicate 33 1, 1, false, 1, 4, 4⟩]

/-- What it makes of the log; the admin has another key. -/
def verifyCommands (commands : List String) : Option (Except Rc (ℤ × Text)) :=
  aergoliteVerifyTransaction plainCrypto (List.replicate 33 9) authsOfNodeOne 1
    (logWithCommands commands)

/-- The statements that are run of it. -/
def ranCommands (commands : List String) : List Statement :=
  (executeTransaction plainCodec (obligingEngine plainSyntax) false [] 2 1 5 0
    (logWithCommands commands) emptyDatabases).ran

/-- The hypotheses hold of a log with two commands of one call each. -/
theorem executeTransaction_calls_two_calls :
    (ranCommands ["CALL a()", "call b() "]).all Statement.isCall = true :=
  List.all_eq_true.2 <| (executeTransaction_calls_iff plainSyntax plainCodec
    (show verifyCommands ["CALL a()", "call b() "] = some (.ok (5, "d".toList)) by decide)
    (by intro key h; obtain rfl := Option.some.inj h; decide)).2 (.inr (by decide))
    Unit _ rfl _ _ _ _ _

/-- **A node without admin rights can execute any statement.**  The list accepts
a command that goes on after a call, and what follows is run. -/
theorem executeTransaction_not_only_calls :
    verifyCommands ["CALL a() DROP TABLE t"] = some (.ok (5, "d".toList)) ∧
      verificationKey authsOfNodeOne 1 (logWithCommands ["CALL a() DROP TABLE t"]) =
        some (List.replicate 33 1) ∧
      ranCommands ["CALL a() DROP TABLE t"] =
        [.call "CALL a() DROP TABLE t".toList, .sql "DROP TABLE t".toList] := by
  decide

end Core
end AergoLite
