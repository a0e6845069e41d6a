/-
# Commands that procedures must not execute

A procedure is executed within the transaction of its block, so it must not begin, end or roll back
a transaction, nor attach or detach a database.  `executeStatementCommand` looks at the first
character of a statement, which must be one of six capital letters, and then at its first letters in
any case.

Conditions, SET and RETURN are evaluated with SELECT in front, but for a SET whose source begins with
SELECT, INSERT, UPDATE, DELETE or CALL.  The query of a FOREACH is executed as it stands, and what
the SQL parser skips in front of a statement (blanks, comments, semicolons) is not skipped by the
filter.  `filter_iff` says which statements it stops.
-/

import AergoLite.StoredProc.Commands

namespace AergoLite
namespace StoredProc

/-! ## Tokens -/

/-- `IdChar`. -/
def isIdChar (c : Char) : Bool := c.isAlphanum || c == '_' || c == '$' || 128 ≤ c.toNat

/-- `CC_SPACE`. -/
def isBlank (c : Char) : Bool := c == ' ' || c == '\t' || c == '\n' || c == '\x0c' || c == '\r'

/-- The text after the end of a comment. -/
def afterComment : Text → Text
  | '*' :: '/' :: t => t
  | _ :: t => afterComment t
  | [] => []

/-- The text after a `TK_SPACE`: blanks, or a comment. -/
def spaceToken : Text → Option Text
  | '-' :: '-' :: t => some (t.dropWhile (· != '\n'))
  | '/' :: '*' :: c :: t => some (afterComment (c :: t))
  | c :: t => if isBlank c then some (t.dropWhile isSpace) else none
  | [] => none

/-- The text from the first token of a statement on: blanks, comments and semicolons do not belong
to it. -/
def leading : ℕ → Text → Text
  | 0, t => t
  | fuel + 1, t =>
    match spaceToken t with
    | some t => leading fuel t
    | none =>
      match t with
      | ';' :: t => leading fuel t
      | t => t

/-- The first word of a statement, in capital letters. -/
def firstWord (t : Text) : Text := ((leading t.length t).takeWhile isIdChar).map Char.toUpper

/-- The statements on transactions, and on attached databases. -/
def forbiddenWords : List Text :=
  ["BEGIN".toList, "COMMIT".toList, "ROLLBACK".toList, "SAVEPOINT".toList, "RELEASE".toList,
    "ATTACH".toList, "DETACH".toList]

/-- A statement that a procedure must not execute. -/
def Forbidden (t : Text) : Prop := firstWord t ∈ forbiddenWords

instance (t : Text) : Decidable (Forbidden t) := inferInstanceAs (Decidable (_ ∈ _))

/-! ## The texts that are executed -/

/-- `sqlite3_strnicmp` finds the word at the beginning. -/
def beginsWith (word t : Text) : Bool := (t.take word.length).map Char.toUpper == word

/-- The filter of `executeStatementCommand`; of SAVEPOINT it compares eight letters. -/
def isRejected (t : Text) : Bool :=
  if t.head? = some 'B' ∨ t.head? = some 'C' ∨ t.head? = some 'R' ∨ t.head? = some 'S' then
    ["BEGIN".toList, "COMMIT".toList, "ROLLBACK".toList, "SAVEPOIN".toList,
      "RELEASE".toList].any (beginsWith · t)
  else if t.head? = some 'A' ∨ t.head? = some 'D' then
    ["ATTACH".toList, "DETACH".toList].any (beginsWith · t)
  else false

/-- `SELECT %s`. -/
def selectText (t : Text) : Text := "SELECT ".toList ++ t

/-- `SELECT printf(%s)`. -/
def printfText (t : Text) : Text := selectText ("printf(".toList ++ t ++ ")".toList)

/-- The words before which `executeSetCommand` puts no SELECT. -/
def sourceWords : List Text :=
  ["SELECT".toList, "INSERT".toList, "UPDATE".toList, "DELETE".toList, "CALL".toList]

/-- The statement of a SET; `SELECT` is put in front of the rest of the body. -/
def setText (t rest : Text) : Text :=
  if (t.takeWhile isIdChar).map Char.toUpper ∈ sourceWords then t else selectText (t ++ rest)

/-- The SQL text of a command, as it is written. -/
inductive Source
  | none
  | statement (sql : Text)
  /-- With the rest of the body. -/
  | set (sql rest : Text)
  /-- RETURN of an expression. -/
  | ret (sql : Text)
  | raise (sql : Text)
  | assert (sql sql2 : Text)
  /-- IF or ELSEIF. -/
  | cond (sql : Text)
  /-- The query of a FOREACH. -/
  | query (sql : Text)

/-- What the command executes. -/
def Source.texts : Source → List Text
  | none => []
  | statement t => if isRejected t then [] else [t]
  | set t rest => [setText t rest]
  | ret t => [selectText t]
  | raise t => [printfText t]
  | assert t t2 => [selectText t, printfText t2]
  | cond t => [selectText t]
  | query t => [t]

/-- Its statement is not forbidden, or begins with a capital letter of its keyword. -/
def Source.Covered : Source → Prop
  | statement t => Forbidden t → ∃ c, t.head? = some c ∧ c.isUpper
  | query t => ¬Forbidden t
  | _ => True

/-! ## The first word -/

theorem not_idChar_of_blank {c : Char} (h : isBlank c = true) : isIdChar c = false := by
  simp only [isBlank, Bool.or_eq_true, beq_iff_eq] at h
  rcases h with (((rfl | rfl) | rfl) | rfl) | rfl <;> decide

/-- A text that begins with a word has nothing in front of it. -/
theorem leading_of_idChar {c : Char} {t : Text} (h : isIdChar c = true) (fuel : ℕ) :
    leading fuel (c :: t) = c :: t := by
  have hspace : spaceToken (c :: t) = none := by
    have hminus : c ≠ '-' := fun hc => by rw [hc] at h; exact absurd h (by decide)
    have hslash : c ≠ '/' := fun hc => by rw [hc] at h; exact absurd h (by decide)
    have hblank : ¬isBlank c = true := fun hb => by
      rw [not_idChar_of_blank hb] at h
      exact Bool.false_ne_true h
    unfold spaceToken
    split
    · rename_i heq
      exact absurd (List.cons.inj heq).1 hminus
    · rename_i heq
      exact absurd (List.cons.inj heq).1 hslash
    · rename_i heq
      obtain ⟨rfl, rfl⟩ := List.cons.inj heq
      exact if_neg hblank
    · rfl
  have hsemi : c ≠ ';' := fun hc => by rw [hc] at h; exact absurd h (by decide)
  cases fuel with
  | zero => rfl
  | succ fuel =>
      unfold leading
      rw [hspace]
      dsimp only
      split
      · rename_i heq
        exact absurd (List.cons.inj heq).1 hsemi
      · rfl

theorem firstWord_of_idChar {c : Char} {t : Text} (h : isIdChar c = true) :
    firstWord (c :: t) = ((c :: t).takeWhile isIdChar).map Char.toUpper := by
  rw [firstWord, leading_of_idChar h]

/-- **A text with SELECT in front is a SELECT.** -/
theorem not_forbidden_selectText (t : Text) : ¬Forbidden (selectText t) := by
  have hword : firstWord (selectText t) = "SELECT".toList := by
    rw [show selectText t = 'S' :: ("ELECT ".toList ++ t) from rfl,
      firstWord_of_idChar (by decide)]
    simp [List.takeWhile, isIdChar]
  rw [Forbidden, hword]
  decide

/-- The statement of a SET is not forbidden. -/
theorem not_forbidden_setText (t rest : Text) : ¬Forbidden (setText t rest) := by
  unfold setText
  split_ifs with h
  · cases t with
    | nil => exact absurd h (by decide)
    | cons c t =>
        have hc : isIdChar c = true := by
          by_contra hc
          rw [List.takeWhile_cons_of_neg hc] at h
          exact absurd h (by decide)
        rw [Forbidden, firstWord_of_idChar hc]
        generalize ((c :: t).takeWhile isIdChar).map Char.toUpper = word at h ⊢
        revert h
        simp only [sourceWords, List.mem_cons, List.not_mem_nil, or_false]
        rintro (rfl | rfl | rfl | rfl | rfl) <;> decide
  · exact not_forbidden_selectText _

theorem isIdChar_of_isUpper {c : Char} (h : c.isUpper = true) : isIdChar c = true := by
  have halpha : c.isAlpha = true := Bool.or_eq_true_iff.2 (.inl h)
  simp [isIdChar, Char.isAlphanum, halpha]

theorem toUpper_of_isUpper {c : Char} (h : c.isUpper = true) : c.toUpper = c := by
  obtain ⟨-, hle⟩ : 'A'.val ≤ c.val ∧ c.val ≤ 'Z'.val := of_decide_eq_true h
  unfold Char.toUpper
  rw [dif_neg]
  rintro ⟨hlow, -⟩
  have h₁ := UInt32.le_iff_toNat_le.1 hle
  have h₂ := UInt32.le_iff_toNat_le.1 hlow
  have hZ : 'Z'.val.toNat = 90 := rfl
  have ha : 'a'.val.toNat = 97 := rfl
  omega

theorem beginsWith_iff {word t : Text} :
    beginsWith word t = true ↔ word <+: t.map Char.toUpper := by
  rw [beginsWith, beq_iff_eq, List.prefix_iff_eq_take, List.map_take, eq_comm]

/-- The first word of a text is at its beginning. -/
theorem beginsWith_of_takeWhile {word kw t : Text} (hword : word <+: kw)
    (h : (t.takeWhile isIdChar).map Char.toUpper = kw) : beginsWith word t = true := by
  have hprefix : kw <+: t.map Char.toUpper := h ▸ (List.takeWhile_prefix isIdChar).map Char.toUpper
  exact beginsWith_iff.2 (hword.trans hprefix)

/-- **The filter stops a forbidden statement** if it begins with a capital letter. -/
theorem isRejected_iff {t : Text} (h : Forbidden t) :
    isRejected t = true ↔ ∃ c, t.head? = some c ∧ c.isUpper := by
  constructor
  · intro hrej
    unfold isRejected at hrej
    split_ifs at hrej with htrans hattach
    · rcases htrans with hc | hc | hc | hc <;> exact ⟨_, hc, by decide⟩
    · rcases hattach with hc | hc <;> exact ⟨_, hc, by decide⟩
  · rintro ⟨c, hhead, hupper⟩
    obtain ⟨t, rfl⟩ : ∃ t', t = c :: t' := by
      cases t with
      | nil => exact nomatch hhead
      | cons d t => exact ⟨t, by rw [Option.some.inj hhead]⟩
    have hc := isIdChar_of_isUpper hupper
    rw [Forbidden, firstWord_of_idChar hc] at h
    -- the capital letter is that of the keyword
    have hfirst : ∀ d kw, ((c :: t).takeWhile isIdChar).map Char.toUpper = d :: kw → c = d :=
      fun d kw hkw => by
        rw [List.takeWhile_cons_of_pos hc, List.map_cons, toUpper_of_isUpper hupper] at hkw
        exact (List.cons.inj hkw).1
    generalize hword : ((c :: t).takeWhile isIdChar).map Char.toUpper = word at h
    have hbegins : ∀ {w : Text}, w <+: word → beginsWith w (c :: t) = true := fun hw =>
      beginsWith_of_takeWhile hw hword
    simp only [forbiddenWords, List.mem_cons, List.not_mem_nil, or_false] at h
    unfold isRejected
    rw [List.head?_cons]
    rcases h with rfl | rfl | rfl | rfl | rfl | rfl | rfl
    all_goals obtain rfl := hfirst _ _ hword
    · rw [if_pos (by decide)]
      exact List.any_eq_true.2 ⟨"BEGIN".toList, by decide, hbegins (by decide)⟩
    · rw [if_pos (by decide)]
      exact List.any_eq_true.2 ⟨"COMMIT".toList, by decide, hbegins (by decide)⟩
    · rw [if_pos (by decide)]
      exact List.any_eq_true.2 ⟨"ROLLBACK".toList, by decide, hbegins (by decide)⟩
    · rw [if_pos (by decide)]
      exact List.any_eq_true.2 ⟨"SAVEPOIN".toList, by decide, hbegins (by decide)⟩
    · rw [if_pos (by decide)]
      exact List.any_eq_true.2 ⟨"RELEASE".toList, by decide, hbegins (by decide)⟩
    · rw [if_neg (by decide), if_pos (by decide)]
      exact List.any_eq_true.2 ⟨"ATTACH".toList, by decide, hbegins (by decide)⟩
    · rw [if_neg (by decide), if_pos (by decide)]
      exact List.any_eq_true.2 ⟨"DETACH".toList, by decide, hbegins (by decide)⟩

/-- **What a command executes is forbidden** only if its source is not covered. -/
theorem Source.forbidden_iff {source : Source} {t : Text} (h : t ∈ source.texts) :
    Forbidden t ↔ ¬source.Covered := by
  cases source with
  | none => exact absurd h List.not_mem_nil
  | statement sql =>
      change t ∈ if isRejected sql = true then [] else [sql] at h
      split_ifs at h with hrej
      · exact absurd h List.not_mem_nil
      · obtain rfl := List.mem_singleton.1 h
        refine ⟨fun hforbidden hcovered => ?_, fun hcovered => ?_⟩
        · exact hrej ((isRejected_iff hforbidden).2 (hcovered hforbidden))
        · by_contra hforbidden
          exact hcovered fun hf => absurd hf hforbidden
  | query sql =>
      obtain rfl := List.mem_singleton.1 h
      exact not_not.symm
  | set sql rest =>
      obtain rfl := List.mem_singleton.1 h
      exact iff_of_false (not_forbidden_setText _ _) (not_not.2 trivial)
  | ret sql | raise sql | cond sql =>
      obtain rfl := List.mem_singleton.1 h
      exact iff_of_false (not_forbidden_selectText _) (not_not.2 trivial)
  | assert sql sql2 =>
      refine iff_of_false ?_ (not_not.2 trivial)
      rcases List.mem_cons.1 h with rfl | h
      · exact not_forbidden_selectText _
      · obtain rfl := List.mem_singleton.1 h
        exact not_forbidden_selectText _

/-! ## The procedure -/

/-- The state, and the texts whose statements were stepped, with their commands. -/
structure Logged (σ : Type) where
  state : σ
  stepped : List (ℕ × Text)

/-- The SQL engine under the commands.  A statement is executed to its end, and its values are
stored where the command has them. -/
structure SqlEngine (σ : Type) where
  /-- `sqlite3_prepare_v2`. -/
  prepare : Text → σ → Rc
  /-- `sqlite3_step` until the end. -/
  run : ℕ → Text → σ → Rc × σ
  /-- The condition was true. -/
  isTrue : ℕ → σ → Bool

variable {σ : Type}

/-- A text is prepared, and its statement is stepped. -/
def SqlEngine.exec (sql : SqlEngine σ) (pos : ℕ) (t : Text) (s : Logged σ) : Rc × Logged σ :=
  match sql.prepare t s.state with
  | .ok => ((sql.run pos t s.state).1, ⟨(sql.run pos t s.state).2, s.stepped ++ [(pos, t)]⟩)
  | rc => (rc, s)

/-- `executeStatementCommand`. -/
def SqlEngine.executeStatementCommand (sql : SqlEngine σ) (pos : ℕ) (t : Text) (s : Logged σ) :
    Rc × Logged σ :=
  if isRejected t then (.error, s) else sql.exec pos t s

/-- `executeAssertCommand`. -/
def SqlEngine.executeAssertCommand (sql : SqlEngine σ) (pos : ℕ) (t t2 : Text) (s : Logged σ) :
    Rc × Logged σ :=
  match sql.exec pos (selectText t) s with
  | (.ok, s) =>
    if sql.isTrue pos s.state then (.ok, s)
    else
      match sql.exec pos (printfText t2) s with
      | (.ok, s) => (.error, s)
      | r => r
  | r => r

/-- What steps no statement. -/
def Logged.lift {β : Type} (f : σ → β × σ) (s : Logged σ) : β × Logged σ :=
  ((f s.state).1, { s with state := (f s.state).2 })

/-- An engine whose commands have these sources. -/
def Engine.withSources (e : Engine σ) (sql : SqlEngine σ) (source : ℕ → Source) :
    Engine (Logged σ) where
  execute pos s :=
    match source pos with
    | .statement t => sql.executeStatementCommand pos t s
    | .set t rest => sql.exec pos (setText t rest) s
    | .ret t => sql.exec pos (selectText t) s
    | .raise t => sql.exec pos (printfText t) s
    | .assert t t2 => sql.executeAssertCommand pos t t2 s
    | _ => s.lift (e.execute pos)
  expression pos s :=
    match source pos with
    | .cond t =>
      match sql.exec pos (selectText t) s with
      | (.ok, s) => (.ok (sql.isTrue pos s.state), s)
      | (rc, s) => (.error rc, s)
    | _ => s.lift (e.expression pos)
  input pos s :=
    match source pos with
    | .query _ => .sql
    | _ =>
      match e.input pos s.state with
      | .sql => .invalid
      | input => input
  prepare pos s :=
    match source pos with
    | .query t => (sql.prepare t s.state, s)
    | _ => s.lift (e.prepare pos)
  step pos s :=
    match source pos with
    | .query t => ((e.step pos s.state).1,
        ⟨(e.step pos s.state).2, s.stepped ++ [(pos, t)]⟩)
    | _ => s.lift (e.step pos)
  store pos item s := s.lift (e.store pos item)
  savepoint s := s.lift e.savepoint
  copyProcedureParameters s := { s with state := e.copyProcedureParameters s.state }
  release failed rc s := s.lift (e.release failed rc)

/-! ## Runs -/

/-- What every function of an engine keeps. -/
structure Engine.Keeps (e : Engine σ) (P : σ → Prop) : Prop where
  execute : ∀ pos s, P s → P (e.execute pos s).2
  expression : ∀ pos s, P s → P (e.expression pos s).2
  prepare : ∀ pos s, P s → P (e.prepare pos s).2
  step : ∀ pos s, P s → P (e.step pos s).2
  store : ∀ pos item s, P s → P (e.store pos item s).2
  savepoint : ∀ s, P s → P (e.savepoint s).2
  copyProcedureParameters : ∀ s, P s → P (e.copyProcedureParameters s)
  release : ∀ failed rc s, P s → P (e.release failed rc s).2

namespace Engine.Keeps

variable {e : Engine σ} {P : σ → Prop}

theorem storeRow (h : e.Keeps P) (pos item next : ℕ) {s : σ} (hs : P s) :
    P (StoredProc.storeRow e pos item next s).2.2 := by
  have hstore := h.store pos item s hs
  unfold StoredProc.storeRow
  generalize e.store pos item s = r at hstore
  obtain ⟨rc, t⟩ := r
  cases rc <;> exact hstore

theorem executeForeachCommand (h : e.Keeps P) (pos item : ℕ) {s : σ} (hs : P s) :
    P (StoredProc.executeForeachCommand e pos item s).2.2 := by
  unfold StoredProc.executeForeachCommand
  cases e.input pos s with
  | invalid => exact hs
  | list numItems =>
      dsimp only
      split_ifs
      · exact hs
      · exact h.storeRow pos item (item + 1) hs
  | sql =>
      have hprepare : P (if item = 0 then e.prepare pos s else (.ok, s)).2 := by
        split_ifs
        · exact h.prepare pos s hs
        · exact hs
      dsimp only
      generalize (if item = 0 then e.prepare pos s else (.ok, s)) = r at hprepare
      obtain ⟨rc, t⟩ := r
      cases rc <;> try exact hprepare
      have hstep := h.step pos t hprepare
      dsimp only
      generalize e.step pos t = r at hstep
      obtain ⟨result, u⟩ := r
      cases result with
      | row => exact h.storeRow pos item (item + 1) hstep
      | done => exact hstep
      | error rc => exact hstep

/-- **A command keeps it.** -/
theorem executeCommand (h : e.Keeps P) (cmds : List Command) (pos : ℕ) (cmd : Command)
    {s : Execution σ} (hs : P s.world.state) :
    P (StoredProc.executeCommand e cmds pos cmd s).2.world.state := by
  have hexecute : P (s.world.execute e pos).2.state := h.execute pos s.world.state hs
  have htest : P (s.world.test e pos).2.state := h.expression pos s.world.state hs
  have hfetch : P (s.world.fetch e pos (s.currentItem pos)).2.2.state :=
    h.executeForeachCommand pos (s.currentItem pos) hs
  unfold StoredProc.executeCommand
  generalize s.world.execute e pos = r at hexecute
  generalize s.world.test e pos = r' at htest
  generalize s.world.fetch e pos (s.currentItem pos) = r'' at hfetch
  obtain ⟨rc, w⟩ := r
  obtain ⟨result, w'⟩ := r'
  obtain ⟨fetch, next, w''⟩ := r''
  cases cmd.type with
  | declare | endif | loop | endloop | cont | brk => exact hs
  | set | statement | assert | ret | raise => cases rc <;> exact hexecute
  | cond =>
      match result with
      | .error rc => exact htest
      | .ok true => exact htest
      | .ok false => exact htest
  | elseif =>
      cases s.executed cmd.relatedCmd with
      | true => exact hs
      | false =>
          match result with
          | .error rc => exact htest
          | .ok true => exact htest
          | .ok false => exact htest
  | els => cases s.executed cmd.relatedCmd <;> exact hs
  | foreach => cases fetch <;> exact hfetch

theorem commandLoop (h : e.Keeps P) (cmds : List Command) (fuel pos : ℕ) {s : Execution σ}
    (hs : P s.world.state) :
    P (StoredProc.commandLoop e cmds fuel pos s).2.world.state := by
  induction fuel generalizing pos s with
  | zero => exact hs
  | succ fuel ih =>
      unfold StoredProc.commandLoop
      cases cmds[pos]? with
      | none => exact hs
      | some cmd =>
          have hnext := h.executeCommand cmds pos cmd hs
          dsimp only
          generalize StoredProc.executeCommand e cmds pos cmd s = r at hnext
          obtain ⟨next, t⟩ := r
          cases next with
          | goto pos => exact ih pos hnext
          | ended x => exact hnext

/-- **A call keeps it.** -/
theorem executeStoredProcedure (h : e.Keeps P) (cmds : List Command) (fuel : ℕ)
    {s : Execution σ} (hs : P s.world.state) :
    P (StoredProc.executeStoredProcedure e cmds fuel s).2.world.state := by
  have hsavepoint := h.savepoint s.world.state hs
  unfold StoredProc.executeStoredProcedure withSavepoint
  generalize e.savepoint s.world.state = r at hsavepoint
  obtain ⟨rc, state⟩ := r
  cases rc <;> try exact hsavepoint
  have hloop := @commandLoop σ e P h cmds fuel 0 (s.put (e.copyProcedureParameters state))
    (h.copyProcedureParameters state hsavepoint)
  dsimp only
  generalize StoredProc.commandLoop e cmds fuel 0 _ = r at hloop
  obtain ⟨x, t⟩ := r
  cases x with
  | running => exact hloop
  | exit rc => exact h.release false rc _ hloop
  | error rc => exact h.release true rc _ hloop

end Engine.Keeps

/-- Every statement that was stepped is one of its command. -/
def Logged.Faithful (source : ℕ → Source) (s : Logged σ) : Prop :=
  ∀ x ∈ s.stepped, x.2 ∈ (source x.1).texts

section Faithful

variable {source : ℕ → Source} {s : Logged σ} {sql : SqlEngine σ}

theorem Logged.Faithful.append (h : s.Faithful source) {pos : ℕ} {t : Text}
    (ht : t ∈ (source pos).texts) (state : σ) :
    Logged.Faithful source ⟨state, s.stepped ++ [(pos, t)]⟩ := by
  intro x hx
  rcases List.mem_append.1 hx with hx | hx
  · exact h x hx
  · obtain rfl := List.mem_singleton.1 hx
    exact ht

theorem Logged.Faithful.exec (h : s.Faithful source) {pos : ℕ} {t : Text}
    (ht : t ∈ (source pos).texts) : (sql.exec pos t s).2.Faithful source := by
  unfold SqlEngine.exec
  cases sql.prepare t s.state <;> first | exact h.append ht _ | exact h

theorem Logged.Faithful.executeStatementCommand (h : s.Faithful source) {pos : ℕ} {t : Text}
    (ht : source pos = .statement t) :
    (sql.executeStatementCommand pos t s).2.Faithful source := by
  unfold SqlEngine.executeStatementCommand
  split_ifs with hrej
  · exact h
  · refine h.exec ?_
    rw [ht, Source.texts, if_neg hrej]
    exact List.mem_singleton_self t

theorem Logged.Faithful.executeAssertCommand (h : s.Faithful source) {pos : ℕ} {t t2 : Text}
    (ht : source pos = .assert t t2) :
    (sql.executeAssertCommand pos t t2 s).2.Faithful source := by
  have hfirst : (sql.exec pos (selectText t) s).2.Faithful source :=
    h.exec (by rw [ht]; exact List.mem_cons_self ..)
  unfold SqlEngine.executeAssertCommand
  generalize sql.exec pos (selectText t) s = r at hfirst
  obtain ⟨rc, u⟩ := r
  cases rc <;> try exact hfirst
  have hsecond : (sql.exec pos (printfText t2) u).2.Faithful source :=
    Logged.Faithful.exec hfirst
      (by rw [ht]; exact List.mem_cons_of_mem _ (List.mem_cons_self ..))
  dsimp only
  split_ifs
  · exact hfirst
  · generalize sql.exec pos (printfText t2) u = r at hsecond
    obtain ⟨rc, v⟩ := r
    cases rc <;> exact hsecond

/-- **An engine steps no other statements** than those of its commands. -/
theorem keeps_faithful (e : Engine σ) (sql : SqlEngine σ) (source : ℕ → Source) :
    (e.withSources sql source).Keeps (Logged.Faithful source) where
  execute pos s hs := by
    dsimp only [Engine.withSources]
    split
    · rename_i t ht
      exact hs.executeStatementCommand ht
    · rename_i t rest ht
      exact hs.exec (by rw [ht]; exact List.mem_singleton_self _)
    · rename_i t ht
      exact hs.exec (by rw [ht]; exact List.mem_singleton_self _)
    · rename_i t ht
      exact hs.exec (by rw [ht]; exact List.mem_singleton_self _)
    · rename_i t t2 ht
      exact hs.executeAssertCommand ht
    · exact hs
  expression pos s hs := by
    dsimp only [Engine.withSources]
    split
    · rename_i t ht
      have hexec : (sql.exec pos (selectText t) s).2.Faithful source :=
        hs.exec (by rw [ht]; exact List.mem_singleton_self _)
      generalize sql.exec pos (selectText t) s = r at hexec
      obtain ⟨rc, u⟩ := r
      cases rc <;> exact hexec
    · exact hs
  prepare pos s hs := by
    dsimp only [Engine.withSources]
    split <;> exact hs
  step pos s hs := by
    dsimp only [Engine.withSources]
    split
    · rename_i t ht
      exact hs.append (by rw [ht]; exact List.mem_singleton_self _) _
    · exact hs
  store pos item s hs := hs
  savepoint s hs := hs
  copyProcedureParameters s hs := hs
  release failed rc s hs := hs

end Faithful

/-- **A call executes a forbidden statement** exactly if a command whose statement it steps is not
covered. -/
theorem forbidden_stepped_iff (e : Engine σ) (sql : SqlEngine σ) (source : ℕ → Source)
    (cmds : List Command) (fuel : ℕ) {s t : Execution (Logged σ)} {rc : Option Rc}
    (hs : s.world.state.stepped = [])
    (ht : executeStoredProcedure (e.withSources sql source) cmds fuel s = (rc, t)) :
    (∀ x ∈ t.world.state.stepped, ¬Forbidden x.2) ↔
      ∀ x ∈ t.world.state.stepped, (source x.1).Covered := by
  have hfaithful : t.world.state.Faithful source := by
    have hkeeps := (keeps_faithful e sql source).executeStoredProcedure cmds fuel (s := s)
      fun x hx => by rw [hs] at hx; exact absurd hx List.not_mem_nil
    rwa [ht] at hkeeps
  refine forall₂_congr fun x hx => ?_
  rw [Source.forbidden_iff (hfaithful x hx), not_not]

/-! ## Every statement that is not covered -/

/-- An engine on which everything succeeds. -/
def plainEngine : Engine Unit where
  execute _ _ := (.ok, ())
  expression _ _ := (.ok true, ())
  input _ _ := .invalid
  prepare _ _ := (.ok, ())
  step _ _ := (.done, ())
  store _ _ _ := (.ok, ())
  savepoint _ := (.ok, ())
  copyProcedureParameters _ := ()
  release _ rc _ := (rc, ())

/-- Every text is a statement that succeeds. -/
def plainSql : SqlEngine Unit := ⟨fun _ _ => .ok, fun _ _ _ => (.ok, ()), fun _ _ => true⟩

/-- A procedure that has one command, after declarations. -/
def singleCommand (pos : ℕ) (type : CommandType) : List Command :=
  List.replicate pos ⟨.declare, 0, 0⟩ ++ [⟨type, 0, pos⟩]

/-- Declarations are passed over. -/
theorem commandLoop_declare (e : Engine σ) (type : CommandType) {pos : ℕ} (n i fuel : ℕ)
    (h : i + n = pos) (s : Execution σ) :
    commandLoop e (singleCommand pos type) (n + fuel) i s =
      commandLoop e (singleCommand pos type) fuel pos s := by
  induction n generalizing i with
  | zero => rw [Nat.zero_add, ← h, Nat.add_zero]
  | succ n ih =>
      have hcmd : (singleCommand pos type)[i]? = some ⟨.declare, 0, 0⟩ := by
        rw [singleCommand, List.getElem?_append_left (by rw [List.length_replicate]; omega),
          List.getElem?_replicate, if_pos (by omega)]
      rw [show n + 1 + fuel = n + fuel + 1 by omega, commandLoop, hcmd]
      exact ih (i + 1) (by omega)

/-- The command of a procedure that has one is executed. -/
theorem commandLoop_single {e : Engine σ} {type : CommandType} {pos : ℕ} {s t : Execution σ}
    (h : executeCommand e (singleCommand pos type) pos ⟨type, 0, pos⟩ s = (.goto (pos + 1), t)) :
    commandLoop e (singleCommand pos type) (pos + 2) 0 s = (.exit .ok, t) := by
  have hcmd : (singleCommand pos type)[pos]? = some ⟨type, 0, pos⟩ := by
    rw [singleCommand, List.getElem?_append_right (Nat.le_of_eq List.length_replicate),
      List.length_replicate, Nat.sub_self]
    rfl
  have hend : (singleCommand pos type)[pos + 1]? = none := by
    rw [List.getElem?_eq_none_iff, singleCommand, List.length_append, List.length_replicate]
    exact Nat.le_refl _
  rw [commandLoop_declare e type pos 0 2 (Nat.zero_add pos), commandLoop, hcmd]
  dsimp only
  rw [h]
  dsimp only
  rw [commandLoop, hend]

/-- What the call of such a procedure executes. -/
theorem call_single {source : ℕ → Source} {type : CommandType} {pos : ℕ}
    {t : Execution (Logged Unit)}
    (h : executeCommand (plainEngine.withSources plainSql source) (singleCommand pos type) pos
      ⟨type, 0, pos⟩ (Execution.parsed ⟨(), []⟩) = (.goto (pos + 1), t)) :
    executeStoredProcedure (plainEngine.withSources plainSql source) (singleCommand pos type)
      (pos + 2) (.parsed ⟨(), []⟩) = (some .ok, t) := by
  have hloop := commandLoop_single h
  unfold executeStoredProcedure withSavepoint
  dsimp only [Engine.withSources, Logged.lift, plainEngine]
  exact congrArg (finishCall _ _ _) hloop

/-- A statement that is not rejected is executed. -/
theorem statement_stepped {source : ℕ → Source} {pos : ℕ} {t : Text}
    (hsource : source pos = .statement t) (hrej : ¬isRejected t = true) :
    ∃ u, executeStoredProcedure (plainEngine.withSources plainSql source)
        (singleCommand pos .statement) (pos + 2) (Execution.parsed ⟨(), []⟩) = (some .ok, u) ∧
      (pos, t) ∈ u.world.state.stepped := by
  have hexec : (plainEngine.withSources plainSql source).execute pos ⟨(), []⟩ =
      (.ok, ⟨(), [(pos, t)]⟩) := by
    dsimp only [Engine.withSources]
    rw [hsource]
    exact if_neg hrej
  refine ⟨⟨⟨⟨(), [(pos, t)]⟩, [.executed pos]⟩, fun _ => false, fun _ => 0⟩,
    call_single ?_, List.mem_singleton_self _⟩
  have hworld : World.execute (plainEngine.withSources plainSql source) pos ⟨⟨(), []⟩, []⟩ =
      (.ok, ⟨⟨(), [(pos, t)]⟩, [.executed pos]⟩) :=
    congrArg (fun r : Rc × Logged Unit => (r.1, World.mk r.2 [.executed pos])) hexec
  dsimp only [executeCommand, Execution.parsed]
  rw [hworld]

/-- The query of a FOREACH is executed. -/
theorem query_stepped {source : ℕ → Source} {pos : ℕ} {t : Text}
    (hsource : source pos = .query t) :
    ∃ u, executeStoredProcedure (plainEngine.withSources plainSql source)
        (singleCommand pos .foreach) (pos + 2) (Execution.parsed ⟨(), []⟩) = (some .ok, u) ∧
      (pos, t) ∈ u.world.state.stepped := by
  have hfetch : executeForeachCommand (plainEngine.withSources plainSql source) pos 0 ⟨(), []⟩ =
      (.done, 0, ⟨(), [(pos, t)]⟩) := by
    dsimp only [executeForeachCommand, Engine.withSources]
    rw [hsource]
    rfl
  refine ⟨⟨⟨⟨(), [(pos, t)]⟩, [.fetched pos 0 0]⟩, fun _ => false,
    Function.update (fun _ => 0) pos 0⟩, call_single ?_, List.mem_singleton_self _⟩
  have hworld : World.fetch (plainEngine.withSources plainSql source) pos 0 ⟨⟨(), []⟩, []⟩ =
      (.done, 0, ⟨⟨(), [(pos, t)]⟩, [.fetched pos 0 0]⟩) :=
    congrArg (fun r : Fetch × ℕ × Logged Unit =>
      (r.1, r.2.1, World.mk r.2.2 [.fetched pos 0 r.2.1])) hfetch
  dsimp only [executeCommand, Execution.parsed]
  rw [hworld]

/-- **The filter of the commands**: in no call of a procedure with these statements a forbidden one
is executed, exactly if each of its plain statements that are forbidden begins with a capital
letter, and no query of a FOREACH is forbidden. -/
theorem filter_iff (source : ℕ → Source) :
    (∀ (σ : Type) (e : Engine σ) (sql : SqlEngine σ) (cmds : List Command) (fuel : ℕ)
      (s t : Execution (Logged σ)) (rc : Option Rc), s.world.state.stepped = [] →
      executeStoredProcedure (e.withSources sql source) cmds fuel s = (rc, t) →
      ∀ x ∈ t.world.state.stepped, ¬Forbidden x.2) ↔
    ∀ pos, (source pos).Covered := by
  constructor
  · intro h pos
    have hsingle := fun cmds fuel => h Unit plainEngine plainSql cmds fuel (.parsed ⟨(), []⟩)
    cases hsource : source pos with
    | statement t =>
        intro hforbidden
        by_contra hupper
        have hrej : ¬isRejected t = true := fun hr => hupper ((isRejected_iff hforbidden).1 hr)
        obtain ⟨u, hcall, hmem⟩ := statement_stepped hsource hrej
        exact hsingle _ _ _ _ rfl hcall (pos, t) hmem hforbidden
    | query t =>
        obtain ⟨u, hcall, hmem⟩ := query_stepped hsource
        exact hsingle _ _ _ _ rfl hcall (pos, t) hmem
    | none | set | ret | raise | assert | cond => trivial
  · intro h σ e sql cmds fuel s t rc hs ht
    exact (forbidden_stepped_iff e sql source cmds fuel hs ht).2 fun x _ => h x.1

/-- **`commit; /* */ DETACH aux; FOREACH VALUE IN Rollback DO END LOOP;`** executes all three. -/
theorem forbidden_executed : ¬∀ x ∈ (executeStoredProcedure (plainEngine.withSources plainSql
    fun pos => if pos = 0 then .statement "commit".toList
      else if pos = 1 then .statement "/* */ DETACH aux".toList
      else if pos = 2 then .query "Rollback ".toList else .none)
    [⟨.statement, 0, 0⟩, ⟨.statement, 0, 0⟩, ⟨.foreach, 0, 3⟩, ⟨.endloop, 0, 2⟩] 5
    (Execution.parsed ⟨(), []⟩)).2.world.state.stepped, ¬Forbidden x.2 := by
  decide +kernel

end StoredProc
end AergoLite
