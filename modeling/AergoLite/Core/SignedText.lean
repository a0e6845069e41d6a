/-
# What a signed text determines

A signature is made on the text of `serialize_transaction_to_string`: the nonce,
the date and the commands, each on a line of its own.  Two accepted logs with
one signed text have the same nonce if each carries a single `int64` item, the
same lines after it, and, if no newline occurs in a date or in a command, the
same date and the same commands (`verified_eq_of_same_text`).

The text does not show whether the transaction is special, a command that holds
a newline reads as two commands, and of several `int64` items the text has the
last while the nonce is the first (`verified_ne_of_same_text`).
-/

import AergoLite.Core.Transactions

namespace AergoLite
namespace Core

/-- A printed number has no character but digits and a minus sign. -/
theorem notMem_int64Text {c : Char} (hdigit : c.isDigit = false) (hminus : c ≠ '-') (n : ℤ) :
    c ∉ int64Text n := by
  have hdigits : c ∉ Nat.toDigits 10 n.natAbs := fun h =>
    absurd (Nat.isDigit_of_mem_toDigits (by decide) (by decide) h) (by simp [hdigit])
  unfold int64Text
  split_ifs
  · simpa [hminus] using hdigits
  · exact hdigits

/-- A printed number is one line. -/
theorem newline_notMem_int64Text (n : ℤ) : '\n' ∉ int64Text n :=
  notMem_int64Text (by decide) (by decide) n

theorem toDigits_injective {m n : ℕ} (h : Nat.toDigits 10 m = Nat.toDigits 10 n) : m = n := by
  rw [← Nat.ofDigitChars_toDigits (b := 10) (n := m) (by decide) (by decide), h,
    Nat.ofDigitChars_toDigits (by decide) (by decide)]

theorem minus_notMem_toDigits (n : ℕ) : '-' ∉ Nat.toDigits 10 n := fun h =>
  absurd (Nat.isDigit_of_mem_toDigits (by decide) (by decide) h) (by decide)

/-- Different numbers are printed differently. -/
theorem int64Text_injective {m n : ℤ} (h : int64Text m = int64Text n) : m = n := by
  unfold int64Text at h
  split_ifs at h with hm hn hn
  · have := toDigits_injective (List.cons.inj h).2
    omega
  · exact absurd (h ▸ List.mem_cons_self) (minus_notMem_toDigits n.natAbs)
  · exact absurd (h ▸ List.mem_cons_self) (minus_notMem_toDigits m.natAbs)
  · have := toDigits_injective h
    omega

/-- What comes before the first separator, and the rest. -/
theorem field_inj {sep : Char} {x x' y y' : Text} (hx : sep ∉ x) (hx' : sep ∉ x')
    (h : x ++ sep :: y = x' ++ sep :: y') : x = x' ∧ y = y' := by
  induction x generalizing x' with
  | nil =>
      cases x' with
      | nil => exact ⟨rfl, (List.cons.inj h).2⟩
      | cons a x' => exact absurd ((List.cons.inj h).1 ▸ List.mem_cons_self) hx'
  | cons a x ih =>
      cases x' with
      | nil => exact absurd ((List.cons.inj h).1 ▸ List.mem_cons_self) hx
      | cons b x' =>
          obtain ⟨rfl, htail⟩ := List.cons.inj h
          obtain ⟨rfl, rfl⟩ := ih (fun hmem => hx (List.mem_cons_of_mem _ hmem))
            (fun hmem => hx' (List.mem_cons_of_mem _ hmem)) htail
          exact ⟨rfl, rfl⟩

/-- The lines after the nonce: the date and the commands. -/
def signedLines (datetime : Text) (commands : List Text) : Text :=
  ['\n'].intercalate (datetime :: commands)

theorem signedLines_eq (datetime : Text) (commands : List Text) :
    signedLines datetime commands = datetime ++ commands.flatMap fun sql => '\n' :: sql := by
  induction commands generalizing datetime with
  | nil => simp [signedLines]
  | cons sql commands ih =>
      rw [signedLines, List.intercalate_cons_cons, ← signedLines, ih]
      simp

/-- Texts without a newline are read back from their lines. -/
theorem signedLines_injective {datetime datetime' : Text} {commands commands' : List Text}
    (h : signedLines datetime commands = signedLines datetime' commands')
    (hlines : ∀ l ∈ datetime :: commands, '\n' ∉ l)
    (hlines' : ∀ l ∈ datetime' :: commands', '\n' ∉ l) :
    datetime = datetime' ∧ commands = commands' := by
  have hsplit := List.splitOn_intercalate '\n' hlines (List.cons_ne_nil _ _)
  have hsplit' := List.splitOn_intercalate '\n' hlines' (List.cons_ne_nil _ _)
  unfold signedLines at h
  exact List.cons.inj (hsplit.symm.trans ((congrArg (List.splitOn '\n') h).trans hsplit'))

/-- The signed text is the last `int64` item and the lines after it. -/
theorem serializeTransactionToString_eq {log : Log} {data : Text} :
    serializeTransactionToString log = some data ↔
      ∃ datetime, getTransactionItem BinnValue.datetime? log = some datetime ∧
        data = int64Text ((logInt64s log).getLastD 0) ++
          '\n' :: signedLines datetime (logCommands log) := by
  simp [serializeTransactionToString, signedLines_eq, eq_comm]

/-- With a single `int64` item the number that is signed is the nonce. -/
theorem getLastD_eq_getTransactionNonce {log : Log} (h : (logInt64s log).length ≤ 1) :
    (logInt64s log).getLastD 0 = getTransactionNonce log := by
  unfold getTransactionNonce
  match logInt64s log, h with
  | [], _ => rfl
  | [n], _ => rfl

/-- Logs of one kind with the same commands run the same commands. -/
theorem commandsToRun_congr {log log' : Log} (hspecial : isSpecialTransaction log =
    isSpecialTransaction log') (h : logCommands log = logCommands log') :
    commandsToRun log = commandsToRun log' := by
  have hfirst : ∀ l : Log, getTransactionItem BinnValue.string? l = (logCommands l).head? := by
    intro l
    rw [getTransactionItem, logCommands, List.head?_filterMap]
  unfold commandsToRun txnSqlCount
  rw [hspecial, h, hfirst, hfirst, h]

/-- **What a signed text determines.**  Two accepted logs with the same signed
text have the same nonce if each carries a single `int64` item, and they have
the same lines after the nonce.  If no newline occurs in their dates and
commands, these are the same, and so are the commands that are executed when
both are special or neither is. -/
theorem verified_eq_of_same_text {c : Crypto} {adminPubkey : Bytes} {auths auths' : List NodeAuth}
    {nodeId nodeId' nonce nonce' : ℤ} {log log' : Log} {datetime datetime' : Text}
    (h : aergoliteVerifyTransaction c adminPubkey auths nodeId log =
      some (.ok (nonce, datetime)))
    (h' : aergoliteVerifyTransaction c adminPubkey auths' nodeId' log' =
      some (.ok (nonce', datetime')))
    (htext : serializeTransactionToString log = serializeTransactionToString log') :
    ((logInt64s log).length ≤ 1 → (logInt64s log').length ≤ 1 → nonce = nonce') ∧
      signedLines datetime (logCommands log) = signedLines datetime' (logCommands log') ∧
      ((∀ l ∈ datetime :: logCommands log, '\n' ∉ l) →
        (∀ l ∈ datetime' :: logCommands log', '\n' ∉ l) →
        datetime = datetime' ∧ logCommands log = logCommands log' ∧
          (isSpecialTransaction log = isSpecialTransaction log' →
            commandsToRun log = commandsToRun log')) := by
  obtain ⟨_, _, _, data, v⟩ := aergoliteVerifyTransaction_eq_ok.1 h
  obtain ⟨_, _, _, data', v'⟩ := aergoliteVerifyTransaction_eq_ok.1 h'
  obtain ⟨date, hdate, hdata⟩ := serializeTransactionToString_eq.1 v.data_eq
  obtain ⟨date', hdate', hdata'⟩ := serializeTransactionToString_eq.1 v'.data_eq
  obtain rfl : date = datetime := Option.some.inj (hdate.symm.trans v.datetime_eq)
  obtain rfl : date' = datetime' := Option.some.inj (hdate'.symm.trans v'.datetime_eq)
  have hsame : data = data' := by
    have := v.data_eq.symm.trans (htext.trans v'.data_eq)
    exact Option.some.inj this
  rw [hdata, hdata'] at hsame
  obtain ⟨hnonce, hlines⟩ :=
    field_inj (newline_notMem_int64Text _) (newline_notMem_int64Text _) hsame
  refine ⟨fun hone hone' => ?_, hlines, fun hnl hnl' => ?_⟩
  · rw [← v.nonce_eq, ← v'.nonce_eq, ← getLastD_eq_getTransactionNonce hone,
      ← getLastD_eq_getTransactionNonce hone']
    exact int64Text_injective hnonce
  · obtain ⟨hd, hc⟩ := signedLines_injective hlines hnl hnl'
    exact ⟨hd, hc, fun hspecial => commandsToRun_congr hspecial hc⟩

/-- The list with a single node, and the check of its logs. -/
def verifyOfNodeOne (log : Log) : Option (Except Rc (ℤ × Text)) :=
  aergoliteVerifyTransaction plainCrypto (List.replicate 33 9)
    [⟨List.replicate 33 1, 1, false, 1, 4, 4⟩] 1 log

/-- A log of that node with the given `int64` items and commands. -/
def logOfNodeOne (numbers : List ℤ) (commands : List String) (special : Bool) : Log :=
  signedByNode (List.replicate 33 1) (numbers.map .int64 ++ [.datetime "d".toList] ++
    commands.map (fun sql => .string sql.toList) ++ [.bool special])

/-- The hypotheses hold of a log and of the same log with another item. -/
theorem verified_eq_of_same_text_add_item :
    let log := logOfNodeOne [5] ["CALL a()", "CALL b()"] false
    commandsToRun log = commandsToRun (.other :: log) :=
  ((verified_eq_of_same_text
    (show verifyOfNodeOne _ = some (.ok (5, "d".toList)) by decide)
    (show verifyOfNodeOne _ = some (.ok (5, "d".toList)) by decide)
    (by decide)).2.2 (by decide) (by decide)).2.2 (by decide)

/-- **What a signed text leaves open.**  One signature is accepted for two
commands and for a single one of two lines, for an ordinary and for a special
transaction, and with another nonce in front of the signed one. -/
theorem verified_ne_of_same_text :
    let two := logOfNodeOne [5] ["CALL a()", "CALL b()"] false
    let one := logOfNodeOne [5] ["CALL a()\nCALL b()"] false
    let special := logOfNodeOne [5] ["CALL a()", "CALL b()"] true
    let renumbered := logOfNodeOne [6, 5] ["CALL a()", "CALL b()"] false
    (∀ log ∈ [two, one, special],
      verifyOfNodeOne log = some (.ok (5, "d".toList)) ∧
        serializeTransactionToString log = serializeTransactionToString two) ∧
    verifyOfNodeOne renumbered = some (.ok (6, "d".toList)) ∧
    serializeTransactionToString renumbered = serializeTransactionToString two ∧
    commandsToRun one ≠ commandsToRun two ∧
    isSpecialTransaction special ≠ isSpecialTransaction two := by
  decide

end Core
end AergoLite
