/-
# The memory of the signed text

`serialize_transaction_to_string` of `core/sqlite3.c` counts 64 bytes and each string item of the
log with two more, allocates that much and then writes the nonce, the date and the strings.  It
runs on a log that a peer has sent, before its signature is checked.  The date is neither counted
nor looked for first: the function is defined exactly for the logs that have a date which fits
into what the 64 bytes leave (`serializeTransaction_safe_iff`).
-/

import AergoLite.Core.SignedText
import AergoLite.Library.CString

namespace AergoLite
namespace Core

open CString

/-- What `strcat` takes of a text of `binn`. -/
abbrev cText (s : Text) : Text := upToTerminator (Char.ofNat 0) s

/-- What the first pass makes of an item: `size`, which is an `int`, and the last nonce. -/
def countItem (counted : BitVec 32 × ℤ) : BinnValue → BitVec 32 × ℤ
  | .string s => (counted.1 + (BitVec.ofNat 32 s.length + 2#32), counted.2)
  | .int64 n => (counted.1, n)
  | _ => counted

/-- The first pass over the log. -/
def countStringSize (log : Log) : BitVec 32 × ℤ := log.foldl countItem (64#32, 0)

/-- What the second pass makes of an item: a newline and the text of a string. -/
def addItem {capacity : ℕ} (data : Buffer Char capacity) :
    BinnValue → Except Fault (Buffer Char capacity)
  | .string s => (data.append (some ['\n'])).bind (·.append (some (cText s)))
  | _ => .ok data

/-- The second pass over the log. -/
def addCommands {capacity : ℕ} (data : Buffer Char capacity) (log : Log) :
    Except Fault (Buffer Char capacity) := log.foldlM addItem data

/-- `serialize_transaction_to_string`, with the memory it writes to; the text is absent where
none is allocated. -/
def serializeTransaction (available : ℕ → Bool) (log : Log) : Except Fault (Option Text) :=
  let (size, nonce) := countStringSize log
  if sqlite3Malloc available size = false then .ok none
  else
    let line := int64Text nonce ++ ['\n']
    if h : line.length < size.toNat then
      let data : Buffer Char size.toNat := ⟨line, h⟩
      ((data.append ((getTransactionItem BinnValue.datetime? log).map cText)).bind
        (addCommands · log)).map fun data => some data.text
    else .error .overflow

/-- A log as `binn` can hold it: its size is an `int`, and a string takes its type, its size, the
text and a terminator. -/
structure ReceivedLog where
  items : Log
  size_lt : ((logCommands items).map fun s => s.length + 3).sum < 2 ^ 31
  nonces : ∀ n ∈ logInt64s items, -2 ^ 63 ≤ n ∧ n < 2 ^ 63

/-- The date is there, and it fits into what the nonce leaves of the 64 bytes, and the strings of
what is counted for them. -/
def DateFits (log : Log) : Prop :=
  ∃ datetime, getTransactionItem BinnValue.datetime? log = some datetime ∧
    (int64Text ((logInt64s log).getLastD 0)).length + (cText datetime).length +
        ((logCommands log).map fun sql => (cText sql).length).sum + 2 ≤
      64 + (logCommands log).length + ((logCommands log).map List.length).sum

/-! ## The two passes -/

/-- The size that is counted. -/
theorem foldl_countItem (log : Log) (size : ℕ) (nonce : ℤ) :
    log.foldl countItem (BitVec.ofNat 32 size, nonce) =
      (BitVec.ofNat 32 (size + ((logCommands log).map (·.length + 2)).sum),
        (logInt64s log).getLastD nonce) := by
  induction log generalizing size nonce with
  | nil => rfl
  | cons value log ih =>
      rw [List.foldl_cons]
      cases value with
      | string s =>
          have hadd : countItem (BitVec.ofNat 32 size, nonce) (.string s) =
              (BitVec.ofNat 32 (size + (s.length + 2)), nonce) := by
            rw [BitVec.ofNat_add, BitVec.ofNat_add]
            rfl
          rw [hadd, ih]
          simp [logCommands, logInt64s, BinnValue.string?, BinnValue.int64?, Nat.add_assoc]
      | int64 n =>
          have hnumbers : logInt64s (.int64 n :: log) = n :: logInt64s log := rfl
          rw [hnumbers, List.getLastD_cons]
          exact ih size n
      | _ => exact ih size nonce

theorem countStringSize_eq (log : Log) :
    countStringSize log = (BitVec.ofNat 32 (64 + ((logCommands log).map (·.length + 2)).sum),
      (logInt64s log).getLastD 0) := foldl_countItem log 64 0

/-- The texts that the second pass writes. -/
def commandTexts (log : Log) : List Text :=
  (logCommands log).flatMap fun sql => [['\n'], cText sql]

theorem addCommands_eq {capacity : ℕ} (data : Buffer Char capacity) (log : Log) :
    addCommands data log = data.appendAll ((commandTexts log).map some) := by
  unfold addCommands
  induction log generalizing data with
  | nil => rfl
  | cons value log ih =>
      rw [List.foldlM_cons]
      cases value with
      | string s =>
          have htexts : (commandTexts (.string s :: log)).map some =
              some ['\n'] :: some (cText s) :: (commandTexts log).map some := rfl
          rw [htexts, Buffer.appendAll_cons, addItem]
          cases data.append (some ['\n']) with
          | error e => rfl
          | ok one =>
              refine Eq.trans ?_ (Buffer.appendAll_cons ..).symm
              change ((one.append (some (cText s))).bind fun data => log.foldlM addItem data) = _
              cases one.append (some (cText s)) with
              | error e => rfl
              | ok two => exact ih two
      | _ => exact ih data

/-- The length of what the second pass writes. -/
theorem length_flatten_commandTexts (log : Log) : (commandTexts log).flatten.length =
    ((logCommands log).map fun sql => (cText sql).length).sum + (logCommands log).length := by
  unfold commandTexts
  induction logCommands log with
  | nil => rfl
  | cons sql commands ih =>
      simp only [List.flatMap_cons, List.flatten_append, List.length_append, ih, List.map_cons,
        List.sum_cons, List.length_cons, List.flatten_cons, List.flatten_nil, List.length_nil]
      omega

theorem sum_map_length_add (texts : List Text) (n : ℕ) :
    (texts.map fun s => s.length + n).sum = (texts.map List.length).sum + n * texts.length := by
  induction texts with
  | nil => rfl
  | cons s texts ih =>
      simp only [List.map_cons, List.sum_cons, ih, List.length_cons, Nat.mul_add]
      omega

/-- The size that is counted does not wrap around to a smaller one. -/
theorem ReceivedLog.size (log : ReceivedLog) : (countStringSize log.items).1.toNat =
    64 + (((logCommands log.items).map List.length).sum + 2 * (logCommands log.items).length) := by
  have hsize := log.size_lt
  rw [sum_map_length_add] at hsize
  rw [countStringSize_eq, sum_map_length_add]
  dsimp only
  rw [BitVec.toNat_ofNat]
  exact Nat.mod_eq_of_lt (by omega)

/-- The digits of an `int64`. -/
theorem length_int64Text {n : ℤ} (h : -2 ^ 63 ≤ n ∧ n < 2 ^ 63) : (int64Text n).length ≤ 20 := by
  have hdigits : (Nat.toDigits 10 n.natAbs).length ≤ 19 :=
    (Nat.length_toDigits_le_iff (by decide) (by decide)).2 (by omega)
  unfold int64Text
  split_ifs
  · rw [List.length_cons]
    omega
  · omega

/-- The number that is printed. -/
theorem ReceivedLog.length_nonce (log : ReceivedLog) :
    (int64Text ((logInt64s log.items).getLastD 0)).length ≤ 20 := by
  refine length_int64Text ?_
  rw [List.getLastD_eq_getLast?]
  cases hlast : (logInt64s log.items).getLast? with
  | none => decide
  | some n => exact log.nonces n (List.mem_of_getLast? hlast)

/-! ## When it is defined -/

/-- The steps after the first line, as one sequence of appends. -/
theorem append_addCommands {capacity : ℕ} (data : Buffer Char capacity) (datetime : Option Text)
    (log : Log) : (data.append datetime).bind (addCommands · log) =
      data.appendAll (datetime :: (commandTexts log).map some) := by
  rw [Buffer.appendAll_cons]
  cases data.append datetime with
  | error e => rfl
  | ok one => exact addCommands_eq one log

/-- The appends are defined if the date fits. -/
theorem appendAll_isOk_iff_dateFits (log : ReceivedLog)
    {data : Buffer Char (countStringSize log.items).1.toNat}
    (hdata : data.text = int64Text ((logInt64s log.items).getLastD 0) ++ ['\n']) :
    (∃ data', data.appendAll ((getTransactionItem BinnValue.datetime? log.items).map cText ::
      (commandTexts log.items).map some) = .ok data') ↔ DateFits log.items := by
  have hlength := length_flatten_commandTexts log.items
  have hsize := log.size
  rw [Buffer.appendAll_isOk_iff, hdata]
  constructor
  · rintro ⟨texts, hsources, hfits⟩
    cases texts with
    | nil => cases hsources
    | cons s texts =>
        obtain ⟨hfirst, hcommands⟩ := List.cons.inj hsources
        obtain ⟨datetime, hdate, rfl⟩ := Option.map_eq_some_iff.1 hfirst
        obtain rfl := List.map_injective_iff.2 (Option.some_injective Text) hcommands
        refine ⟨datetime, hdate, ?_⟩
        simp only [List.length_append, List.flatten_cons, List.length_singleton] at hfits
        omega
  · rintro ⟨datetime, hdate, hfits⟩
    refine ⟨cText datetime :: commandTexts log.items, by rw [hdate]; rfl, ?_⟩
    simp only [List.length_append, List.flatten_cons, List.length_singleton]
    omega

/-- **When the signed text is built within its memory.** -/
theorem serializeTransaction_safe_iff (available : ℕ → Bool) (log : ReceivedLog) :
    (∃ text, serializeTransaction available log.items = .ok text) ↔
      (sqlite3Malloc available (countStringSize log.items).1 = true → DateFits log.items) := by
  have hnonce := log.length_nonce
  have hsize := log.size
  have hcount := congrArg Prod.snd (countStringSize_eq log.items)
  unfold serializeTransaction
  dsimp only at hcount ⊢
  rw [hcount]
  cases hmalloc : sqlite3Malloc available (countStringSize log.items).1 with
  | false => exact ⟨fun _ h => absurd h Bool.false_ne_true, fun _ => ⟨none, rfl⟩⟩
  | true =>
      have hline : (int64Text ((logInt64s log.items).getLastD 0) ++ ['\n']).length <
          (countStringSize log.items).1.toNat := by
        rw [List.length_append, List.length_singleton]
        omega
      rw [if_neg Bool.noConfusion, dif_pos hline, append_addCommands]
      have hallocated : (true = true → DateFits log.items) ↔ DateFits log.items :=
        ⟨fun h => h rfl, fun h _ => h⟩
      rw [hallocated, ← @appendAll_isOk_iff_dateFits log ⟨_, hline⟩ rfl]
      generalize Buffer.appendAll _ _ = built
      cases built with
      | error e =>
          constructor
          · rintro ⟨_, h⟩
            cases h
          · rintro ⟨_, h⟩
            cases h
      | ok data => exact ⟨fun _ => ⟨data, rfl⟩, fun _ => ⟨some data.text, rfl⟩⟩

/-- What is built is the signed text, if no text of the log has a terminator in it. -/
theorem serializeTransaction_eq {available : ℕ → Bool} {log : Log} {text : Text}
    (hdate : ∀ datetime, getTransactionItem BinnValue.datetime? log = some datetime →
      Char.ofNat 0 ∉ datetime)
    (hcommands : ∀ sql ∈ logCommands log, Char.ofNat 0 ∉ sql)
    (h : serializeTransaction available log = .ok (some text)) :
    serializeTransactionToString log = some text := by
  have hcount := congrArg Prod.snd (countStringSize_eq log)
  unfold serializeTransaction at h
  dsimp only at hcount h
  rw [hcount] at h
  split_ifs at h with hmalloc hline
  · cases h
  · rw [append_addCommands] at h
    have htexts : (commandTexts log).flatten = (logCommands log).flatMap fun sql => '\n' :: sql := by
      unfold commandTexts
      generalize logCommands log = commands at hcommands
      induction commands with
      | nil => rfl
      | cons sql commands ih =>
          have hsql := upToTerminator_eq (hcommands sql List.mem_cons_self)
          have hrest := ih fun s hs => hcommands s (List.mem_cons_of_mem _ hs)
          simp only [List.flatMap_cons, hrest, hsql, List.flatten_cons, List.cons_append,
            List.nil_append]
    generalize hbuilt : Buffer.appendAll _ _ = built at h
    cases built with
    | error e => cases h
    | ok data =>
        obtain ⟨texts, hsources, htext⟩ := Buffer.appendAll_eq_ok_iff.1 hbuilt
        obtain rfl : data.text = text := Option.some.inj (Except.ok.inj h)
        cases texts with
        | nil => cases hsources
        | cons s texts =>
            obtain ⟨hfirst, hrest⟩ := List.cons.inj hsources
            obtain ⟨datetime, hdatetime, rfl⟩ := Option.map_eq_some_iff.1 hfirst
            obtain rfl := List.map_injective_iff.2 (Option.some_injective Text) hrest
            rw [serializeTransactionToString, hdatetime, htext, List.flatten_cons, htexts,
              show cText datetime = datetime from upToTerminator_eq (hdate datetime hdatetime)]
            simp

/-! ## Logs of a peer -/

/-- A log without a date. -/
def undated : ReceivedLog where
  items := [.int64 5, .string "CALL a()".toList, .list [.null, .blob [0]]]
  size_lt := by decide
  nonces n hn := by
    obtain rfl := List.mem_singleton.1 hn
    decide

/-- A log with a date of 63 characters and no command. -/
def longDated : ReceivedLog where
  items := [.int64 5, .datetime (List.replicate 63 'd'), .list [.null, .blob [0]]]
  size_lt := by decide
  nonces n hn := by
    obtain rfl := List.mem_singleton.1 hn
    decide

/-- **A peer decides where the text ends.**  Of a log without a date a null pointer is appended,
when its signature is to be verified, and a date of 63 characters is written past the 64 bytes
that are allocated. -/
theorem serializeTransaction_unsafe :
    serializeTransaction (fun _ => true) undated.items = .error .absent ∧
      verifyOfNodeOne undated.items = none ∧
      serializeTransaction (fun _ => true) longDated.items = .error .overflow := by
  refine ⟨?_, ?_, ?_⟩
  · rfl
  · rfl
  · rfl

end Core
end AergoLite
