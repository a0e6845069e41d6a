/-
# Sizes that are not sizes

The size in front of a message is whatever the peer has sent, an `int` in network order.  The loop
of `uv_stream_msg_read` adds 4 to it and compares the sum with the number of bytes that are filled.

A size of -4 is a message of no bytes, which the loop passes to the callback for ever.  A smaller
one moves the pointer back, in front of the buffer in the end, and the sum overflows where the size
is `INT_MAX - 3` or more.  Of sizes from -3 on each makes the loop go on in what was received
(`loop_stops`), so the reader stays within its buffer in every run of reads with such sizes
(`framing_bounded`).
-/

import AergoLite.Common.MsgFraming
import AergoLite.Library.Transition

namespace AergoLite
namespace Common

open Transition

/-! ## The loop -/

/-- `ntohl(*(int*)ptr)`, if the four bytes were received. -/
def headerSize (received : List UInt8) (ptr : ℤ) : Option ℤ :=
  if 0 ≤ ptr then
    match received.drop ptr.toNat with
    | a :: b :: c :: d :: _ => some (ntohl a b c d)
    | _ => none
  else none

/-- How the loop ends: with a pointer and a number of bytes that are filled; or it reads what was
not received, or an `int` overflows, or it has not ended within the rounds it is given. -/
inductive LoopEnd
  | stopped (ptr filled : ℤ)
  | outside
  | overflow
  | running
  deriving DecidableEq, Repr

/-- The loop of `uv_stream_msg_read`, with the sizes that were received. -/
def framingLoop (received : List UInt8) : ℕ → ℤ → ℤ → LoopEnd
  | 0, _, _ => .running
  | fuel + 1, ptr, filled =>
    if 4 ≤ filled then
      match headerSize received ptr with
      | none => .outside
      | some size =>
        if 2 ^ 31 ≤ size + 4 then .overflow
        else if size + 4 ≤ filled then
          framingLoop received fuel (if size + 4 < filled then ptr + (size + 4) else ptr)
            (filled - (size + 4))
        else .stopped ptr filled
    else .stopped ptr filled

/-- **The loop ends**, and what it leaves, which is moved to the begin of the buffer, was
received. -/
def Bounded (received : List UInt8) : Prop :=
  ∃ fuel ptr filled, framingLoop received fuel 0 received.length = .stopped ptr filled ∧
    0 ≤ ptr ∧ 0 ≤ filled ∧ ptr + filled ≤ received.length

/-- The loop comes to this place. -/
inductive Visits (received : List UInt8) : ℕ → Prop
  | start : Visits received 0
  | next {ptr n : ℕ} {size : ℤ} (h : Visits received ptr) (hsize : headerSize received ptr = some size)
      (hn : (n : ℤ) = ptr + (size + 4)) (hmore : n < received.length) : Visits received n

/-- The sizes that the loop comes to are at least -3, and can be added to 4. -/
def Progress (received : List UInt8) : Prop :=
  ∀ (ptr : ℕ) (size : ℤ), Visits received ptr → headerSize received ptr = some size →
    -3 ≤ size ∧ size + 4 < 2 ^ 31

theorem headerSize_of_le {received : List UInt8} {ptr : ℕ} (h : ptr + 4 ≤ received.length) :
    ∃ size, headerSize received ptr = some size := by
  have hlength : (received.drop ptr).length = received.length - ptr := List.length_drop
  unfold headerSize
  rw [if_pos (Int.natCast_nonneg ptr), Int.toNat_natCast]
  match hdrop : received.drop ptr with
  | a :: b :: c :: d :: rest => exact ⟨_, rfl⟩
  | [] | [_] | [_, _] | [_, _, _] =>
      rw [hdrop] at hlength
      simp at hlength
      omega

theorem le_of_headerSize {received : List UInt8} {ptr : ℕ} {size : ℤ}
    (h : headerSize received ptr = some size) : ptr + 4 ≤ received.length := by
  have hlength : (received.drop ptr).length = received.length - ptr := List.length_drop
  unfold headerSize at h
  rw [if_pos (Int.natCast_nonneg ptr), Int.toNat_natCast] at h
  split at h
  · rename_i hdrop
    rw [hdrop] at hlength
    simp only [List.length_cons] at hlength
    omega
  · exact nomatch h

/-- What the loop leaves: nothing, or the begin of a message, less than its header or with one that
says it is longer. -/
def Left (received : List UInt8) (ptr : ℕ) (left : List UInt8) : Prop :=
  left = [] ∨ left = received.drop ptr ∧ (left.length < 4 ∨
    ∃ size, headerSize received ptr = some size ∧ (left.length : ℤ) < size + 4 ∧ size + 4 < 2 ^ 31)

/-- **Each round goes on in what was received**, so the loop ends. -/
theorem loop_stops {received : List UInt8} (hprogress : Progress received) {fuel ptr : ℕ}
    (hvisits : Visits received ptr) (hptr : ptr ≤ received.length)
    (hfuel : received.length - ptr < fuel) :
    ∃ (ptr' : ℕ) (left : List UInt8),
      framingLoop received fuel ptr (received.length - ptr : ℕ) = .stopped ptr' left.length ∧
      ptr' + left.length ≤ received.length ∧ Left received ptr' left := by
  induction fuel generalizing ptr with
  | zero => exact absurd hfuel (by omega)
  | succ fuel ih =>
      have hlength : (received.drop ptr).length = received.length - ptr := List.length_drop
      unfold framingLoop
      split_ifs with hfour
      · obtain ⟨size, hsize⟩ := @headerSize_of_le received ptr (by omega)
        obtain ⟨hlow, hhigh⟩ := hprogress ptr size hvisits hsize
        rw [hsize]
        dsimp only
        rw [if_neg (by omega)]
        split_ifs with hle hlt
        · obtain ⟨n, hn⟩ : ∃ n : ℕ, (n : ℤ) = ptr + (size + 4) :=
            ⟨((ptr : ℤ) + (size + 4)).toNat, by omega⟩
          have hnext := ih (.next hvisits hsize hn (by omega)) (by omega) (by omega)
          rwa [hn, show ((received.length - n : ℕ) : ℤ) =
            (received.length - ptr : ℕ) - (size + 4) by omega] at hnext
        · -- the last message ends where the buffer does
          have hzero : ((received.length - ptr : ℕ) : ℤ) - (size + 4) = 0 := by omega
          obtain ⟨fuel, rfl⟩ : ∃ f, fuel = f + 1 := Nat.exists_eq_succ_of_ne_zero (by omega)
          refine ⟨ptr, [], ?_, hptr, .inl rfl⟩
          rw [hzero, framingLoop, if_neg (by decide)]
          rfl
        · refine ⟨ptr, received.drop ptr, by rw [hlength], by omega, .inr ⟨rfl, .inr ⟨size, hsize, ?_, hhigh⟩⟩⟩
          omega
      · refine ⟨ptr, received.drop ptr, by rw [hlength], by omega, .inr ⟨rfl, .inl ?_⟩⟩
        omega

/-- **The sizes that keep the loop within the buffer.** -/
theorem bounded_of_progress {received : List UInt8} (h : Progress received) : Bounded received := by
  obtain ⟨ptr, left, hloop, hle, -⟩ :=
    loop_stops h .start (Nat.zero_le _) (Nat.lt_succ_self (received.length - 0))
  exact ⟨_, ptr, left.length, hloop, by omega, by omega, by omega⟩

/-- **A size of -4** is the same message again. -/
theorem never_stops {received : List UInt8} {ptr filled : ℤ} (hfilled : 4 ≤ filled)
    (hsize : headerSize received ptr = some (-4)) (fuel : ℕ) :
    framingLoop received fuel ptr filled = .running := by
  induction fuel with
  | zero => rfl
  | succ fuel ih =>
      unfold framingLoop
      rw [if_pos hfilled, hsize]
      dsimp only
      rw [if_neg (by decide), if_pos (by omega), if_pos (by omega)]
      simpa using ih

/-- A loop that ends has ended from each place it comes to. -/
theorem stops_of_visits {received : List UInt8} {fuel n : ℕ} {ptr filled : ℤ}
    (h : framingLoop received fuel 0 received.length = .stopped ptr filled)
    (hvisits : Visits received n) (hle : n ≤ received.length) :
    ∃ fuel, framingLoop received fuel n (received.length - n : ℕ) = .stopped ptr filled := by
  induction hvisits with
  | start => exact ⟨fuel, h⟩
  | @next p n size hvisits hsize hn hmore ih =>
      have hp := le_of_headerSize hsize
      obtain ⟨fuel, hloop⟩ := ih (by omega)
      cases fuel with
      | zero => exact nomatch hloop
      | succ fuel =>
          unfold framingLoop at hloop
          rw [if_pos (by omega), hsize] at hloop
          dsimp only at hloop
          split_ifs at hloop with hover hfits hlt
          · refine ⟨fuel, ?_⟩
            rw [hn]
            rwa [show ((received.length - p : ℕ) : ℤ) - (size + 4) =
              (received.length - n : ℕ) by omega] at hloop
          · omega
          · omega

/-- **The sizes that do not** keep the loop within the buffer, but for those that move the pointer
back to an earlier message. -/
theorem bounded_iff {received : List UInt8} (hback : ∀ (ptr : ℕ) (size : ℤ), Visits received ptr →
      headerSize received ptr = some size → size < -4 → ptr + (size + 4) < 0) :
    Bounded received ↔ Progress received := by
  refine ⟨fun ⟨fuel, ptr, filled, hloop, _⟩ p size hvisits hsize => ?_, bounded_of_progress⟩
  have hp := le_of_headerSize hsize
  obtain ⟨fuel, hloop⟩ := stops_of_visits hloop hvisits (by omega)
  rcases Int.lt_trichotomy size (-4) with hlow | rfl | hhigh
  · -- the pointer is in front of the buffer
    have hneg := hback p size hvisits hsize hlow
    match fuel with
    | 0 => exact nomatch hloop
    | 1 =>
        unfold framingLoop at hloop
        rw [if_pos (by omega), hsize] at hloop
        dsimp only at hloop
        rw [if_neg (by omega), if_pos (by omega)] at hloop
        exact nomatch hloop
    | fuel + 2 =>
        have houtside : headerSize received (p + (size + 4)) = none := if_neg (by omega)
        unfold framingLoop at hloop
        rw [if_pos (by omega), hsize] at hloop
        dsimp only at hloop
        rw [if_neg (by omega), if_pos (by omega), if_pos (by omega), framingLoop,
          if_pos (by omega), houtside] at hloop
        exact nomatch hloop
  · rw [never_stops (by omega) hsize] at hloop
    exact nomatch hloop
  · refine ⟨by omega, ?_⟩
    by_contra hover
    cases fuel with
    | zero => exact nomatch hloop
    | succ fuel =>
        unfold framingLoop at hloop
        rw [if_pos (by omega), hsize] at hloop
        dsimp only at hloop
        rw [if_pos (by omega)] at hloop
        exact nomatch hloop

/-! ## Reads -/

/-- `libuv` reads into the memory that it is given. -/
structure Fills (s : UvMsg) (read : Read) (s' : UvMsg) (memory : Memory) (received : List UInt8) :
    Prop where
  alloc : ∃ len, uvStreamMsgAlloc read.alloc read.suggestedSize s = some (some len, s') ∧
    read.bytes.length ≤ len
  written : ∃ old, s'.buf = some old ∧ memory = old.take s'.filled ++ read.bytes.map some ++
    old.drop (s'.filled + read.bytes.length)
  received : memory.take (s'.filled + read.bytes.length) = received.map some

/-- A read whose loop ends. -/
structure Reads (s : UvMsg) (read : Read) (t : UvMsg) : Prop where
  nonempty : read.bytes ≠ []
  stops : ∃ (s' : UvMsg) (memory : Memory) (received : List UInt8) (fuel ptr filled : ℕ),
    Fills s read s' memory received ∧
    framingLoop received fuel 0 received.length = .stopped ptr filled ∧
    t = moveRest memory ptr filled s'

/-- The reader of a stream, from its begin on. -/
def framing : System UvMsg Read := ⟨fun s => s = uvMsgInit, Reads⟩

/-- **The reader stays within its buffer** in its next read, if what is then received meets a
condition: what it is asked for is defined, `libuv` reads into its buffer, and the loop ends in what
was received. -/
def Safe (P : List UInt8 → Prop) (s : UvMsg) : Prop :=
  ∀ read : Read, ∃ len s', uvStreamMsgAlloc read.alloc read.suggestedSize s = some (len, s') ∧
    ∀ n, len = some n → read.bytes.length ≤ n → ∃ memory received, Fills s read s' memory received ∧
      received.length ≤ s'.allocSize ∧ memory.length = s'.allocSize ∧
      (P received → Bounded received)

/-- What is received has sizes that keep the loop within the buffer. -/
def GoodRead (s : UvMsg) (read : Read) : Prop :=
  ∀ s' memory received, Fills s read s' memory received → Progress received

/-- What the reader keeps between reads. -/
def Between (s : UvMsg) : Prop := ∃ data, Keeps s data ∧ Unfinished data

/-- More rounds change nothing. -/
theorem framingLoop_add {received : List UInt8} {fuel : ℕ} {ptr filled ptr' filled' : ℤ}
    (h : framingLoop received fuel ptr filled = .stopped ptr' filled') (k : ℕ) :
    framingLoop received (fuel + k) ptr filled = .stopped ptr' filled' := by
  induction fuel generalizing ptr filled with
  | zero => exact nomatch h
  | succ fuel ih =>
      rw [show fuel + 1 + k = fuel + k + 1 by omega]
      unfold framingLoop at h ⊢
      split_ifs at h ⊢ with hfour
      · cases hsize : headerSize received ptr with
        | none =>
            rw [hsize] at h
            exact nomatch h
        | some size =>
            rw [hsize] at h
            dsimp only at h ⊢
            by_cases hover : 2 ^ 31 ≤ size + 4
            · rw [if_pos hover] at h
              exact nomatch h
            · rw [if_neg hover] at h ⊢
              by_cases hfits : size + 4 ≤ filled
              · rw [if_pos hfits] at h ⊢
                exact ih h
              · rw [if_neg hfits] at h ⊢
                exact h
      · exact h

/-- The end of the loop does not depend on the rounds it is given. -/
theorem framingLoop_unique {received : List UInt8} {fuel₁ fuel₂ : ℕ} {ptr filled p₁ f₁ p₂ f₂ : ℤ}
    (h₁ : framingLoop received fuel₁ ptr filled = .stopped p₁ f₁)
    (h₂ : framingLoop received fuel₂ ptr filled = .stopped p₂ f₂) : p₁ = p₂ ∧ f₁ = f₂ := by
  have h := (framingLoop_add h₁ fuel₂).symm.trans
    ((congrArg (framingLoop received · ptr filled) (Nat.add_comm fuel₁ fuel₂)).trans
      (framingLoop_add h₂ fuel₁))
  exact LoopEnd.stopped.inj h

/-- What the loop leaves is the begin of a message that is not complete. -/
theorem Left.unfinished {received left : List UInt8} {ptr : ℕ} (h : Left received ptr left) :
    Unfinished left := by
  intro memory hholds hfour
  rcases h with rfl | ⟨hleft, hshort | ⟨size, hsize, hlong, hhigh⟩⟩
  · exact absurd hfour (by decide)
  · exact absurd hshort (by omega)
  unfold headerSize at hsize
  rw [if_pos (Int.natCast_nonneg ptr), Int.toNat_natCast, ← hleft] at hsize
  split at hsize
  · rename_i a b c d rest
    have hbytes : memory.bytes 0 4 = some [a, b, c, d] :=
      ((@Memory.holds_append memory 0 [a, b, c, d] rest).1 hholds).1.bytes
    have hentire : memory.entireMsg 0 = some (size.toNat + 4) := by
      unfold Memory.entireMsg Memory.msgSize
      rw [hbytes]
      dsimp only
      rw [Option.bind_some, Option.some.inj hsize, if_pos (by omega)]
    exact ⟨_, hentire, by omega⟩
  · exact nomatch hsize

/-- The memory of a read is always defined. -/
theorem uvStreamMsgAlloc_total {alloc : ℕ → Option ℕ} {suggestedSize : ℕ} {s : UvMsg}
    {data : List UInt8} (hkeeps : Keeps s data) (hheader : Unfinished data) :
    ∃ len s', uvStreamMsgAlloc alloc suggestedSize s = some (len, s') := by
  unfold uvStreamMsgAlloc
  cases hopen : uvStreamMsgOpen alloc suggestedSize s with
  | none => exact ⟨_, _, rfl⟩
  | some r =>
      obtain ⟨memory, opened⟩ := r
      obtain ⟨hbuf, hkept⟩ := uvStreamMsgOpen_spec hkeeps hopen
      obtain ⟨-, hholds⟩ := hkept.holds memory hbuf
      have hfilled := hkept.filled
      dsimp only
      split_ifs with hfour hsmall
      · obtain ⟨entireMsg, hentire, -⟩ := hheader memory hholds (by omega)
        rw [hentire, Option.map_some]
        exact ⟨_, _, rfl⟩
      · cases uvStreamMsgRealloc alloc (64 * 1024) memory opened <;> exact ⟨_, _, rfl⟩
      · exact ⟨_, _, rfl⟩

/-- What `libuv` has read comes after what was kept. -/
theorem fills_of_alloc {s s' : UvMsg} {read : Read} {data : List UInt8} {n : ℕ}
    (hkeeps : Keeps s data) (hheader : Unfinished data)
    (halloc : uvStreamMsgAlloc read.alloc read.suggestedSize s = some (some n, s'))
    (hn : read.bytes.length ≤ n) :
    ∃ memory, Fills s read s' memory (data ++ read.bytes) ∧
      (data ++ read.bytes).length ≤ s'.allocSize ∧ memory.length = s'.allocSize := by
  obtain ⟨hkeeps', ⟨old, hold⟩, hroom⟩ := uvStreamMsgAlloc_spec hkeeps hheader halloc
  obtain ⟨hlength, hholds⟩ := hkeeps'.holds old hold
  have htake : old.take s'.filled = data.map some := by
    rw [hkeeps'.filled]
    exact hholds
  have hwritten : (old.take s'.filled ++ read.bytes.map some).length =
      s'.filled + read.bytes.length := by
    rw [htake, List.length_append, List.length_map, List.length_map, hkeeps'.filled]
  refine ⟨_, ⟨⟨n, halloc, hn⟩, ⟨old, hold, rfl⟩, ?_⟩, ?_, ?_⟩
  · rw [← hwritten, List.take_left, htake, List.map_append]
  · rw [List.length_append]
    omega
  · rw [List.length_append, hwritten, List.length_drop, hkeeps'.filled]
    omega

/-- Between reads the reader is safe. -/
theorem Between.safe {s : UvMsg} (h : Between s) : Safe Progress s := by
  obtain ⟨data, hkeeps, hheader⟩ := h
  intro read
  obtain ⟨len, s', halloc⟩ := uvStreamMsgAlloc_total hkeeps hheader
  refine ⟨len, s', halloc, ?_⟩
  rintro n rfl hn
  obtain ⟨memory, hfills, hle, hlength⟩ := fills_of_alloc hkeeps hheader halloc hn
  exact ⟨memory, _, hfills, hle, hlength, bounded_of_progress⟩

theorem Fills.unique {s s₁ s₂ : UvMsg} {read : Read} {memory₁ memory₂ : Memory}
    {received₁ received₂ : List UInt8} (h₁ : Fills s read s₁ memory₁ received₁)
    (h₂ : Fills s read s₂ memory₂ received₂) :
    s₁ = s₂ ∧ memory₁ = memory₂ ∧ received₁ = received₂ := by
  obtain ⟨n₁, halloc₁, -⟩ := h₁.alloc
  obtain ⟨n₂, halloc₂, -⟩ := h₂.alloc
  obtain ⟨-, rfl⟩ := Prod.mk.inj (Option.some.inj (halloc₁.symm.trans halloc₂))
  obtain ⟨old₁, hold₁, rfl⟩ := h₁.written
  obtain ⟨old₂, hold₂, rfl⟩ := h₂.written
  obtain rfl := Option.some.inj (hold₁.symm.trans hold₂)
  refine ⟨rfl, rfl, ?_⟩
  have hmap := h₁.received.symm.trans h₂.received
  exact List.map_injective_iff.2 (fun _ _ h => Option.some.inj h) hmap

/-- A read whose sizes keep the loop within the buffer leaves the reader between reads. -/
theorem Between.reads {s t : UvMsg} {read : Read} (h : Between s) (hgood : GoodRead s read)
    (hreads : Reads s read t) : Between t := by
  obtain ⟨data, hkeeps, hheader⟩ := h
  obtain ⟨s', memory, received, fuel, ptr, filled, hfills, hloop, rfl⟩ := hreads.stops
  obtain ⟨n, halloc, hn⟩ := hfills.alloc
  obtain ⟨memory', hfills', hle, hlength⟩ := fills_of_alloc hkeeps hheader halloc hn
  obtain ⟨-, rfl, rfl⟩ := hfills.unique hfills'
  obtain ⟨ptr', left, hloop', hle', hleft⟩ :=
    loop_stops (hgood _ _ _ hfills) .start (Nat.zero_le _) (Nat.lt_succ_self _)
  obtain ⟨hptr, hfilled⟩ := framingLoop_unique hloop hloop'
  obtain rfl : ptr = ptr' := by omega
  obtain rfl : filled = left.length := by omega
  refine ⟨left, keeps_moveRest hlength fun hne => ?_, hleft.unfinished⟩
  rcases hleft with hnil | ⟨hdrop, -⟩
  · exact absurd hnil hne
  -- what is left is the end of what was received
  have hholds : Memory.Holds memory 0 ((data ++ read.bytes).take ptr ++ left) := by
    obtain ⟨hkeeps', -⟩ := uvStreamMsgAlloc_spec hkeeps hheader halloc
    rw [hdrop, List.take_append_drop, Memory.Holds, List.drop_zero, List.length_append,
      ← hkeeps'.filled]
    exact hfills.received
  have hend := (Memory.holds_append.1 hholds).2
  rwa [List.length_take, Nat.zero_add, Nat.min_eq_left (by omega)] at hend

/-- **The reader stays within its buffer** in every run of reads with such sizes. -/
theorem framing_bounded {s : UvMsg} (h : (framing.restrict GoodRead).Reachable s) :
    Safe Progress s := by
  have hinv : (framing.restrict GoodRead).Invariant Between := by
    refine ⟨?_, fun s read t hs ht => hs.reads ht.1 ht.2⟩
    rintro s rfl
    exact ⟨[], keeps_init, fun _ _ h => absurd h (by decide)⟩
  exact (hinv.reachable h).safe

/-- What the first read receives. -/
theorem received_of_first {bytes : List UInt8} {n : ℕ} {s' : UvMsg} {memory : Memory}
    {received : List UInt8} (h : Fills uvMsgInit ⟨n, some, bytes⟩ s' memory received) :
    received = bytes := by
  obtain ⟨m, halloc, hm⟩ := h.alloc
  obtain ⟨memory', hfills, -⟩ :=
    fills_of_alloc keeps_init (fun _ _ h => absurd h (by decide)) halloc hm
  exact (h.unique hfills).2.2

/-- After the header of a message. -/
theorem framing_bounded_header : ∃ s : UvMsg, s.filled = 4 ∧ Safe Progress s := by
  have halloc : uvStreamMsgAlloc some 9 uvMsgInit =
      some (some 9, ⟨some (List.replicate 9 none), 9, 0⟩) := by decide
  obtain ⟨memory, hfills, -⟩ := @fills_of_alloc uvMsgInit _ ⟨9, some, [0, 0, 0, 1]⟩ [] 9
    keeps_init (fun _ _ h => absurd h (by decide)) halloc (by decide)
  have hgood : GoodRead uvMsgInit ⟨9, some, [0, 0, 0, 1]⟩ := by
    intro s' memory received h ptr size _ hsize
    obtain rfl := received_of_first h
    have hle := le_of_headerSize hsize
    obtain rfl : ptr = 0 := by simp at hle; omega
    have hone : headerSize [0, 0, 0, 1] (0 : ℕ) = some 1 := by decide
    obtain rfl := Option.some.inj (hone.symm.trans hsize)
    omega
  have hloop : framingLoop [0, 0, 0, 1] 1 0 4 = .stopped 0 4 := by decide
  have hreads : Reads uvMsgInit ⟨9, some, [0, 0, 0, 1]⟩ (moveRest memory 0 4 _) :=
    ⟨List.cons_ne_nil _ _, _, memory, _, 1, 0, 4, hfills, hloop, rfl⟩
  exact ⟨_, rfl, framing_bounded (.step _ (.init rfl) ⟨hgood, hreads⟩)⟩

/-- **A size of -4** in the first message: the loop does not end. -/
theorem minus_four_unbounded : ¬∀ s, framing.Reachable s → Safe (fun _ => True) s := by
  intro h
  obtain ⟨len, s', halloc, hbounded⟩ := h uvMsgInit (.init rfl) ⟨4, some, [255, 255, 255, 252]⟩
  have hfour : uvStreamMsgAlloc some 4 uvMsgInit =
      some (some 4, ⟨some (List.replicate 4 none), 4, 0⟩) := by decide
  obtain ⟨rfl, rfl⟩ := Prod.mk.inj (Option.some.inj (hfour.symm.trans halloc))
  obtain ⟨memory, received, hfills, -, -, hloop⟩ := hbounded 4 rfl (by decide)
  obtain rfl := received_of_first hfills
  obtain ⟨fuel, ptr, filled, hstopped, -⟩ := hloop trivial
  rw [never_stops (by decide) (by decide)] at hstopped
  exact nomatch hstopped

end Common
end AergoLite
