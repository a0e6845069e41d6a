/-
# The framing of messages

`plugins/common/uv_msg_framing.c`.  A message is sent with its size in front of it, in network
order.  The reader keeps what it has received of a message in a buffer, into which `libuv`
reads: `uv_stream_msg_alloc` is asked for the memory of the next read, and
`uv_stream_msg_read` is told how much was read.

The buffer is memory that may not be written yet (`none`), and a function that reads such
memory, or memory outside of the buffer, is undefined, as is an `int` that overflows.  The
allocation callback is a parameter, the length of the memory it returns for a size, if any.

However the bytes of the messages are cut into reads, the callback is called with the
messages, each once and in order (`received_eq_sent`).
-/

import Mathlib.Algebra.Group.Int.Defs
import Mathlib.Algebra.Group.Nat.Defs
import Mathlib.Data.Int.Notation
import Mathlib.Data.List.Basic
import Mathlib.Data.Nat.Notation
import Mathlib.Tactic.SplitIfs

namespace AergoLite
namespace Common

/-- `htonl`: the four bytes of a size. -/
def htonl (size : ℕ) : List UInt8 :=
  [UInt8.ofNat (size / 2 ^ 24), UInt8.ofNat (size / 2 ^ 16), UInt8.ofNat (size / 2 ^ 8),
    UInt8.ofNat size]

/-- `ntohl`, as an `int`. -/
def ntohl (a b c d : UInt8) : ℤ :=
  let n : ℕ := a.toNat * 2 ^ 24 + b.toNat * 2 ^ 16 + c.toNat * 2 ^ 8 + d.toNat
  if n < 2 ^ 31 then (n : ℤ) else (n : ℤ) - 2 ^ 32

/-- `uv_msg_send`: the bytes that are written, unless the message is empty (`UV_EINVAL`). -/
def uvMsgSend (msg : List UInt8) : Option (List UInt8) :=
  if msg.length = 0 then none else some (htonl msg.length ++ msg)

/-- Memory, as far as it is written. -/
abbrev Memory := List (Option UInt8)

/-- The bytes at a place, if they are written. -/
def Memory.bytes (memory : Memory) (ptr size : ℕ) : Option (List UInt8) :=
  let cells := (memory.drop ptr).take size
  if cells.length = size then cells.mapM id else none

/-- `ntohl(*(int*)ptr)`. -/
def Memory.msgSize (memory : Memory) (ptr : ℕ) : Option ℤ :=
  match memory.bytes ptr 4 with
  | some [a, b, c, d] => some (ntohl a b c d)
  | _ => none

/-- The size of the message at a place with its header, if it is a size. -/
def Memory.entireMsg (memory : Memory) (ptr : ℕ) : Option ℕ :=
  (memory.msgSize ptr).bind fun size =>
    if 0 ≤ size ∧ size + 4 < 2 ^ 31 then some (size.toNat + 4) else none

/-- `uv_msg_t`, as far as the reader uses it. -/
structure UvMsg where
  buf : Option Memory
  allocSize : ℕ
  filled : ℕ
  deriving DecidableEq, Repr

/-- `uv_msg_init`. -/
def uvMsgInit : UvMsg := ⟨none, 0, 0⟩

/-- `uv_stream_msg_free_buffer`. -/
def uvStreamMsgFreeBuffer (s : UvMsg) : UvMsg := { s with buf := none, allocSize := 0 }

/-- `uv_stream_msg_realloc`: what is filled is copied, if enough memory is returned. -/
def uvStreamMsgRealloc (alloc : ℕ → Option ℕ) (suggestedSize : ℕ) (memory : Memory) (s : UvMsg) :
    Option (Memory × UvMsg) :=
  match alloc suggestedSize with
  | none => none
  | some len =>
    if len < suggestedSize then none
    else
      let memory := memory.take s.filled ++ List.replicate (len - s.filled) none
      some (memory, { s with buf := some memory, allocSize := len })

/-- The begin of `uv_stream_msg_alloc`: memory is allocated where there is none. -/
def uvStreamMsgOpen (alloc : ℕ → Option ℕ) (suggestedSize : ℕ) (s : UvMsg) :
    Option (Memory × UvMsg) :=
  match s.buf with
  | some memory => some (memory, s)
  | none => (alloc suggestedSize).map fun len =>
      let memory := List.replicate len none
      (memory, { s with buf := some memory, allocSize := len })

/-- `uv_stream_msg_alloc`: the length of the memory for the next read, or `none` where there is
none.  The result is `none` where the size that was read is not the size of a message. -/
def uvStreamMsgAlloc (alloc : ℕ → Option ℕ) (suggestedSize : ℕ) (s : UvMsg) :
    Option (Option ℕ × UvMsg) :=
  match uvStreamMsgOpen alloc suggestedSize s with
  | none => some (none, s)
  | some (memory, s) =>
    if 4 ≤ s.filled then
      (memory.entireMsg 0).map fun entireMsg =>
        if s.allocSize < entireMsg then
          match uvStreamMsgRealloc alloc entireMsg memory s with
          | none => (none, s)
          | some (_, s) => (some (entireMsg - s.filled), s)
        else (some (entireMsg - s.filled), s)
    else if s.allocSize < 4 then
      match uvStreamMsgRealloc alloc (64 * 1024) memory s with
      | none => some (none, s)
      | some (_, s) => some (some (s.allocSize - s.filled), s)
    else some (some (s.allocSize - s.filled), s)

/-- The loop of `uv_stream_msg_read`, from a place with a number of bytes: the messages the
callback is called with, and the place and the bytes that are left. -/
def readLoop (memory : Memory) : ℕ → ℕ → ℕ → Option (List (List UInt8) × ℕ × ℕ)
  | 0, _, _ => none
  | fuel + 1, ptr, filled =>
    if 4 ≤ filled then
      (memory.entireMsg ptr).bind fun entireMsg =>
        if entireMsg ≤ filled then
          (memory.bytes (ptr + 4) (entireMsg - 4)).bind fun msg =>
            (readLoop memory fuel (if entireMsg < filled then ptr + entireMsg else ptr)
              (filled - entireMsg)).map fun rest => (msg :: rest.1, rest.2)
        else some ([], ptr, filled)
    else some ([], ptr, filled)

/-- `uv_stream_msg_read`, of bytes that were read: the messages the callback is called with.
The loop ends after as many messages as there are bytes, at the latest. -/
def uvStreamMsgRead (bytes : List UInt8) (s : UvMsg) : Option (List (List UInt8) × UvMsg) :=
  if bytes = [] then some ([], s)
  else match s.buf with
    | none => none
    | some memory =>
      let memory := memory.take s.filled ++ bytes.map some ++
        memory.drop (s.filled + bytes.length)
      (readLoop memory (s.filled + bytes.length + 1) 0 (s.filled + bytes.length)).map
        fun (msgs, ptr, filled) =>
          (msgs,
            if 0 < ptr ∧ 0 < filled then { s with
              buf := some ((memory.drop ptr).take filled ++ memory.drop filled)
              filled }
            else if filled = 0 then uvStreamMsgFreeBuffer { s with buf := some memory, filled }
            else { s with buf := some memory, filled })

/-- `uv_stream_msg_read`, of an error: the callback is called with it. -/
def uvStreamMsgError (s : UvMsg) : UvMsg := uvStreamMsgFreeBuffer s

/-! ## Reads -/

/-- A read: what `libuv` suggests, what the allocation callback returns, and the bytes. -/
structure Read where
  suggestedSize : ℕ
  alloc : ℕ → Option ℕ
  bytes : List UInt8

/-- The messages the callback is called with in some reads. -/
def readAll : List Read → UvMsg → Option (List (List UInt8) × UvMsg)
  | [], s => some ([], s)
  | read :: reads, s =>
    (uvStreamMsgAlloc read.alloc read.suggestedSize s).bind fun (_, s) =>
      (uvStreamMsgRead read.bytes s).bind fun (msgs, s) =>
        (readAll reads s).map fun (msgs', s) => (msgs ++ msgs', s)

/-- Each read has memory, which its bytes fit in. -/
def Fits : List Read → UvMsg → Prop
  | [], _ => True
  | read :: reads, s =>
    ∃ len s', uvStreamMsgAlloc read.alloc read.suggestedSize s = some (some len, s') ∧
      read.bytes.length ≤ len ∧
        ∀ msgs s'', uvStreamMsgRead read.bytes s' = some (msgs, s'') → Fits reads s''

theorem fits_cons {read : Read} {reads : List Read} {s s' s'' : UvMsg} {len : ℕ}
    {msgs : List (List UInt8)}
    (halloc : uvStreamMsgAlloc read.alloc read.suggestedSize s = some (some len, s'))
    (hlen : read.bytes.length ≤ len) (hread : uvStreamMsgRead read.bytes s' = some (msgs, s''))
    (hfits : Fits reads s'') : Fits (read :: reads) s := by
  refine ⟨len, s', halloc, hlen, fun msgs' t h => ?_⟩
  rw [hread] at h
  obtain ⟨-, rfl⟩ := Prod.mk.inj (Option.some.inj h)
  exact hfits

/-! ## Memory -/

/-- The bytes are written at a place. -/
def Memory.Holds (memory : Memory) (ptr : ℕ) (data : List UInt8) : Prop :=
  (memory.drop ptr).take data.length = data.map some

theorem Memory.Holds.bytes {memory : Memory} {ptr : ℕ} {data : List UInt8}
    (h : memory.Holds ptr data) : memory.bytes ptr data.length = some data := by
  have hmap : ∀ l : List UInt8, (l.map some).mapM id = some l := by
    intro l
    induction l with
    | nil => rfl
    | cons b l ih => rw [List.map_cons, List.mapM_cons, ih]; rfl
  have hlength := congrArg List.length h
  rw [List.length_map] at hlength
  unfold Memory.bytes
  dsimp only
  rw [if_pos hlength, h, hmap]

theorem Memory.holds_append {memory : Memory} {ptr : ℕ} {a b : List UInt8} :
    memory.Holds ptr (a ++ b) ↔ memory.Holds ptr a ∧ memory.Holds (ptr + a.length) b := by
  unfold Memory.Holds
  rw [List.length_append, List.take_add, List.map_append, List.drop_drop]
  constructor
  · intro h
    have hlength := congrArg List.length h
    rw [List.length_append, List.length_append, List.length_map, List.length_map,
      List.length_take, List.length_take] at hlength
    exact List.append_inj h (by rw [List.length_take, List.length_map]; omega)
  · rintro ⟨ha, hb⟩
    rw [ha, hb]

/-- What is written after the bytes does not matter. -/
theorem Memory.holds_of_take {memory : Memory} {data : List UInt8} {rest : Memory}
    (h : memory = data.map some ++ rest) : memory.Holds 0 data := by
  unfold Memory.Holds
  rw [List.drop_zero, h, ← List.length_map (f := some), List.take_left]

theorem ntohl_htonl {n : ℕ} (h : n < 2 ^ 31) :
    ntohl (UInt8.ofNat (n / 2 ^ 24)) (UInt8.ofNat (n / 2 ^ 16)) (UInt8.ofNat (n / 2 ^ 8))
      (UInt8.ofNat n) = n := by
  unfold ntohl
  simp only [UInt8.toNat_ofNat']
  split_ifs <;> omega

/-- The header of a message says its size. -/
theorem Memory.entireMsg_of_header {memory : Memory} {ptr n : ℕ} (hn : n + 4 < 2 ^ 31)
    (h : memory.Holds ptr (htonl n)) : memory.entireMsg ptr = some (n + 4) := by
  have hbytes : memory.bytes ptr 4 = some (htonl n) := h.bytes
  unfold Memory.entireMsg Memory.msgSize
  rw [hbytes]
  unfold htonl
  dsimp only
  rw [ntohl_htonl (by omega), Option.bind_some, if_pos (by omega), Int.toNat_natCast]

/-! ## What is left of a message -/

/-- A message with its header. -/
def frame (msg : List UInt8) : List UInt8 := htonl msg.length ++ msg

theorem length_htonl (size : ℕ) : (htonl size).length = 4 := rfl

theorem length_frame (msg : List UInt8) : (frame msg).length = msg.length + 4 := by
  unfold frame
  rw [List.length_append, length_htonl]
  omega

/-- The bytes are the begin of the next message, and not all of it. -/
def Begins (data : List UInt8) (msgs : List (List UInt8)) : Prop :=
  match msgs with
  | [] => data = []
  | msg :: _ => data <+: frame msg ∧ data.length < (frame msg).length

/-- **The loop of `uv_stream_msg_read`**: it calls the callback with the messages that are
complete, and leaves the begin of the next one. -/
theorem readLoop_spec {memory : Memory} {msgs : List (List UInt8)} {data later : List UInt8}
    (hsizes : ∀ msg ∈ msgs, msg.length + 4 < 2 ^ 31)
    (hdata : data ++ later = msgs.flatMap frame) {ptr fuel : ℕ} (hholds : memory.Holds ptr data)
    (hfuel : data.length < fuel) :
    ∃ done todo left ptr', msgs = done ++ todo ∧ left ++ later = todo.flatMap frame ∧
      Begins left todo ∧ readLoop memory fuel ptr data.length = some (done, ptr', left.length) ∧
      (left ≠ [] → memory.Holds ptr' left) := by
  induction msgs generalizing data ptr fuel with
  | nil =>
      obtain ⟨fuel, rfl⟩ := Nat.exists_eq_succ_of_ne_zero (Nat.ne_of_gt (Nat.zero_lt_of_lt hfuel))
      obtain ⟨rfl, rfl⟩ := List.append_eq_nil_iff.1 hdata
      exact ⟨[], [], [], ptr, rfl, rfl, rfl, rfl, fun h => absurd rfl h⟩
  | cons msg msgs ih =>
      obtain ⟨fuel, rfl⟩ := Nat.exists_eq_succ_of_ne_zero (Nat.ne_of_gt (Nat.zero_lt_of_lt hfuel))
      have hsize := hsizes msg List.mem_cons_self
      have hrest := fun m hm => hsizes m (List.mem_cons_of_mem _ hm)
      have hframe := length_frame msg
      rw [List.flatMap_cons] at hdata
      unfold readLoop
      rcases Nat.lt_or_ge data.length (frame msg).length with hshort | hlong
      · -- the message is not complete
        have hpre : data <+: frame msg :=
          List.prefix_of_prefix_length_le ⟨later, hdata⟩ ⟨_, rfl⟩ (Nat.le_of_lt hshort)
        refine ⟨[], msg :: msgs, data, ptr, rfl, hdata, ⟨hpre, hshort⟩, ?_, fun _ => hholds⟩
        split_ifs with hfour
        · obtain ⟨data', rfl⟩ : htonl msg.length <+: data :=
            List.prefix_of_prefix_length_le ⟨msg, rfl⟩ hpre hfour
          rw [Memory.entireMsg_of_header hsize (Memory.holds_append.1 hholds).1, Option.bind_some,
            if_neg (by omega)]
        · rfl
      · -- the callback is called with the message
        obtain ⟨data', rfl⟩ : frame msg <+: data :=
          List.prefix_of_prefix_length_le ⟨_, rfl⟩ ⟨later, hdata⟩ hlong
        rw [List.append_assoc] at hdata
        have hdata' := List.append_cancel_left hdata
        obtain ⟨hmsg, hleft⟩ := Memory.holds_append.1 hholds
        obtain ⟨hheader, hbody⟩ := Memory.holds_append.1 hmsg
        rw [List.length_append] at hfuel ⊢
        have hholds' : memory.Holds (if msg.length + 4 < (frame msg).length + data'.length then
            ptr + (msg.length + 4) else ptr) data' := by
          split_ifs with hmore
          · rwa [← hframe]
          · have hnil : data' = [] := List.length_eq_zero_iff.1 (by omega)
            rw [hnil]
            rfl
        obtain ⟨done, todo, left, ptr', hmsgs, hlater, hbegins, hloop, hheld⟩ :=
          ih hrest hdata' hholds' (by omega : data'.length < fuel)
        refine ⟨msg :: done, todo, left, ptr', by rw [hmsgs]; rfl, hlater, hbegins, ?_, hheld⟩
        have hbytes : memory.bytes (ptr + 4) (msg.length + 4 - 4) = some msg := hbody.bytes
        have hfilled : (frame msg).length + data'.length - (msg.length + 4) = data'.length := by
          omega
        rw [if_pos (by omega), Memory.entireMsg_of_header hsize hheader, Option.bind_some,
          if_pos (by omega), hbytes, Option.bind_some, hfilled, hloop]
        rfl

/-! ## The reader -/

/-- The reader keeps these bytes at the begin of its buffer. -/
structure Keeps (s : UvMsg) (data : List UInt8) : Prop where
  filled : s.filled = data.length
  empty : s.buf = none → data = []
  holds : ∀ memory ∈ s.buf, memory.length = s.allocSize ∧ memory.Holds 0 data

theorem keeps_init : Keeps uvMsgInit [] := ⟨rfl, fun _ => rfl, by simp [uvMsgInit]⟩

/-- The memory is at least as long as the bytes that are kept there. -/
theorem Memory.Holds.le {memory : Memory} {ptr : ℕ} {data : List UInt8}
    (h : memory.Holds ptr data) (hne : data ≠ []) : ptr + data.length ≤ memory.length := by
  have hlength := congrArg List.length h
  have hpos := List.length_pos_iff.2 hne
  rw [List.length_take, List.length_drop, List.length_map] at hlength
  omega

/-- The end of `uv_stream_msg_read`: what is left is moved to the begin of the buffer. -/
def moveRest (memory : Memory) (ptr filled : ℕ) (s : UvMsg) : UvMsg :=
  if 0 < ptr ∧ 0 < filled then { s with
    buf := some ((memory.drop ptr).take filled ++ memory.drop filled)
    filled }
  else if filled = 0 then uvStreamMsgFreeBuffer { s with buf := some memory, filled }
  else { s with buf := some memory, filled }

/-- What is left is kept. -/
theorem keeps_moveRest {s : UvMsg} {memory : Memory} {left : List UInt8} {ptr : ℕ}
    (hlength : memory.length = s.allocSize) (hheld : left ≠ [] → memory.Holds ptr left) :
    Keeps (moveRest memory ptr left.length s) left := by
  unfold moveRest
  split_ifs with hmove hempty
  · have hne : left ≠ [] := List.length_pos_iff.1 hmove.2
    have hle := (hheld hne).le hne
    have hcopy : (memory.drop ptr).take left.length = left.map some := hheld hne
    refine ⟨rfl, fun h => absurd h (by simp), fun m hm => ?_⟩
    obtain rfl := Option.some.inj hm
    refine ⟨?_, Memory.holds_of_take (congrArg (· ++ _) hcopy)⟩
    rw [hcopy, List.length_append, List.length_map, List.length_drop, hlength]
    dsimp only
    omega
  · exact ⟨rfl, fun _ => List.length_eq_zero_iff.1 hempty, by simp [uvStreamMsgFreeBuffer]⟩
  · have hne : left ≠ [] := fun h => hempty (h ▸ rfl)
    have hzero : ptr = 0 := by
      by_contra hpos
      exact hmove ⟨Nat.pos_of_ne_zero hpos, List.length_pos_iff.2 hne⟩
    refine ⟨rfl, fun h => absurd h (by simp), fun m hm => ?_⟩
    obtain rfl := Option.some.inj hm
    exact ⟨hlength, hzero ▸ hheld hne⟩

/-- **`uv_stream_msg_read`** calls the callback with the messages that are complete. -/
theorem uvStreamMsgRead_spec {s : UvMsg} {memory : Memory} {data bytes later : List UInt8}
    {msgs : List (List UInt8)} (hkeeps : Keeps s data) (hbuf : s.buf = some memory)
    (hroom : data.length + bytes.length ≤ s.allocSize)
    (hsizes : ∀ msg ∈ msgs, msg.length + 4 < 2 ^ 31) (hbegins : Begins data msgs)
    (hdata : data ++ (bytes ++ later) = msgs.flatMap frame) :
    ∃ done todo left s', msgs = done ++ todo ∧ left ++ later = todo.flatMap frame ∧
      Begins left todo ∧ uvStreamMsgRead bytes s = some (done, s') ∧ Keeps s' left := by
  unfold uvStreamMsgRead
  by_cases hnil : bytes = []
  · rw [if_pos hnil]
    rw [hnil, List.nil_append] at hdata
    exact ⟨[], msgs, data, s, rfl, hdata, hbegins, rfl, hkeeps⟩
  obtain ⟨hlength, hholds⟩ := hkeeps.holds memory hbuf
  have htake : memory.take s.filled = data.map some := by
    rw [hkeeps.filled]
    exact hholds
  have hfilled : s.filled + bytes.length = (data ++ bytes).length := by
    rw [hkeeps.filled, List.length_append]
  rw [if_neg hnil, hbuf]
  dsimp only
  rw [htake, hfilled, ← List.map_append]
  generalize hwritten : (data ++ bytes).map some ++ memory.drop (data ++ bytes).length = written
  have hwrittenLength : written.length = s.allocSize := by
    rw [← hwritten, List.length_append, List.length_map, List.length_drop, List.length_append]
    omega
  have hwrittenHolds : Memory.Holds written 0 (data ++ bytes) := Memory.holds_of_take hwritten.symm
  rw [← List.append_assoc] at hdata
  obtain ⟨done, todo, left, ptr, hmsgs, hlater, hleft, hloop, hheld⟩ :=
    readLoop_spec hsizes hdata hwrittenHolds (Nat.lt_succ_self _)
  rw [hloop]
  exact ⟨done, todo, left, _, hmsgs, hlater, hleft, rfl, keeps_moveRest hwrittenLength hheld⟩

/-- The header of a message that has begun. -/
theorem entireMsg_of_begins {memory : Memory} {data : List UInt8} {msgs : List (List UInt8)}
    (hholds : memory.Holds 0 data) (hbegins : Begins data msgs)
    (hsizes : ∀ msg ∈ msgs, msg.length + 4 < 2 ^ 31) (hfour : 4 ≤ data.length) :
    ∃ entireMsg, memory.entireMsg 0 = some entireMsg ∧ data.length < entireMsg := by
  cases msgs with
  | nil =>
      rw [show data = [] from hbegins] at hfour
      exact absurd hfour (by decide)
  | cons msg msgs =>
      obtain ⟨hpre, hshort⟩ := hbegins
      obtain ⟨data', rfl⟩ : htonl msg.length <+: data :=
        List.prefix_of_prefix_length_le ⟨msg, rfl⟩ hpre hfour
      rw [length_frame] at hshort
      exact ⟨_, Memory.entireMsg_of_header (hsizes msg List.mem_cons_self)
        (Memory.holds_append.1 hholds).1, hshort⟩

/-- If there is a header, then it is one of a message that is not complete. -/
def Unfinished (data : List UInt8) : Prop :=
  ∀ memory : Memory, memory.Holds 0 data → 4 ≤ data.length →
    ∃ entireMsg, memory.entireMsg 0 = some entireMsg ∧ data.length < entireMsg

/-- Memory for more bytes is allocated. -/
theorem uvStreamMsgRealloc_spec {alloc : ℕ → Option ℕ} {size : ℕ} {memory memory' : Memory}
    {s s' : UvMsg} {data : List UInt8} (hfilled : s.filled = data.length)
    (hholds : memory.Holds 0 data) (hsize : data.length ≤ size)
    (h : uvStreamMsgRealloc alloc size memory s = some (memory', s')) :
    s'.buf = some memory' ∧ s'.filled = s.filled ∧ size ≤ s'.allocSize ∧ Keeps s' data := by
  unfold uvStreamMsgRealloc at h
  split at h
  · simp at h
  rename_i len _
  split_ifs at h with hless
  obtain ⟨rfl, rfl⟩ := Prod.mk.inj (Option.some.inj h)
  have htake : memory.take s.filled = data.map some := by
    rw [hfilled]
    exact hholds
  refine ⟨rfl, rfl, Nat.le_of_not_lt hless, hfilled, fun hnone => absurd hnone (by simp),
    fun m hm => ?_⟩
  obtain rfl := Option.some.inj hm
  refine ⟨?_, Memory.holds_of_take (congrArg (· ++ _) htake)⟩
  rw [htake, List.length_append, List.length_map, List.length_replicate]
  dsimp only
  omega

/-- The memory that is allocated keeps nothing. -/
theorem uvStreamMsgOpen_spec {alloc : ℕ → Option ℕ} {suggestedSize : ℕ} {s s' : UvMsg}
    {memory : Memory} {data : List UInt8} (hkeeps : Keeps s data)
    (h : uvStreamMsgOpen alloc suggestedSize s = some (memory, s')) :
    s'.buf = some memory ∧ Keeps s' data := by
  unfold uvStreamMsgOpen at h
  rcases hnone : s.buf with _ | opened
  · rw [hnone] at h
    dsimp only at h
    obtain ⟨len, -, h⟩ := Option.map_eq_some_iff.1 h
    obtain ⟨rfl, rfl⟩ := Prod.mk.inj h
    refine ⟨rfl, hkeeps.filled, fun hbuf => absurd hbuf (by simp), fun m hm => ?_⟩
    obtain rfl := Option.some.inj hm
    rw [hkeeps.empty hnone]
    exact ⟨List.length_replicate, rfl⟩
  · rw [hnone] at h
    obtain ⟨rfl, rfl⟩ := Prod.mk.inj (Option.some.inj h)
    exact ⟨hnone, hkeeps⟩

/-- `uv_stream_msg_alloc` keeps what was received, and returns the memory after it. -/
theorem uvStreamMsgAlloc_spec {alloc : ℕ → Option ℕ} {suggestedSize len : ℕ} {s s' : UvMsg}
    {data : List UInt8} (hkeeps : Keeps s data) (hheader : Unfinished data)
    (h : uvStreamMsgAlloc alloc suggestedSize s = some (some len, s')) :
    Keeps s' data ∧ (∃ memory, s'.buf = some memory) ∧ data.length + len ≤ s'.allocSize := by
  unfold uvStreamMsgAlloc at h
  rcases hopen : uvStreamMsgOpen alloc suggestedSize s with _ | ⟨memory, opened⟩
  · simp [hopen] at h
  rw [hopen] at h
  dsimp only at h
  obtain ⟨hbuf, hkept⟩ := uvStreamMsgOpen_spec hkeeps hopen
  obtain ⟨hlength, hholds⟩ := hkept.holds memory hbuf
  have hfilled := hkept.filled
  split_ifs at h with hfour hsmall
  · -- the memory of the rest of the message
    obtain ⟨entireMsg, hentire, hmore⟩ :=
      hheader memory hholds (by omega : 4 ≤ data.length)
    rw [hentire, Option.map_some] at h
    split_ifs at h with hless
    · rcases hrealloc : uvStreamMsgRealloc alloc entireMsg memory opened with _ | ⟨memory', s''⟩
      · simp [hrealloc] at h
      · rw [hrealloc] at h
        obtain ⟨hlen, rfl⟩ := Prod.mk.inj (Option.some.inj h)
        have := Option.some.inj hlen
        obtain ⟨hbuf', hfilled', hsize, hkeeps'⟩ :=
          uvStreamMsgRealloc_spec hfilled hholds (Nat.le_of_lt hmore) hrealloc
        exact ⟨hkeeps', ⟨memory', hbuf'⟩, by omega⟩
    · obtain ⟨hlen, rfl⟩ := Prod.mk.inj (Option.some.inj h)
      have := Option.some.inj hlen
      exact ⟨hkept, ⟨memory, hbuf⟩, by omega⟩
  · -- more memory for a header
    rcases hrealloc : uvStreamMsgRealloc alloc (64 * 1024) memory opened with _ | ⟨memory', s''⟩
    · simp [hrealloc] at h
    · rw [hrealloc] at h
      obtain ⟨hlen, rfl⟩ := Prod.mk.inj (Option.some.inj h)
      obtain ⟨hbuf', hfilled', hsize, hkeeps'⟩ :=
        uvStreamMsgRealloc_spec hfilled hholds (by omega) hrealloc
      have := Option.some.inj hlen
      exact ⟨hkeeps', ⟨memory', hbuf'⟩, by omega⟩
  · obtain ⟨hlen, rfl⟩ := Prod.mk.inj (Option.some.inj h)
    have := Option.some.inj hlen
    exact ⟨hkept, ⟨memory, hbuf⟩, by omega⟩

/-- Where memory is returned as it is asked for, there is some for the next read. -/
theorem uvStreamMsgAlloc_defined {alloc : ℕ → Option ℕ} {suggestedSize : ℕ} {s : UvMsg}
    {data : List UInt8} (hkeeps : Keeps s data) (hheader : Unfinished data)
    (halloc : ∀ size, ∃ len, alloc size = some len ∧ size ≤ len) :
    ∃ len s', uvStreamMsgAlloc alloc suggestedSize s = some (some len, s') ∧ 0 < len := by
  have hrealloc : ∀ size (memory : Memory) s, ∃ memory' s',
      uvStreamMsgRealloc alloc size memory s = some (memory', s') ∧ s'.filled = s.filled ∧
        size ≤ s'.allocSize := by
    intro size memory s
    obtain ⟨len, hlen, hle⟩ := halloc size
    unfold uvStreamMsgRealloc
    rw [hlen]
    dsimp only
    rw [if_neg (Nat.not_lt.2 hle)]
    exact ⟨_, _, rfl, rfl, hle⟩
  obtain ⟨memory, opened, hopen⟩ : ∃ memory opened,
      uvStreamMsgOpen alloc suggestedSize s = some (memory, opened) := by
    obtain ⟨len, hlen, -⟩ := halloc suggestedSize
    unfold uvStreamMsgOpen
    rw [hlen]
    cases s.buf with
    | none => exact ⟨_, _, rfl⟩
    | some memory => exact ⟨_, _, rfl⟩
  obtain ⟨hbuf, hkept⟩ := uvStreamMsgOpen_spec hkeeps hopen
  obtain ⟨-, hholds⟩ := hkept.holds memory hbuf
  have hfilled := hkept.filled
  unfold uvStreamMsgAlloc
  rw [hopen]
  dsimp only
  split_ifs with hfour hsmall
  · obtain ⟨entireMsg, hentire, hmore⟩ :=
      hheader memory hholds (by omega : 4 ≤ data.length)
    rw [hentire, Option.map_some]
    split_ifs with hless
    · obtain ⟨memory', s', h, hfilled', -⟩ := hrealloc entireMsg memory opened
      rw [h]
      exact ⟨_, _, rfl, by omega⟩
    · exact ⟨_, _, rfl, by omega⟩
  · obtain ⟨memory', s', h, hfilled', hsize⟩ := hrealloc (64 * 1024) memory opened
    rw [h]
    exact ⟨_, _, rfl, by omega⟩
  · exact ⟨_, _, rfl, by omega⟩

/-! ## A stream of messages -/

theorem flatten_of_send {msgs sent : List (List UInt8)} (h : msgs.mapM uvMsgSend = some sent) :
    sent.flatten = msgs.flatMap frame := by
  induction msgs generalizing sent with
  | nil =>
      obtain rfl := Option.some.inj h
      rfl
  | cons msg msgs ih =>
      rw [List.mapM_cons] at h
      obtain ⟨bytes, hbytes, h⟩ := Option.bind_eq_some_iff.1 h
      obtain ⟨rest, hrest, h⟩ := Option.bind_eq_some_iff.1 h
      obtain rfl := Option.some.inj h
      unfold uvMsgSend at hbytes
      split_ifs at hbytes
      rw [List.flatten_cons, List.flatMap_cons, ih hrest, ← Option.some.inj hbytes]
      rfl

/-- A reader that keeps the begin of the next message calls the callback with this one and
those after it. -/
theorem readAll_spec {msgs : List (List UInt8)} {reads : List Read} {data : List UInt8} {s : UvMsg}
    (hsizes : ∀ msg ∈ msgs, msg.length + 4 < 2 ^ 31) (hkeeps : Keeps s data)
    (hbegins : Begins data msgs)
    (hstream : data ++ reads.flatMap Read.bytes = msgs.flatMap frame) (hfits : Fits reads s) :
    ∃ s', readAll reads s = some (msgs, s') ∧ Keeps s' [] := by
  induction reads generalizing msgs data s with
  | nil =>
      rw [List.flatMap_nil, List.append_nil] at hstream
      have hnil : msgs = [] := by
        cases msgs with
        | nil => rfl
        | cons msg msgs =>
            have hshort := hbegins.2
            rw [hstream, List.flatMap_cons, List.length_append] at hshort
            omega
      subst hnil
      have hdata : data = [] := hstream
      exact ⟨s, rfl, hdata ▸ hkeeps⟩
  | cons read reads ih =>
      obtain ⟨len, s₁, halloc, hlen, hrest⟩ := hfits
      have hheader : Unfinished data := fun m hm hfour => entireMsg_of_begins hm hbegins hsizes hfour
      obtain ⟨hkeeps₁, ⟨memory, hbuf⟩, hroom⟩ := uvStreamMsgAlloc_spec hkeeps hheader halloc
      rw [List.flatMap_cons] at hstream
      obtain ⟨done, todo, left, s₂, rfl, hlater, hleft, hread, hkeeps₂⟩ :=
        uvStreamMsgRead_spec hkeeps₁ hbuf (by omega) hsizes hbegins hstream
      obtain ⟨s', hall, hkeeps'⟩ := ih (fun msg hmsg => hsizes msg (List.mem_append_right _ hmsg))
        hkeeps₂ hleft hlater (hrest done s₂ hread)
      refine ⟨s', ?_, hkeeps'⟩
      unfold readAll
      rw [halloc, Option.bind_some]
      dsimp only
      rw [hread, Option.bind_some]
      dsimp only
      rw [hall, Option.map_some]

theorem begins_nil (msgs : List (List UInt8)) : Begins [] msgs := by
  cases msgs with
  | nil => exact rfl
  | cons msg msgs => exact ⟨List.nil_prefix, by rw [length_frame]; exact Nat.succ_pos _⟩

/-- **The callback is called with the messages that were sent**, each once and in order,
however their bytes are cut into reads. -/
theorem received_eq_sent {msgs sent : List (List UInt8)} {reads : List Read}
    (hsent : msgs.mapM uvMsgSend = some sent) (hsizes : ∀ msg ∈ msgs, msg.length ≤ 2 ^ 31 - 5)
    (hstream : reads.flatMap Read.bytes = sent.flatten) (hfits : Fits reads uvMsgInit) :
    ∃ s, readAll reads uvMsgInit = some (msgs, s) ∧ s.filled = 0 := by
  obtain ⟨s, hread, hkeeps⟩ := @readAll_spec msgs reads [] uvMsgInit
    (fun msg hmsg => by have := hsizes msg hmsg; omega) keeps_init (begins_nil msgs)
    (by rw [List.nil_append, hstream, flatten_of_send hsent]) hfits
  exact ⟨s, hread, hkeeps.filled⟩

/-- Two messages, the first cut in its header. -/
theorem received_eq_sent_cut :
    ∃ s, readAll [⟨9, some, [0, 0]⟩, ⟨9, some, [0, 1, 7, 0, 0, 0]⟩, ⟨9, some, [2, 8, 9]⟩]
      uvMsgInit = some ([[7], [8, 9]], s) ∧ s.filled = 0 := by
  refine @received_eq_sent [[7], [8, 9]] [[0, 0, 0, 1, 7], [0, 0, 0, 2, 8, 9]] _ (by decide)
    (by decide) (by decide) ?_
  have hfirst : uvStreamMsgAlloc some 9 uvMsgInit =
      some (some 9, ⟨some (List.replicate 9 none), 9, 0⟩) := by decide
  have hsecond : uvStreamMsgRead [0, 0] ⟨some (List.replicate 9 none), 9, 0⟩ =
      some ([], ⟨some ([some 0, some 0] ++ List.replicate 7 none), 9, 2⟩) := by decide
  have hthird : uvStreamMsgRead [0, 1, 7, 0, 0, 0]
        ⟨some ([some 0, some 0] ++ List.replicate 7 none), 9, 2⟩ =
      some ([[7]], ⟨some ([some 0, some 0, some 0, some 1, some 7, some 0, some 0, some 0, none]),
        9, 3⟩) := by decide
  have hlast : uvStreamMsgRead [2, 8, 9]
        ⟨some ([some 0, some 0, some 0, some 1, some 7, some 0, some 0, some 0, none]), 9, 3⟩ =
      some ([[8, 9]], ⟨none, 0, 0⟩) := by decide
  exact fits_cons hfirst (by decide) hsecond
    (fits_cons rfl (show 6 ≤ 7 by decide) hthird
      (fits_cons rfl (show 3 ≤ 6 by decide) hlast trivial))

end Common
end AergoLite
