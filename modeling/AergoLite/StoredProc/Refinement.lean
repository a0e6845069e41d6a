/-
# The interpreter of stored procedures follows the structured semantics

The loop of `executeStoredProcedure` runs the commands that the structured semantics of its blocks
run, in that order, as long as every FOREACH is begun at its first item and has a list
(`Block.follows`).  It is begun where `current_item` is, though, and that is where it was left
before; and without a list its body is executed as if there were an item.
-/

import AergoLite.StoredProc.Semantics
import Mathlib.Data.List.Infix

namespace AergoLite
namespace StoredProc

variable {σ : Type} {e : Engine σ} {cmds : List Command}

/-! ## How far a FOREACH has come -/

/-- The `current_item` of a FOREACH, after what has run. -/
def position (pos : ℕ) (ran : List Event) : ℕ :=
  ran.foldl (fun item event =>
    match event with
    | .fetched q _ next => if q = pos then next else item
    | _ => item) 0

theorem position_append_fetched (pos q item next : ℕ) (ran : List Event) :
    position pos (ran ++ [.fetched q item next]) = if q = pos then next else position pos ran := by
  rw [position, List.foldl_append]
  rfl

theorem position_append_executed (pos q : ℕ) (ran : List Event) :
    position pos (ran ++ [.executed q]) = position pos ran := by
  rw [position, List.foldl_append]
  rfl

theorem position_append_tested (pos q : ℕ) (ran : List Event) :
    position pos (ran ++ [.tested q]) = position pos ran := by
  rw [position, List.foldl_append]
  rfl

/-- **No FOREACH is begun that was not executed to its end before.** -/
def Fresh (ran : List Event) : Prop :=
  ∀ pre pos next post, ran = pre ++ .fetched pos 0 next :: post → position pos pre = 0

theorem Fresh.of_prefix {ran ran' : List Event} (h : Fresh ran') (hle : ran <+: ran') :
    Fresh ran := by
  obtain ⟨more, rfl⟩ := hle
  intro pre pos next post heq
  exact h pre pos next (post ++ more) (by rw [heq, List.append_assoc, List.cons_append])

/-- **A run that the interpreter can follow**: no FOREACH is begun that was not executed to its end
before, and each has a list to go through. -/
structure Regular (ran : List Event) : Prop where
  fresh : Fresh ran
  lists : ∀ pos, .rejected pos ∉ ran

theorem Regular.of_prefix {ran ran' : List Event} (h : Regular ran') (hle : ran <+: ran') :
    Regular ran :=
  ⟨h.fresh.of_prefix hle, fun pos hmem => h.lists pos (hle.subset hmem)⟩

/-- What has run, and `current_item`, are in step. -/
def Tracks (s : Execution σ) : Prop := ∀ pos, s.currentItem pos = position pos s.world.ran

theorem Tracks.execute {s : Execution σ} (h : Tracks s) (pos : ℕ) :
    Tracks { s with world := (s.world.execute e pos).2 } := fun q =>
  (h q).trans (position_append_executed q pos s.world.ran).symm

theorem Tracks.test {s : Execution σ} (h : Tracks s) (pos : ℕ) :
    Tracks { s with world := (s.world.test e pos).2 } := fun q =>
  (h q).trans (position_append_tested q pos s.world.ran).symm

theorem Tracks.fetch {s : Execution σ} (h : Tracks s) (pos item : ℕ) :
    Tracks { s with
      world := (s.world.fetch e pos item).2.2
      currentItem := Function.update s.currentItem pos (s.world.fetch e pos item).2.1 } := by
  intro q
  refine Eq.trans ?_ (position_append_fetched q pos item _ s.world.ran).symm
  by_cases hq : q = pos
  · subst hq
    rw [if_pos rfl]
    exact Function.update_self ..
  · rw [if_neg (Ne.symm hq), ← h q]
    exact Function.update_of_ne hq ..

/-! ## Steps of the interpreter -/

/-- The commands of a sequence are at a position. -/
def CodeAt (cmds : List Command) (pos : ℕ) (code : List Command) : Prop := code <+: cmds.drop pos

theorem CodeAt.head {pos : ℕ} {c : Command} {code : List Command}
    (h : CodeAt cmds pos (c :: code)) : cmds[pos]? = some c := by
  obtain ⟨post, hpost⟩ := h
  rw [← Nat.add_zero pos, ← List.getElem?_drop, ← hpost]
  rfl

theorem CodeAt.left {pos : ℕ} {code code' : List Command} (h : CodeAt cmds pos (code ++ code')) :
    CodeAt cmds pos code :=
  (List.prefix_append code code').trans h

theorem CodeAt.right {pos : ℕ} {code code' : List Command} (h : CodeAt cmds pos (code ++ code')) :
    CodeAt cmds (pos + code.length) code' := by
  have hdrop := List.IsPrefix.drop h code.length
  rwa [List.drop_left, List.drop_drop] at hdrop

theorem CodeAt.tail {pos : ℕ} {c : Command} {code : List Command}
    (h : CodeAt cmds pos (c :: code)) : CodeAt cmds (pos + 1) code :=
  @CodeAt.right cmds pos [c] code h

/-- The interpreter comes from one position to another one. -/
def Leads (e : Engine σ) (cmds : List Command) (k p : ℕ) (s : Execution σ) (p' : ℕ)
    (s' : Execution σ) : Prop :=
  ∀ fuel, commandLoop e cmds (k + fuel) p s = commandLoop e cmds fuel p' s'

theorem Leads.refl (p : ℕ) (s : Execution σ) : Leads e cmds 0 p s p s := fun fuel => by
  rw [Nat.zero_add]

theorem Leads.trans {k k' p p' p'' : ℕ} {s s' s'' : Execution σ} (h : Leads e cmds k p s p' s')
    (h' : Leads e cmds k' p' s' p'' s'') : Leads e cmds (k + k') p s p'' s'' := fun fuel => by
  rw [Nat.add_assoc, h, h']

theorem Leads.one {p p' : ℕ} {cmd : Command} {s s' : Execution σ} (hcmd : cmds[p]? = some cmd)
    (h : executeCommand e cmds p cmd s = (.goto p', s')) : Leads e cmds 1 p s p' s' :=
  fun fuel => by rw [Nat.add_comm, commandLoop, hcmd]; dsimp only; rw [h]

theorem ends_one {p : ℕ} {cmd : Command} {s s' : Execution σ} {x : Ended}
    (hcmd : cmds[p]? = some cmd) (h : executeCommand e cmds p cmd s = (.ended x, s'))
    (fuel : ℕ) : commandLoop e cmds (1 + fuel) p s = (x, s') := by
  rw [Nat.add_comm, commandLoop, hcmd]
  dsimp only
  rw [h]

/-- Commands outside of a range are as they were. -/
structure Frame (lo hi : ℕ) (s s' : Execution σ) : Prop where
  executed : ∀ q, q < lo ∨ hi ≤ q → s'.executed q = s.executed q
  currentItem : ∀ q, q < lo ∨ hi ≤ q → s'.currentItem q = s.currentItem q

theorem Frame.refl (lo hi : ℕ) (s : Execution σ) : Frame lo hi s s :=
  ⟨fun _ _ => rfl, fun _ _ => rfl⟩

theorem Frame.trans {lo hi : ℕ} {s s' s'' : Execution σ} (h : Frame lo hi s s')
    (h' : Frame lo hi s' s'') : Frame lo hi s s'' :=
  ⟨fun q hq => (h'.executed q hq).trans (h.executed q hq),
    fun q hq => (h'.currentItem q hq).trans (h.currentItem q hq)⟩

theorem Frame.widen {lo lo' hi hi' : ℕ} {s s' : Execution σ} (h : Frame lo hi s s')
    (hlo : lo' ≤ lo) (hhi : hi ≤ hi') : Frame lo' hi' s s' :=
  ⟨fun q hq => h.executed q (by omega), fun q hq => h.currentItem q (by omega)⟩

/-- A flag in the range is set. -/
theorem Frame.setExecuted {lo hi pos : ℕ} (s : Execution σ) (hlo : lo ≤ pos) (hhi : pos < hi)
    (flag : Bool) (w : World σ) : Frame lo hi s ({ s with world := w }.setExecuted pos flag) :=
  ⟨fun q hq => Function.update_of_ne (by omega) .., fun _ _ => rfl⟩

/-! ## The interpreter follows the semantics -/

/-- Where the interpreter goes on after a sequence that ends at a position. -/
def landing (cmds : List Command) (loops : List ℕ) (after : ℕ) : Outcome → ℕ
  | .normal => after
  | .brk level => endOf cmds (loops.getD level 0) + 1
  | .cont level => loops.getD level 0
  | .ended _ => 0

/-- **The interpreter does the same**, within the range of a sequence: it goes on where the outcome
says, or ends, or is still running after `n` commands. -/
def Follows (e : Engine σ) (cmds : List Command) (n : ℕ) (loops : List ℕ) (lo hi : ℕ)
    (r : Outcome × World σ) (p : ℕ) (s : Execution σ) : Prop :=
  ∃ k s', s'.world = r.2 ∧ Tracks s' ∧
    match r.1 with
    | .ended .running => n ≤ k ∧ commandLoop e cmds k p s = (.running, s')
    | .ended x => ∀ fuel, commandLoop e cmds (k + fuel) p s = (x, s')
    | outcome => Leads e cmds k p s (landing cmds loops hi outcome) s' ∧ Frame lo hi s s'

namespace Follows

variable {n : ℕ} {loops : List ℕ} {lo hi : ℕ} {r : Outcome × World σ} {p : ℕ} {s : Execution σ}

/-- Fewer commands. -/
theorem mono {m : ℕ} (h : Follows e cmds n loops lo hi r p s) (hle : m ≤ n) :
    Follows e cmds m loops lo hi r p s := by
  obtain ⟨k, s', hworld, htracks, h⟩ := h
  refine ⟨k, s', hworld, htracks, ?_⟩
  obtain ⟨outcome, w⟩ := r
  match outcome with
  | .normal => exact h
  | .brk _ => exact h
  | .cont _ => exact h
  | .ended .running => exact ⟨Nat.le_trans hle h.1, h.2⟩
  | .ended (.exit _) => exact h
  | .ended (.error _) => exact h

/-- Commands that come before. -/
theorem prepend {k₀ p₀ : ℕ} {s₀ : Execution σ} (hleads : Leads e cmds k₀ p₀ s₀ p s)
    (hframe : Frame lo hi s₀ s) (h : Follows e cmds n loops lo hi r p s) :
    Follows e cmds (k₀ + n) loops lo hi r p₀ s₀ := by
  obtain ⟨k, s', hworld, htracks, h⟩ := h
  refine ⟨k₀ + k, s', hworld, htracks, ?_⟩
  obtain ⟨outcome, w⟩ := r
  match outcome with
  | .normal => exact ⟨hleads.trans h.1, hframe.trans h.2⟩
  | .brk _ => exact ⟨hleads.trans h.1, hframe.trans h.2⟩
  | .cont _ => exact ⟨hleads.trans h.1, hframe.trans h.2⟩
  | .ended .running => exact ⟨Nat.add_le_add_left h.1 _, (hleads k).trans h.2⟩
  | .ended (.exit _) => exact fun fuel => by rw [Nat.add_assoc, hleads]; exact h fuel
  | .ended (.error _) => exact fun fuel => by rw [Nat.add_assoc, hleads]; exact h fuel

/-- A sequence that does not end normally is one of a larger range. -/
theorem widen {lo' hi' : ℕ} (h : Follows e cmds n loops lo hi r p s) (hlo : lo' ≤ lo)
    (hhi : hi ≤ hi') (hr : r.1 ≠ .normal) : Follows e cmds n loops lo' hi' r p s := by
  obtain ⟨k, s', hworld, htracks, h⟩ := h
  refine ⟨k, s', hworld, htracks, ?_⟩
  obtain ⟨outcome, w⟩ := r
  match outcome with
  | .normal => exact absurd rfl hr
  | .brk _ => exact ⟨h.1, h.2.widen hlo hhi⟩
  | .cont _ => exact ⟨h.1, h.2.widen hlo hhi⟩
  | .ended .running => exact h
  | .ended (.exit _) => exact h
  | .ended (.error _) => exact h

/-- **One sequence after the other.** -/
theorem andThen {mid : ℕ} {next : World σ → Outcome × World σ}
    (h : Follows e cmds n loops lo mid r p s) (hlo : lo ≤ mid) (hhi : mid ≤ hi)
    (hnext : ∀ s', s'.world = r.2 → Tracks s' → r.1 = .normal →
      Follows e cmds n loops mid hi (next r.2) mid s') :
    Follows e cmds n loops lo hi (StoredProc.andThen r next) p s := by
  by_cases hr : r.1 = .normal
  · obtain ⟨k, s', hworld, htracks, h⟩ := h
    have hnext := hnext s' hworld htracks hr
    obtain ⟨outcome, w⟩ := r
    obtain rfl : outcome = .normal := hr
    obtain ⟨hleads, hframe⟩ := h
    obtain ⟨k', s'', hworld', htracks', h'⟩ := hnext
    refine ⟨k + k', s'', hworld', htracks', ?_⟩
    show match (next w).1 with
      | .ended .running => _
      | .ended x => _
      | outcome => _
    generalize next w = r' at hworld' h'
    obtain ⟨outcome, w'⟩ := r'
    have hwide := hframe.widen (Nat.le_refl lo) hhi
    match outcome with
    | .normal => exact ⟨hleads.trans h'.1, hwide.trans (h'.2.widen hlo (Nat.le_refl hi))⟩
    | .brk _ => exact ⟨hleads.trans h'.1, hwide.trans (h'.2.widen hlo (Nat.le_refl hi))⟩
    | .cont _ => exact ⟨hleads.trans h'.1, hwide.trans (h'.2.widen hlo (Nat.le_refl hi))⟩
    | .ended .running => exact ⟨Nat.le_trans h'.1 (Nat.le_add_left _ _), (hleads k').trans h'.2⟩
    | .ended (.exit _) => exact fun fuel => by rw [Nat.add_assoc, hleads]; exact h' fuel
    | .ended (.error _) => exact fun fuel => by rw [Nat.add_assoc, hleads]; exact h' fuel
  · have heq : StoredProc.andThen r next = r := by
      obtain ⟨outcome, w⟩ := r
      cases outcome with
      | normal => exact absurd rfl hr
      | _ => rfl
    rw [heq]
    exact h.widen (Nat.le_refl lo) hhi hr

/-- Nothing is executed. -/
theorem here (hi lo p : ℕ) (htracks : Tracks s) (hp : p = hi) :
    Follows e cmds 0 loops lo hi (.normal, s.world) p s :=
  ⟨0, s, rfl, htracks, hp ▸ Leads.refl p s, Frame.refl lo hi s⟩

/-- An error ends the call. -/
theorem fails {cmd : Command} {s' : Execution σ} {x : Ended} (hcmd : cmds[p]? = some cmd)
    (h : executeCommand e cmds p cmd s = (.ended x, s')) (hx : x ≠ .running)
    (htracks : Tracks s') (n lo hi : ℕ) :
    Follows e cmds n loops lo hi (.ended x, s'.world) p s := by
  refine ⟨1, s', rfl, htracks, ?_⟩
  match x with
  | .running => exact absurd rfl hx
  | .exit _ => exact ends_one hcmd h
  | .error _ => exact ends_one hcmd h

/-- What comes after a sequence that ends normally is skipped. -/
theorem extend {lo' mid : ℕ} (h : Follows e cmds n loops lo mid r p s) (hlo : lo' ≤ lo)
    (hhi : mid ≤ hi) (hskip : ∀ s', Frame lo mid s s' → ∃ k, Leads e cmds k mid s' hi s') :
    Follows e cmds n loops lo' hi r p s := by
  by_cases hr : r.1 = .normal
  · obtain ⟨k, s', hworld, htracks, h⟩ := h
    obtain ⟨outcome, w⟩ := r
    obtain rfl : outcome = .normal := hr
    obtain ⟨hleads, hframe⟩ := h
    obtain ⟨k', hleads'⟩ := hskip s' hframe
    exact ⟨k + k', s', hworld, htracks, hleads.trans hleads', hframe.widen hlo hhi⟩
  · exact h.widen hlo hhi hr

end Follows

/-! ## Loops -/

/-- **After the body of a loop**: the interpreter is back at its first command, or does what the
loop does. -/
theorem follows_afterBody {n pos last : ℕ} {loops : List ℕ} {r : Outcome × World σ}
    {s : Execution σ} (hend : cmds[last]? = some ⟨.endloop, 0, pos⟩)
    (hstart : endOf cmds pos = last)
    (h : Follows e cmds n (pos :: loops) (pos + 1) last r (pos + 1) s) :
    match r.1.afterBody with
    | none => ∃ k s', s'.world = r.2 ∧ Tracks s' ∧ Leads e cmds k (pos + 1) s pos s' ∧
        Frame (pos + 1) last s s'
    | some outcome => Follows e cmds n loops pos (last + 1) (outcome, r.2) (pos + 1) s := by
  obtain ⟨k, s', hworld, htracks, h⟩ := h
  obtain ⟨outcome, w⟩ := r
  match outcome with
  | .normal =>
      have hjump : executeCommand e cmds last ⟨.endloop, 0, pos⟩ s' = (.goto pos, s') := rfl
      exact ⟨k + 1, s', hworld, htracks, h.1.trans (Leads.one hend hjump), h.2⟩
  | .cont 0 => exact ⟨k, s', hworld, htracks, h.1, h.2⟩
  | .brk 0 =>
      have hleads : Leads e cmds k (pos + 1) s (last + 1) s' := hstart ▸ h.1
      exact ⟨k, s', hworld, htracks, hleads, h.2.widen (Nat.le_succ _) (Nat.le_succ _)⟩
  | .brk (level + 1) =>
      exact ⟨k, s', hworld, htracks, h.1, h.2.widen (Nat.le_succ _) (Nat.le_succ _)⟩
  | .cont (level + 1) =>
      exact ⟨k, s', hworld, htracks, h.1, h.2.widen (Nat.le_succ _) (Nat.le_succ _)⟩
  | .ended .running => exact ⟨k, s', hworld, htracks, h⟩
  | .ended (.exit _) => exact ⟨k, s', hworld, htracks, h⟩
  | .ended (.error _) => exact ⟨k, s', hworld, htracks, h⟩

section
variable {n pos last : ℕ} {loops : List ℕ} {body : World σ → Outcome × World σ}

/-- What the interpreter does with the body of a loop. -/
def BodyFollows (e : Engine σ) (cmds : List Command) (n pos last : ℕ) (loops : List ℕ)
    (body : World σ → Outcome × World σ) : Prop :=
  ∀ s, Tracks s → Regular (body s.world).2.ran →
    Follows e cmds n (pos :: loops) (pos + 1) last (body s.world) (pos + 1) s

/-- **LOOP**, by induction on the rounds. -/
theorem follows_repeatBody (hcmd : cmds[pos]? = some ⟨.loop, 0, last⟩)
    (hend : cmds[last]? = some ⟨.endloop, 0, pos⟩)
    (hextends : ∀ w, Extends w (body w).2) (hbody : BodyFollows e cmds n pos last loops body)
    {m : ℕ} (hm : m ≤ n) {s : Execution σ} (htracks : Tracks s)
    (hregular : Regular (repeatBody body m s.world).2.ran) :
    Follows e cmds m loops pos (last + 1) (repeatBody body m s.world) pos s := by
  have hstart : endOf cmds pos = last := by rw [endOf, hcmd]; rfl
  induction m generalizing s with
  | zero => exact ⟨0, s, rfl, htracks, Nat.le_refl _, rfl⟩
  | succ m ih =>
      have hfirst : Leads e cmds 1 pos s (pos + 1) s := Leads.one hcmd rfl
      have hrounds : Extends (body s.world).2 (repeatBody body (m + 1) s.world).2 := by
        unfold repeatBody
        cases (body s.world).1.afterBody with
        | none => exact extends_repeatBody hextends m _
        | some outcome => exact Extends.refl _
      have hround := follows_afterBody hend hstart
        (hbody s htracks (hregular.of_prefix hrounds))
      unfold repeatBody at hregular ⊢
      cases hafter : (body s.world).1.afterBody with
      | none =>
          rw [hafter] at hround hregular
          obtain ⟨k, s', hworld, htracks', hleads, hframe⟩ := hround
          rw [← hworld] at hregular ⊢
          exact ((ih (Nat.le_of_succ_le hm) htracks' hregular).prepend (hfirst.trans hleads)
            (hframe.widen (Nat.le_succ _) (Nat.le_succ _))).mono (by omega)
      | some outcome =>
          rw [hafter] at hround
          exact ((Follows.mono hround hm).prepend hfirst (Frame.refl ..)).mono (by omega)

/-- A FOREACH that is not rejected has a list. -/
theorem retrieve_eq_fetch {m item : ℕ} {w : World σ}
    (hregular : Regular (forEachItem e pos body (m + 1) item w).2.ran) :
    w.retrieve e pos item = w.fetch e pos item := by
  unfold forEachItem World.retrieve at hregular
  unfold World.retrieve
  cases hinput : e.input pos w.state with
  | invalid =>
      rw [hinput] at hregular
      exact absurd (List.mem_append_right _ List.mem_cons_self) (hregular.lists pos)
  | list numItems => rfl
  | sql => rfl

/-- **FOREACH**, by induction on the rounds. -/
theorem follows_forEachItem (hcmd : cmds[pos]? = some ⟨.foreach, 0, last⟩)
    (hend : cmds[last]? = some ⟨.endloop, 0, pos⟩) (hlt : pos < last)
    (hextends : ∀ w, Extends w (body w).2) (hbody : BodyFollows e cmds n pos last loops body)
    {m item : ℕ} (hm : m ≤ n) {s : Execution σ} (htracks : Tracks s)
    (hitem : m ≠ 0 → s.currentItem pos = item)
    (hregular : Regular (forEachItem e pos body m item s.world).2.ran) :
    Follows e cmds m loops pos (last + 1) (forEachItem e pos body m item s.world) pos s := by
  have hstart : endOf cmds pos = last := by rw [endOf, hcmd]; rfl
  induction m generalizing s item with
  | zero => exact ⟨0, s, rfl, htracks, Nat.le_refl _, rfl⟩
  | succ m ih =>
      obtain rfl := hitem (Nat.succ_ne_zero m)
      have hfetched := htracks.fetch (e := e) pos (s.currentItem pos)
      have hexecute := executeCommand.eq_def e cmds pos ⟨.foreach, 0, last⟩ s
      dsimp only at hexecute
      have hframe : ∀ world next, Frame pos (last + 1) s
          { s with world, currentItem := Function.update s.currentItem pos next } :=
        fun world next => ⟨fun _ _ => rfl, fun q hq => Function.update_of_ne (by omega) ..⟩
      have hretrieve := retrieve_eq_fetch hregular
      unfold forEachItem at hregular ⊢
      rw [hretrieve] at hregular ⊢
      generalize s.world.fetch e pos (s.currentItem pos) = r at hfetched hexecute hregular ⊢
      obtain ⟨fetch, next, w⟩ := r
      cases fetch with
      | row =>
          -- the body begins with the item in the variables
          have hfirst := Leads.one hcmd hexecute
          dsimp only at hregular ⊢
          cases hafter : (body w).1.afterBody with
          | none =>
              rw [hafter] at hregular
              have hround := follows_afterBody hend hstart
                (hbody _ hfetched (hregular.of_prefix (extends_forEachItem hextends m _ _)))
              dsimp only at hround hregular ⊢
              rw [hafter] at hround
              obtain ⟨k, s', hworld, htracks', hleads, hbodyFrame⟩ := hround
              rw [← hworld] at hregular ⊢
              have hnext : s'.currentItem pos = next :=
                (hbodyFrame.currentItem pos (.inl (Nat.lt_succ_self _))).trans
                  (Function.update_self ..)
              exact ((ih (Nat.le_of_succ_le hm) htracks' (fun _ => hnext) hregular).prepend
                (hfirst.trans hleads) ((hframe w next).trans
                  (hbodyFrame.widen (Nat.le_succ _) (Nat.le_succ _)))).mono (by omega)
          | some outcome =>
              rw [hafter] at hregular
              have hround := follows_afterBody hend hstart (hbody _ hfetched hregular)
              dsimp only at hround
              rw [hafter] at hround
              exact ((Follows.mono hround hm).prepend hfirst (hframe w next)).mono (by omega)
      | done =>
          exact ⟨1, _, rfl, hfetched, Leads.one hcmd hexecute, hframe w next⟩
      | failed rc =>
          exact Follows.fails hcmd hexecute (by simp) hfetched _ _ _

/-- A FOREACH that is begun where it was not left. -/
theorem position_of_regular {m : ℕ} (hm : m ≠ 0) (hextends : ∀ w, Extends w (body w).2)
    {w : World σ} (hregular : Regular (forEachItem e pos body m 0 w).2.ran) :
    position pos w.ran = 0 := by
  obtain ⟨m, rfl⟩ := Nat.exists_eq_succ_of_ne_zero hm
  have hfetch : Extends (w.fetch e pos 0).2.2 (forEachItem e pos body (m + 1) 0 w).2 := by
    have hretrieve := retrieve_eq_fetch hregular
    unfold forEachItem
    rw [hretrieve]
    generalize w.fetch e pos 0 = r
    obtain ⟨fetch, next, w'⟩ := r
    cases fetch with
    | row =>
        dsimp only
        cases (body w').1.afterBody with
        | none => exact (hextends w').trans (extends_forEachItem hextends m _ _)
        | some outcome => exact hextends w'
    | done => exact Extends.refl w'
    | failed rc => exact Extends.refl w'
  exact (hregular.of_prefix hfetch).fresh w.ran pos _ [] rfl

end

/-! ## Blocks -/

/-- A command that is no part of a block. -/
theorem follows_action {n pos : ℕ} {loops : List ℕ} {a : Action} {s : Execution σ}
    (hcmd : cmds[pos]? = some ⟨a.type, 0, 0⟩) (htracks : Tracks s) :
    Follows e cmds n loops pos (pos + 1) (a.exec e pos s.world) pos s := by
  have hexecuted := htracks.execute (e := e) pos
  unfold Action.exec
  have hexecute := executeCommand.eq_def e cmds pos ⟨a.type, 0, 0⟩ s
  generalize s.world.execute e pos = r at hexecuted hexecute ⊢
  obtain ⟨rc, w⟩ := r
  have hnext : ∀ {s' : Execution σ}, Tracks s' → Frame pos (pos + 1) s s' →
      executeCommand e cmds pos ⟨a.type, 0, 0⟩ s = (.goto (pos + 1), s') →
      Follows e cmds n loops pos (pos + 1) (.normal, s'.world) pos s :=
    fun htracks' hframe h => ⟨1, _, rfl, htracks', Leads.one hcmd h, hframe⟩
  have hframe : Frame pos (pos + 1) s { s with world := w } := ⟨fun _ _ => rfl, fun _ _ => rfl⟩
  have hends : ∀ x, executeCommand e cmds pos ⟨a.type, 0, 0⟩ s = (.ended x, { s with world := w }) →
      x ≠ .running → Follows e cmds n loops pos (pos + 1) (.ended x, w) pos s :=
    fun x h hx => Follows.fails hcmd h hx hexecuted n pos (pos + 1)
  cases a with
  | declare => exact hnext htracks (Frame.refl ..) hexecute
  | set | statement | assert =>
      cases rc <;> first
        | exact hnext hexecuted hframe hexecute
        | exact hends _ hexecute (by simp)
  | ret | raise => cases rc <;> exact hends _ hexecute (by simp)

/-- **Branches are skipped** where one was executed before. -/
theorem Branches.skipped : ∀ (r : Branches) {loops : List ℕ} {first p : ℕ} {s : Execution σ}
    (_ : CodeAt cmds p (r.commands loops first p)) (_ : s.executed first = true),
    ∃ k, Leads e cmds k p s (p + r.size) s
  | .endif, _, _, _, _, hcode, _ => ⟨1, Leads.one hcode.head rfl⟩
  | .elseif body rest, loops, first, p, s, hcode, hflag => by
      have hskip : executeCommand e cmds p ⟨.elseif, p + 1 + body.size, first⟩ s =
          (.goto (p + 1 + body.size), s) := if_pos hflag
      have hrest := hcode.tail.right
      rw [Block.length_commands] at hrest
      obtain ⟨k, hleads⟩ := rest.skipped hrest hflag
      refine ⟨1 + k, ?_⟩
      rw [Branches.size, show p + (1 + body.size + rest.size) = p + 1 + body.size + rest.size by
        omega]
      exact (Leads.one hcode.head hskip).trans hleads
  | .els body, loops, first, p, s, hcode, hflag => by
      have hskip : executeCommand e cmds p ⟨.els, p + 1 + body.size, first⟩ s =
          (.goto (p + 1 + body.size), s) := if_pos hflag
      have hend := hcode.tail.right
      rw [Block.length_commands] at hend
      refine ⟨1 + 1, ?_⟩
      rw [Branches.size, show p + (2 + body.size) = p + 1 + body.size + 1 by omega]
      exact (Leads.one hcode.head hskip).trans (Leads.one hend.head rfl)

/-- What has run of the first sequence has run of both. -/
theorem extends_first {n mid : ℕ} {r : Outcome × World σ} (next : Block) :
    Extends r.2 (andThen r (next.exec e n mid)).2 :=
  extends_andThen (Extends.refl r.2) (next.extends_exec n mid)

/-- What comes next, where the first sequence ends normally. -/
theorem follows_next {n mid : ℕ} {loops : List ℕ} {r : Outcome × World σ} {next : Block}
    (hregular : Regular (andThen r (next.exec e n mid)).2.ran)
    (hnext : ∀ s, Tracks s → Regular (next.exec e n mid s.world).2.ran →
      Follows e cmds n loops mid (mid + next.size) (next.exec e n mid s.world) mid s)
    (s : Execution σ) (hworld : s.world = r.2) (htracks : Tracks s) (hr : r.1 = .normal) :
    Follows e cmds n loops mid (mid + next.size) (next.exec e n mid r.2) mid s := by
  obtain ⟨outcome, w⟩ := r
  obtain rfl : outcome = .normal := hr
  obtain rfl : s.world = w := hworld
  exact hnext s htracks hregular

mutual

/-- **The interpreter follows the semantics** of a sequence. -/
theorem Block.follows (n : ℕ) : ∀ (b : Block) {loops : List ℕ} {pos : ℕ} {s : Execution σ}
    (_ : CodeAt cmds pos (b.commands loops pos)) (_ : Tracks s)
    (_ : Regular (b.exec e n pos s.world).2.ran),
    Follows e cmds n loops pos (pos + b.size) (b.exec e n pos s.world) pos s
  | .nil, _, pos, s, _, htracks, _ =>
      ⟨0, s, rfl, htracks, Leads.refl pos s, Frame.refl ..⟩
  | .action a next, loops, pos, s, hcode, htracks, hregular => by
      rw [Block.size, ← Nat.add_assoc]
      exact (follows_action hcode.head htracks).andThen (Nat.le_succ _) (Nat.le_add_right _ _)
        (follows_next hregular fun s htracks hregular => next.follows n hcode.tail htracks hregular)
  | .cond body rest next, loops, pos, s, hcode, htracks, hregular => by
      have hbodyCode := hcode.tail.left
      have hrestCode := hcode.tail.right.left
      have hnextCode := hcode.tail.right.right
      rw [Block.length_commands] at hrestCode hnextCode
      rw [Branches.length_commands] at hnextCode
      have htested := htracks.test (e := e) pos
      have hexecute : executeCommand e cmds pos ⟨.cond, pos + 1 + body.size, 0⟩ s =
          match s.world.test e pos with
          | (.error rc, world) => (.ended (.error rc), { s with world })
          | (.ok true, world) => (.goto (pos + 1), { s with world }.setExecuted pos true)
          | (.ok false, world) =>
            (.goto (pos + 1 + body.size), { s with world }.setExecuted pos false) := rfl
      rw [Block.size, show pos + (1 + body.size + rest.size + next.size) =
        pos + 1 + body.size + rest.size + next.size by omega]
      unfold Block.exec at hregular ⊢
      generalize s.world.test e pos = r at htested hexecute hregular ⊢
      obtain ⟨result, w⟩ := r
      match result with
      | .error rc => exact Follows.fails hcode.head hexecute nofun htested _ _ _
      | .ok true =>
          dsimp only at hregular ⊢
          have hfirst : Regular (body.exec e n (pos + 1) w).2.ran :=
            hregular.of_prefix (extends_first next)
          have hbody := body.follows n (s := { s with world := w }.setExecuted pos true) hbodyCode
            htested hfirst
          have hskip : ∀ s', Frame (pos + 1) (pos + 1 + body.size)
              ({ s with world := w }.setExecuted pos true) s' →
              ∃ k, Leads e cmds k (pos + 1 + body.size) s' (pos + 1 + body.size + rest.size) s' :=
            fun s' hframe => rest.skipped hrestCode ((hframe.executed pos
              (.inl (Nat.lt_succ_self _))).trans (Function.update_self ..))
          refine Follows.mono ?_ (Nat.le_add_left n 1)
          refine Follows.prepend (Leads.one hcode.head hexecute)
            (Frame.setExecuted s (Nat.le_refl _) (by omega) true w) ?_
          exact (hbody.extend (Nat.le_succ _) (Nat.le_add_right _ _) hskip).andThen (by omega)
            (Nat.le_add_right _ _) (follows_next hregular fun s htracks hregular =>
              next.follows n hnextCode htracks hregular)
      | .ok false =>
          dsimp only at hregular ⊢
          have hfirst : Regular (rest.exec e n (pos + 1 + body.size) w).2.ran :=
            hregular.of_prefix (extends_first next)
          have hrest := rest.follows n (s := { s with world := w }.setExecuted pos false)
            (by omega : pos < pos + 1 + body.size) hrestCode (Function.update_self ..) htested
            hfirst
          refine Follows.mono ?_ (Nat.le_add_left n 1)
          refine Follows.prepend (Leads.one hcode.head hexecute)
            (Frame.setExecuted s (Nat.le_refl _) (by omega) false w) ?_
          exact hrest.andThen (by omega) (Nat.le_add_right _ _)
            (follows_next hregular fun s htracks hregular => next.follows n hnextCode htracks hregular)
  | .loop body next, loops, pos, s, hcode, htracks, hregular => by
      have hend := hcode.tail.right
      rw [Block.length_commands] at hend
      have hbody : BodyFollows e cmds n pos (pos + 1 + body.size) loops (body.exec e n (pos + 1)) :=
        fun s htracks hregular => body.follows n hcode.tail.left htracks hregular
      rw [Block.size, show pos + (2 + body.size + next.size) =
        pos + 1 + body.size + 1 + next.size by omega]
      exact (follows_repeatBody hcode.head hend.head (body.extends_exec n _) hbody (Nat.le_refl n)
        htracks (hregular.of_prefix (extends_first next))).andThen (by omega)
          (Nat.le_add_right _ _) (follows_next hregular fun s htracks hregular =>
            next.follows n hend.tail htracks hregular)
  | .foreach body next, loops, pos, s, hcode, htracks, hregular => by
      have hend := hcode.tail.right
      rw [Block.length_commands] at hend
      have hbody : BodyFollows e cmds n pos (pos + 1 + body.size) loops (body.exec e n (pos + 1)) :=
        fun s htracks hregular => body.follows n hcode.tail.left htracks hregular
      have hfirst := hregular.of_prefix (extends_first next)
      rw [Block.size, show pos + (2 + body.size + next.size) =
        pos + 1 + body.size + 1 + next.size by omega]
      exact (follows_forEachItem hcode.head hend.head (by omega) (body.extends_exec n _) hbody
        (Nat.le_refl n) htracks (fun hn => (htracks pos).trans
          (position_of_regular hn (body.extends_exec n _) hfirst)) hfirst).andThen (by omega)
          (Nat.le_add_right _ _) (follows_next hregular fun s htracks hregular =>
            next.follows n hend.tail htracks hregular)
  | .brk level next, loops, pos, s, hcode, htracks, _ =>
      ⟨1, s, rfl, htracks, Leads.one hcode.head rfl, Frame.refl ..⟩
  | .cont level next, loops, pos, s, hcode, htracks, _ =>
      ⟨1, s, rfl, htracks, Leads.one hcode.head rfl, Frame.refl ..⟩

/-- The interpreter follows the semantics of branches, where none was executed before. -/
theorem Branches.follows (n : ℕ) : ∀ (r : Branches) {loops : List ℕ} {first p : ℕ}
    {s : Execution σ} (_ : first < p) (_ : CodeAt cmds p (r.commands loops first p))
    (_ : s.executed first = false) (_ : Tracks s) (_ : Regular (r.exec e n p s.world).2.ran),
    Follows e cmds n loops first (p + r.size) (r.exec e n p s.world) p s
  | .endif, _, _, p, s, _, hcode, _, htracks, _ =>
      ⟨1, s, rfl, htracks, Leads.one hcode.head rfl, Frame.refl ..⟩
  | .elseif body rest, loops, first, p, s, hfirst, hcode, hflag, htracks, hregular => by
      have hbodyCode := hcode.tail.left
      have hrestCode := hcode.tail.right
      rw [Block.length_commands] at hrestCode
      have htested := htracks.test (e := e) p
      have hexecute : executeCommand e cmds p ⟨.elseif, p + 1 + body.size, first⟩ s =
          match s.world.test e p with
          | (.error rc, world) => (.ended (.error rc), { s with world })
          | (.ok true, world) => (.goto (p + 1), { s with world }.setExecuted first true)
          | (.ok false, world) => (.goto (p + 1 + body.size), { s with world }) :=
        if_neg (ne_true_of_eq_false hflag)
      rw [Branches.size, show p + (1 + body.size + rest.size) = p + 1 + body.size + rest.size by
        omega]
      unfold Branches.exec at hregular ⊢
      generalize s.world.test e p = r at htested hexecute hregular ⊢
      obtain ⟨result, w⟩ := r
      match result with
      | .error rc => exact Follows.fails hcode.head hexecute nofun htested _ _ _
      | .ok true =>
          have hbody := body.follows n (s := { s with world := w }.setExecuted first true)
            hbodyCode htested hregular
          have hskip : ∀ s', Frame (p + 1) (p + 1 + body.size)
              ({ s with world := w }.setExecuted first true) s' →
              ∃ k, Leads e cmds k (p + 1 + body.size) s' (p + 1 + body.size + rest.size) s' :=
            fun s' hframe => rest.skipped hrestCode ((hframe.executed first
              (.inl (by omega))).trans (Function.update_self ..))
          exact ((hbody.extend (by omega) (Nat.le_add_right _ _) hskip).prepend
            (Leads.one hcode.head hexecute)
            (Frame.setExecuted s (Nat.le_refl _) (by omega) true w)).mono (Nat.le_add_left n 1)
      | .ok false =>
          have hrest := rest.follows n (s := { s with world := w }) (by omega) hrestCode hflag
            htested hregular
          exact (hrest.prepend (Leads.one hcode.head hexecute)
            ⟨fun _ _ => rfl, fun _ _ => rfl⟩).mono (Nat.le_add_left n 1)
  | .els body, loops, first, p, s, hfirst, hcode, hflag, htracks, hregular => by
      have hend := hcode.tail.right
      rw [Block.length_commands] at hend
      have hexecute : executeCommand e cmds p ⟨.els, p + 1 + body.size, first⟩ s =
          (.goto (p + 1), s.setExecuted first true) := if_neg (ne_true_of_eq_false hflag)
      have hbody := body.follows n (s := s.setExecuted first true) hcode.tail.left htracks hregular
      rw [Branches.size, show p + (2 + body.size) = p + 1 + body.size + 1 by omega]
      exact ((hbody.extend (by omega) (Nat.le_succ _) fun s' _ =>
        ⟨1, Leads.one hend.head rfl⟩).prepend (Leads.one hcode.head hexecute)
          (Frame.setExecuted s (Nat.le_refl _) (by omega) true s.world)).mono
            (Nat.le_add_left n 1)

end

end StoredProc
end AergoLite
