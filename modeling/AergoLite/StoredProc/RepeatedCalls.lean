/-
# Calls of a stored procedure

A procedure that was parsed is called once or more often.  `executeStoredProcedure` does what the
structured semantics say exactly where no FOREACH is begun that was left before it came to its
end, by BREAK, CONTINUE, RETURN or an error, in the same call or in an earlier one, and each has a
list (`structured_iff`): nothing resets its `current_item`, and it goes on in the middle; and where
there is no list, its body is executed although the call has failed.
-/

import AergoLite.StoredProc.Refinement

namespace AergoLite
namespace StoredProc

variable {σ : Type} {e : Engine σ} {cmds : List Command}

/-! ## The interpreter goes on where a FOREACH was -/

/-- Every FOREACH goes on where it was. -/
def Resumes (ran : List Event) : Prop :=
  ∀ pre pos item next post, ran = pre ++ .fetched pos item next :: post → item = position pos pre

theorem Resumes.fresh {ran : List Event} (h : Resumes ran) : Fresh ran :=
  fun pre pos next post heq => (h pre pos 0 next post heq).symm

/-- An event of what has run is the last one, or one before. -/
theorem last_or_before {ran pre post : List Event} {event event' : Event}
    (h : ran ++ [event] = pre ++ event' :: post) :
    event' = event ∧ pre = ran ∨ ∃ post', ran = pre ++ event' :: post' := by
  rcases List.eq_nil_or_concat' post with rfl | ⟨post', last, rfl⟩
  · obtain ⟨hran, hevent⟩ := List.append_inj' h rfl
    exact .inl ⟨(List.singleton_inj.1 hevent).symm, hran.symm⟩
  · rw [← List.cons_append, ← List.append_assoc] at h
    exact .inr ⟨post', (List.append_inj' h rfl).1⟩

theorem Resumes.append {ran : List Event} (h : Resumes ran) {event : Event}
    (hevent : ∀ pos item next, event = .fetched pos item next → item = position pos ran) :
    Resumes (ran ++ [event]) := by
  intro pre pos item next post heq
  rcases last_or_before heq with ⟨hlast, rfl⟩ | ⟨post', hbefore⟩
  · exact hevent pos item next hlast.symm
  · exact h pre pos item next post' hbefore

theorem Fresh.append {ran : List Event} (h : Fresh ran) {event : Event}
    (hevent : ∀ pos next, event = .fetched pos 0 next → position pos ran = 0) :
    Fresh (ran ++ [event]) := by
  intro pre pos next post heq
  rcases last_or_before heq with ⟨hlast, rfl⟩ | ⟨post', hbefore⟩
  · exact hevent pos next hlast.symm
  · exact h pre pos next post' hbefore

/-- Only a FOREACH that is rejected adds that. -/
theorem not_rejected_append {ran : List Event} (h : ∀ pos, .rejected pos ∉ ran) {event : Event}
    (hevent : ∀ pos, event ≠ .rejected pos) (pos : ℕ) : .rejected pos ∉ ran ++ [event] := by
  intro hmem
  rcases List.mem_append.1 hmem with hmem | hmem
  · exact h pos hmem
  · exact hevent pos (List.mem_singleton.1 hmem).symm

/-- What has run is in step with `current_item`, and always was, and no FOREACH is rejected. -/
structure Sound (s : Execution σ) : Prop where
  tracks : Tracks s
  resumes : Resumes s.world.ran
  lists : ∀ pos, .rejected pos ∉ s.world.ran

theorem Sound.regular {s : Execution σ} (h : Sound s) : Regular s.world.ran :=
  ⟨h.resumes.fresh, h.lists⟩

theorem Sound.execute {s : Execution σ} (h : Sound s) (pos : ℕ) :
    Sound { s with world := (s.world.execute e pos).2 } :=
  ⟨h.tracks.execute pos, h.resumes.append nofun, not_rejected_append h.lists nofun⟩

theorem Sound.test {s : Execution σ} (h : Sound s) (pos : ℕ) :
    Sound { s with world := (s.world.test e pos).2 } :=
  ⟨h.tracks.test pos, h.resumes.append nofun, not_rejected_append h.lists nofun⟩

theorem Sound.fetch {s : Execution σ} (h : Sound s) (pos : ℕ) :
    Sound { s with
      world := (s.world.fetch e pos (s.currentItem pos)).2.2
      currentItem := Function.update s.currentItem pos
        (s.world.fetch e pos (s.currentItem pos)).2.1 } := by
  refine ⟨h.tracks.fetch pos _, h.resumes.append fun q item next heq => ?_,
    not_rejected_append h.lists nofun⟩
  cases heq
  exact h.tracks pos

theorem Sound.setExecuted {s : Execution σ} (h : Sound s) (pos : ℕ) (flag : Bool) :
    Sound (s.setExecuted pos flag) :=
  ⟨h.tracks, h.resumes, h.lists⟩

/-- **Every command keeps this.** -/
theorem Sound.executeCommand {s : Execution σ} (h : Sound s) (e : Engine σ)
    (cmds : List Command) (pos : ℕ) (cmd : Command) :
    Sound (executeCommand e cmds pos cmd s).2 := by
  have hexecute := h.execute (e := e) pos
  have htest := h.test (e := e) pos
  have hfetch := h.fetch (e := e) pos
  unfold StoredProc.executeCommand
  generalize s.world.execute e pos = r at hexecute
  generalize s.world.test e pos = r' at htest
  generalize s.world.fetch e pos (s.currentItem pos) = r'' at hfetch
  obtain ⟨rc, w⟩ := r
  obtain ⟨result, w'⟩ := r'
  obtain ⟨fetch, next, w''⟩ := r''
  cases cmd.type with
  | declare | endif | loop | endloop | cont | brk => exact h
  | set | statement | assert | ret | raise => cases rc <;> exact hexecute
  | cond =>
      match result with
      | .error rc => exact htest
      | .ok true => exact htest.setExecuted pos true
      | .ok false => exact htest.setExecuted pos false
  | elseif =>
      cases s.executed cmd.relatedCmd with
      | true => exact h
      | false =>
          match result with
          | .error rc => exact htest
          | .ok true => exact htest.setExecuted cmd.relatedCmd true
          | .ok false => exact htest
  | els =>
      cases s.executed cmd.relatedCmd with
      | true => exact h
      | false => exact h.setExecuted cmd.relatedCmd true
  | foreach => cases fetch <;> exact hfetch

theorem Sound.commandLoop {s : Execution σ} (h : Sound s) (e : Engine σ) (cmds : List Command)
    (fuel pos : ℕ) : Sound (commandLoop e cmds fuel pos s).2 := by
  induction fuel generalizing pos s with
  | zero => exact h
  | succ fuel ih =>
      unfold StoredProc.commandLoop
      cases cmds[pos]? with
      | none => exact h
      | some cmd =>
          have hnext := h.executeCommand e cmds pos cmd
          dsimp only
          generalize StoredProc.executeCommand e cmds pos cmd s = r at hnext
          obtain ⟨next, s'⟩ := r
          cases next with
          | goto pos => exact ih hnext pos
          | ended x => exact hnext

theorem Sound.put {s : Execution σ} (h : Sound s) (state : σ) : Sound (s.put state) :=
  ⟨h.tracks, h.resumes, h.lists⟩

theorem Sound.executeStoredProcedure {s : Execution σ} (h : Sound s) (e : Engine σ)
    (cmds : List Command) (fuel : ℕ) : Sound (executeStoredProcedure e cmds fuel s).2 := by
  unfold StoredProc.executeStoredProcedure withSavepoint
  generalize e.savepoint s.world.state = r
  obtain ⟨rc, state⟩ := r
  cases rc <;> try exact h.put state
  have hloop := (h.put (e.copyProcedureParameters state)).commandLoop e cmds fuel 0
  dsimp only
  generalize StoredProc.commandLoop e cmds fuel 0 _ = r at hloop
  obtain ⟨x, s'⟩ := r
  cases x <;> first | exact hloop | exact hloop.put _

theorem Sound.runCalls {s : Execution σ} (h : Sound s) (e : Engine σ) (cmds : List Command)
    (fuel : ℕ → ℕ) (i : ℕ) (fs : List (σ → σ)) : Sound (runCalls Execution.change
      (fun i => StoredProc.executeStoredProcedure e cmds (fuel i)) i fs s).2 := by
  induction fs generalizing i s with
  | nil => exact h
  | cons f fs ih =>
      have hcall := (h.put (f s.world.state)).executeStoredProcedure e cmds (fuel i)
      unfold StoredProc.runCalls
      dsimp only [Execution.change]
      generalize StoredProc.executeStoredProcedure e cmds (fuel i) _ = r at hcall
      obtain ⟨rc, s'⟩ := r
      cases rc with
      | none => exact hcall
      | some rc => exact ih hcall (i + 1)

/-! ## Every call -/

theorem finishCall_world (x : Ended) (s : Execution σ) :
    (finishCall e (fun s => s.world.state) Execution.put (x, s)).1 =
        (finishCall e World.state World.put (x, s.world)).1 ∧
      (finishCall e (fun s => s.world.state) Execution.put (x, s)).2.world =
        (finishCall e World.state World.put (x, s.world)).2 := by
  cases x <;> exact ⟨rfl, rfl⟩

theorem Tracks.finishCall {s : Execution σ} (h : Tracks s) (x : Ended) :
    Tracks (StoredProc.finishCall e (fun s => s.world.state) Execution.put (x, s)).2 := by
  cases x <;> exact h

/-- **The loop follows the semantics** of a procedure, to its end. -/
theorem Block.commandLoop_follows {b : Block} {loops : List ℕ} (hnest : b.WellNested 0)
    (hcmds : cmds = b.commands loops 0) (n : ℕ) {s : Execution σ} (htracks : Tracks s)
    (hregular : Regular (b.exec e n 0 s.world).2.ran) :
    ∃ k s', n ≤ k ∧ commandLoop e cmds k 0 s = ((b.exec e n 0 s.world).1.toEnded, s') ∧
      s'.world = (b.exec e n 0 s.world).2 ∧ Tracks s' := by
  have hcode : CodeAt cmds 0 (b.commands loops 0) := hcmds ▸ List.prefix_refl _
  have hend : cmds[0 + b.size]? = none := by
    rw [hcmds, List.getElem?_eq_none_iff, Block.length_commands, Nat.zero_add]
  have hwithin := b.within_exec (e := e) n hnest 0 s.world
  obtain ⟨k, s', hworld, htracks', h⟩ := b.follows n hcode htracks hregular
  generalize b.exec e n 0 s.world = r at hworld h hwithin ⊢
  obtain ⟨outcome, w⟩ := r
  match outcome with
  | .normal =>
      refine ⟨k + (n + 1), s', by omega, (h.1 (n + 1)).trans ?_, hworld, htracks'⟩
      show commandLoop e cmds (n + 1) (0 + b.size) s' = _
      rw [commandLoop, hend]
      rfl
  | .brk _ => exact absurd hwithin (Nat.not_lt_zero _)
  | .cont _ => exact absurd hwithin (Nat.not_lt_zero _)
  | .ended .running => exact ⟨k, s', h.1, h.2, hworld, htracks'⟩
  | .ended (.exit _) => exact ⟨k + n, s', Nat.le_add_left _ _, h n, hworld, htracks'⟩
  | .ended (.error _) => exact ⟨k + n, s', Nat.le_add_left _ _, h n, hworld, htracks'⟩

/-- **A call follows the semantics.** -/
theorem Block.call_follows {b : Block} {loops : List ℕ} (hnest : b.WellNested 0)
    (hcmds : cmds = b.commands loops 0) (n : ℕ) {s : Execution σ} (htracks : Tracks s)
    (hregular : Regular (b.call e n s.world).2.ran) :
    ∃ k, n ≤ k ∧ (executeStoredProcedure e cmds k s).1 = (b.call e n s.world).1 ∧
      (executeStoredProcedure e cmds k s).2.world = (b.call e n s.world).2 ∧
      Tracks (executeStoredProcedure e cmds k s).2 := by
  unfold executeStoredProcedure Block.call withSavepoint at *
  generalize e.savepoint s.world.state = r at hregular ⊢
  obtain ⟨rc, state⟩ := r
  cases rc <;> try exact ⟨n, Nat.le_refl n, rfl, rfl, htracks⟩
  dsimp only at hregular ⊢
  rw [finishCall_ran] at hregular
  have htracks : Tracks (s.put (e.copyProcedureParameters state)) := htracks
  obtain ⟨k, s', hle, hloop, hworld, htracks'⟩ :=
    Block.commandLoop_follows hnest hcmds n htracks hregular
  refine ⟨k, hle, ?_⟩
  rw [hloop]
  obtain ⟨hrc, hput⟩ := finishCall_world (e := e)
    (b.exec e n 0 (s.world.put (e.copyProcedureParameters state))).1.toEnded s'
  rw [hworld] at hrc hput
  exact ⟨hrc, hput, htracks'.finishCall _⟩

section
variable {S : Type} {change : (σ → σ) → S → S} {call call' : ℕ → S → Option Rc × S} {i : ℕ}

theorem runCalls_cons_none (change : (σ → σ) → S → S) (call : ℕ → S → Option Rc × S) {f : σ → σ}
    {s : S} (h : (call i (change f s)).1 = none) (fs : List (σ → σ)) :
    runCalls change call i (f :: fs) s = ([none], (call i (change f s)).2) := by
  rw [runCalls]
  generalize call i (change f s) = r at h ⊢
  obtain ⟨rc, s'⟩ := r
  obtain rfl : rc = none := h
  rfl

theorem runCalls_cons_some (change : (σ → σ) → S → S) (call : ℕ → S → Option Rc × S) {f : σ → σ}
    {s : S} {rc : Rc} (h : (call i (change f s)).1 = some rc) (fs : List (σ → σ)) :
    runCalls change call i (f :: fs) s =
      (some rc :: (runCalls change call (i + 1) fs (call i (change f s)).2).1,
        (runCalls change call (i + 1) fs (call i (change f s)).2).2) := by
  rw [runCalls]
  generalize call i (change f s) = r at h ⊢
  obtain ⟨rc', s'⟩ := r
  obtain rfl : rc' = some rc := h
  rfl

/-- Calls before do not matter. -/
theorem runCalls_congr (h : ∀ j, i ≤ j → call j = call' j) (fs : List (σ → σ)) (s : S) :
    runCalls change call i fs s = runCalls change call' i fs s := by
  induction fs generalizing i s with
  | nil => rfl
  | cons f fs ih =>
      have hcall := h i (Nat.le_refl i)
      cases hrc : (call i (change f s)).1 with
      | none =>
          rw [runCalls_cons_none change call hrc, hcall]
          rw [hcall] at hrc
          rw [runCalls_cons_none change call' hrc]
      | some rc =>
          rw [runCalls_cons_some change call hrc, ih (fun j hj => h j (Nat.le_of_succ_le hj)), hcall]
          rw [hcall] at hrc
          rw [runCalls_cons_some change call' hrc]

end

/-- **Every call follows the semantics**, by induction on the calls. -/
theorem Block.runCalls_follows {b : Block} {loops : List ℕ} (hnest : b.WellNested 0)
    (hcmds : cmds = b.commands loops 0) (n i : ℕ) (fs : List (σ → σ)) {s : Execution σ}
    (htracks : Tracks s)
    (hregular : Regular (runCalls World.change (fun _ => b.call e n) i fs s.world).2.ran) :
    ∃ fuel : ℕ → ℕ, (∀ j, n ≤ fuel j) ∧
      (runCalls Execution.change (fun j => executeStoredProcedure e cmds (fuel j)) i fs s).1 =
        (runCalls World.change (fun _ => b.call e n) i fs s.world).1 ∧
      (runCalls Execution.change (fun j => executeStoredProcedure e cmds (fuel j)) i fs s).2.world =
        (runCalls World.change (fun _ => b.call e n) i fs s.world).2 := by
  induction fs generalizing i s with
  | nil => exact ⟨fun _ => n, fun _ => Nat.le_refl n, rfl, rfl⟩
  | cons f fs ih =>
      have hchanged : s.world.change f = (s.change f).world := rfl
      have htracks : Tracks (s.change f) := htracks
      cases hresult : (b.call e n (s.change f).world).1 with
      | none =>
          rw [runCalls_cons_none World.change (fun _ => b.call e n) hresult] at hregular ⊢
          obtain ⟨k, hle, hrc, hworld, -⟩ := Block.call_follows hnest hcmds n htracks hregular
          refine ⟨fun _ => k, fun _ => hle, ?_⟩
          rw [runCalls_cons_none Execution.change (fun _ => executeStoredProcedure e cmds k)
            (hrc.trans hresult)]
          exact ⟨rfl, hworld⟩
      | some rc =>
          rw [runCalls_cons_some World.change (fun _ => b.call e n) hresult, hchanged] at hregular ⊢
          obtain ⟨k, hle, hrc, hworld, htracks'⟩ := Block.call_follows hnest hcmds n htracks
            (hregular.of_prefix (extends_runCalls b n (i + 1) fs _))
          rw [← hworld] at hregular ⊢
          obtain ⟨fuel, hfuel, hrcs, hworlds⟩ := ih (i + 1) htracks' hregular
          refine ⟨Function.update fuel i k, fun j => ?_, ?_⟩
          · by_cases hj : j = i
            · rw [hj, Function.update_self]
              exact hle
            · rw [Function.update_of_ne hj]
              exact hfuel j
          · have hlater : ∀ j, i + 1 ≤ j →
                executeStoredProcedure e cmds (Function.update fuel i k j) =
                  executeStoredProcedure e cmds (fuel j) := fun j hj => by
              rw [Function.update_of_ne (by omega)]
            have hfirst : (executeStoredProcedure e cmds (Function.update fuel i k i)
                (s.change f)).1 = some rc := by
              rw [Function.update_self]
              exact hrc.trans hresult
            rw [runCalls_cons_some Execution.change
              (fun j => executeStoredProcedure e cmds (Function.update fuel i k j)) hfirst,
              runCalls_congr hlater, Function.update_self, hrcs]
            exact ⟨rfl, hworlds⟩

/-- **The interpreter does what the structured semantics say**, in all calls: however long the
semantics run, it returns the same, runs the same commands in the same order and leaves the same
state. -/
def Structured (e : Engine σ) (b : Block) (cmds : List Command) (fs : List (σ → σ))
    (state : σ) : Prop :=
  ∀ n, ∃ fuel : ℕ → ℕ, (∀ i, n ≤ fuel i) ∧
    (Execution.calls e cmds fuel fs (.parsed state)).1 = (b.calls e n fs ⟨state, []⟩).1 ∧
    (Execution.calls e cmds fuel fs (.parsed state)).2.world = (b.calls e n fs ⟨state, []⟩).2

theorem sound_parsed (state : σ) : Sound (Execution.parsed state) :=
  ⟨fun _ => rfl, fun _ _ _ _ _ heq => absurd heq.symm
    (List.append_ne_nil_of_right_ne_nil _ (List.cons_ne_nil _ _)), fun _ => List.not_mem_nil⟩

/-- **The interpreter does what the structured semantics say exactly where no FOREACH is begun
that was left before it came to its end, and each has a list.** -/
theorem structured_iff {b : Block} (hnest : b.WellNested 0) {ifs : List IfBlock} {loops : List ℕ}
    (hparse : parseProcedureBody ifs loops b.statements = .ok cmds) (e : Engine σ)
    (fs : List (σ → σ)) (state : σ) :
    Structured e b cmds fs state ↔ ∀ n, Regular (b.calls e n fs ⟨state, []⟩).2.ran := by
  rw [parseProcedureBody_blocks hnest] at hparse
  constructor
  · intro hstructured n
    obtain ⟨fuel, -, -, hworld⟩ := hstructured n
    rw [← hworld]
    exact ((sound_parsed state).runCalls e cmds fuel 0 fs).regular
  · intro hregular n
    exact Block.runCalls_follows hnest (Except.ok.inj hparse).symm n 0 fs
      (s := Execution.parsed state) (fun _ => rfl) (hregular n)

/-- Every FOREACH goes through a list with two items. -/
def twoItems : Engine Unit where
  execute _ _ := (.ok, ())
  expression _ _ := (.ok true, ())
  input _ _ := .list 2
  prepare _ _ := (.ok, ())
  step _ _ := (.done, ())
  store _ _ _ := (.ok, ())
  savepoint _ := (.ok, ())
  copyProcedureParameters _ := ()
  release _ rc _ := (rc, ())

/-- `FOREACH @item IN @items DO BREAK; END LOOP;` -/
def breakAtFirst : Block := .foreach (.brk 1 .nil) .nil

/-- `FOREACH @item IN @items DO INSERT ...; END LOOP;` -/
def insertEach : Block := .foreach (.action .statement .nil) .nil

/-- Called twice, the procedure is to retrieve the first item each time, and retrieves the second
one the second time. -/
theorem not_structured_breakAtFirst :
    parseProcedureBody [] [] breakAtFirst.statements = .ok (breakAtFirst.commands [] 0) ∧
      breakAtFirst.WellNested 0 ∧
        ¬Structured twoItems breakAtFirst (breakAtFirst.commands [] 0) [id, id] () := by
  refine ⟨rfl, ⟨⟨Nat.one_pos, trivial⟩, trivial⟩, fun hstructured => ?_⟩
  obtain ⟨fuel, -, -, hworld⟩ := hstructured 1
  have hresumes := ((sound_parsed ()).runCalls twoItems (breakAtFirst.commands [] 0) fuel 0
    [id, id]).resumes
  have hran : (breakAtFirst.calls twoItems 1 [id, id] ⟨(), []⟩).2.ran =
      [.fetched 0 0 1] ++ .fetched 0 0 1 :: [] := rfl
  rw [← hworld] at hran
  exact absurd (hresumes [.fetched 0 0 1] 0 0 1 [] hran) (by decide)

/-- What runs in two calls that go through the list. -/
def insertEachTwice : List Event :=
  [.fetched 0 0 1, .executed 1, .fetched 0 1 2, .executed 1, .fetched 0 2 0,
    .fetched 0 0 1, .executed 1, .fetched 0 1 2, .executed 1, .fetched 0 2 0]

theorem fresh_insertEachTwice : Fresh insertEachTwice := by
  have hnil : Fresh [] := fun pre pos next post heq =>
    absurd heq.symm (List.append_ne_nil_of_right_ne_nil _ (List.cons_ne_nil _ _))
  have hcall : ∀ ran, Fresh ran → position 0 ran = 0 →
      Fresh (ran ++ [.fetched 0 0 1] ++ [.executed 1] ++ [.fetched 0 1 2] ++ [.executed 1] ++
        [.fetched 0 2 0]) := fun ran hran hzero =>
    ((((hran.append fun pos next heq => by cases heq; exact hzero).append
      fun pos next heq => by cases heq).append fun pos next heq => by cases heq).append
      fun pos next heq => by cases heq).append fun pos next heq => by cases heq
  exact hcall _ (hcall [] hnil rfl) rfl

/-- Called twice, the procedure goes through the list twice. -/
theorem structured_insertEach :
    Structured twoItems insertEach (insertEach.commands [] 0) [id, id] () := by
  have hnest : insertEach.WellNested 0 := ⟨trivial, trivial⟩
  refine (@structured_iff Unit _ insertEach hnest [] [] rfl twoItems [id, id] ()).2 fun n => ?_
  have hpre : (insertEach.calls twoItems n [id, id] ⟨(), []⟩).2.ran <+: insertEachTwice := by
    match n with
    | 0 => decide
    | 1 => decide
    | 2 => decide
    | n + 3 => exact ⟨[], rfl⟩
  exact ⟨fresh_insertEachTwice.of_prefix hpre, fun pos hmem =>
    absurd (hpre.subset hmem) (by simp [insertEachTwice])⟩

end StoredProc
end AergoLite
