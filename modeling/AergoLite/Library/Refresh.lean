/-
# A view that is refreshed from a table

A program keeps in memory a *view* of a table, a value for each key, and refreshes it with a
loop over the rows: the step for a row writes the key of the row, and no other key.  When the
keys of the rows are distinct, the order of the rows does not matter: after the loop each row
is in the view as its own step has written it, and the other keys are as they were
(`exists_foldlM_refresh`).  Where a step depends on the value that it finds, this is the value
before the loop (`exists_foldlM_update`).

The step may fail, and may depend on an invariant of the memory that it keeps.
-/

import Mathlib.Data.List.Nodup
import Mathlib.Tactic.TypeStar

namespace Refresh

variable {σ ρ κ V : Type*}

/-- **A step refreshes a row**: it succeeds and keeps the invariant, the key of the row is
written well, and no other key is written. -/
structure Writes (view : σ → κ → V) (key : ρ → κ) (inv : σ → Prop) (good : ρ → V → Prop) (s : σ)
    (row : ρ) (t : σ) : Prop where
  inv : inv t
  good : good row (view t (key row))
  others : ∀ k, k ≠ key row → view t k = view s k

/-- **What a loop over the rows leaves.** -/
structure Refreshed (view : σ → κ → V) (key : ρ → κ) (inv : σ → Prop) (good : ρ → V → Prop)
    (rows : List ρ) (s t : σ) : Prop where
  inv : inv t
  good : ∀ row ∈ rows, good row (view t (key row))
  others : ∀ k, k ∉ rows.map key → view t k = view s k

/-- **A step updates a row**: the new value of its key is related to the one before. -/
structure Updates (view : σ → κ → V) (key : ρ → κ) (inv : σ → Prop) (upd : ρ → V → V → Prop)
    (s : σ) (row : ρ) (t : σ) : Prop where
  inv : inv t
  upd : upd row (view s (key row)) (view t (key row))
  others : ∀ k, k ≠ key row → view t k = view s k

/-- What a loop of updates leaves. -/
structure Updated (view : σ → κ → V) (key : ρ → κ) (inv : σ → Prop) (upd : ρ → V → V → Prop)
    (rows : List ρ) (s t : σ) : Prop where
  inv : inv t
  upd : ∀ row ∈ rows, upd row (view s (key row)) (view t (key row))
  others : ∀ k, k ∉ rows.map key → view t k = view s k

variable {view : σ → κ → V} {key : ρ → κ} {inv : σ → Prop} {good : ρ → V → Prop}
  {upd : ρ → V → V → Prop} {rows : List ρ}

/-- A loop of updates that may fail: a row is updated once, from the value before the loop. -/
theorem exists_foldlM_update {step : σ → ρ → Option σ} (hkeys : (rows.map key).Nodup)
    (hstep : ∀ s, inv s → ∀ row ∈ rows, ∃ t, step s row = some t ∧
      Updates view key inv upd s row t) {s : σ} (hs : inv s) :
    ∃ t, rows.foldlM step s = some t ∧ Updated view key inv upd rows s t := by
  induction rows generalizing s with
  | nil => exact ⟨s, rfl, hs, fun row hrow => absurd hrow List.not_mem_nil, fun _ _ => rfl⟩
  | cons row rows ih =>
      rw [List.map_cons, List.nodup_cons] at hkeys
      obtain ⟨t, ht, hupdates⟩ := hstep s hs row List.mem_cons_self
      obtain ⟨u, hu, hrest⟩ := ih hkeys.2
        (fun s hs other hother => hstep s hs other (List.mem_cons_of_mem _ hother)) hupdates.inv
      refine ⟨u, ?_, hrest.inv, fun other hother => ?_, fun k hk => ?_⟩
      · rw [List.foldlM_cons, ht]
        exact hu
      · rcases List.mem_cons.1 hother with rfl | hother
        · rw [hrest.others _ hkeys.1]
          exact hupdates.upd
        · have hne : key other ≠ key row := fun heq =>
            hkeys.1 (heq ▸ List.mem_map_of_mem hother)
          rw [← hupdates.others _ hne]
          exact hrest.upd other hother
      · rw [List.map_cons, List.mem_cons, not_or] at hk
        rw [hrest.others k hk.2, hupdates.others k hk.1]

/-- A loop of steps that may fail. -/
theorem exists_foldlM_refresh {step : σ → ρ → Option σ} (hkeys : (rows.map key).Nodup)
    (hstep : ∀ s, inv s → ∀ row ∈ rows, ∃ t, step s row = some t ∧
      Writes view key inv good s row t) {s : σ} (hs : inv s) :
    ∃ t, rows.foldlM step s = some t ∧ Refreshed view key inv good rows s t := by
  obtain ⟨t, ht, hupdated⟩ :=
    @exists_foldlM_update σ ρ κ V view key inv (fun row _ v => good row v) rows step hkeys
    (fun s hs row hrow =>
      have ⟨t, ht, hwrites⟩ := hstep s hs row hrow
      ⟨t, ht, hwrites.inv, hwrites.good, hwrites.others⟩) s hs
  exact ⟨t, ht, hupdated.inv, hupdated.upd, hupdated.others⟩

/-- A loop of steps that do not fail. -/
theorem foldl_refresh {step : σ → ρ → σ} (hkeys : (rows.map key).Nodup)
    (hstep : ∀ s, inv s → ∀ row ∈ rows, Writes view key inv good s row (step s row)) {s : σ}
    (hs : inv s) : Refreshed view key inv good rows s (rows.foldl step s) := by
  have hsome : ∀ s, inv s → ∀ row ∈ rows, ∃ t, some (step s row) = some t ∧
      Writes view key inv good s row t :=
    fun s hs row hrow => ⟨step s row, rfl, hstep s hs row hrow⟩
  obtain ⟨t, ht, hrefreshed⟩ := exists_foldlM_refresh hkeys hsome hs
  have hfold : rows.foldlM (fun s row => some (step s row)) s = some (rows.foldl step s) :=
    List.foldlM_pure
  rw [hfold] at ht
  rwa [Option.some.inj ht]

end Refresh
