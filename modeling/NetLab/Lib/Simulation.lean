/-
  Forward simulation between two machines.

  `Simulates M N R`: from related states, whatever `M` does in one step `N` can do in some number of
  steps, to a related state again. No step at all counts, so `M` may have steps `N` does not see.

  * `Simulates.run`: then whole runs are matched.
  * `run_view`: the case of one step for one step, under the same action.
-/
import NetLab.Lib.Machine

namespace NetLab.Lib

namespace Machine

variable {σ τ α β : Type}

/-- What `M` does in a step, `N` does in some number of steps. -/
def Simulates (M : Machine σ α) (N : Machine τ β) (R : σ → τ → Prop) : Prop :=
  ∀ s t a s', R s t → M.step s a = some s' → ∃ bs t', N.run t bs = some t' ∧ R s' t'

variable {M : Machine σ α} {N : Machine τ β} {R : σ → τ → Prop}

/-- One step after a run. -/
theorem run_append_of_run {s t : σ} {as : List α} (h : M.run s as = some t) (bs : List α) :
    M.run s (as ++ bs) = M.run t bs := by
  rw [run_append, h, Option.bind_some]

theorem run_singleton (s : σ) (a : α) : M.run s [a] = M.step s a := by
  rw [run_cons]
  cases M.step s a <;> rfl

/-- Runs are matched by runs. -/
theorem Simulates.run (h : Simulates M N R) {s s' : σ} {t : τ} {as : List α} (hR : R s t)
    (hrun : M.run s as = some s') : ∃ bs t', N.run t bs = some t' ∧ R s' t' := by
  induction as generalizing s t with
  | nil =>
    rw [run_nil, Option.some.injEq] at hrun
    exact ⟨[], t, rfl, hrun ▸ hR⟩
  | cons a as ih =>
    rw [run_cons] at hrun
    obtain ⟨u, hstep, hrest⟩ := Option.bind_eq_some_iff.mp hrun
    obtain ⟨bs, v, hbs, hv⟩ := h s t a u hR hstep
    obtain ⟨cs, t', hcs, ht'⟩ := ih hv hrest
    exact ⟨bs ++ cs, t', (run_append_of_run hbs cs).trans hcs, ht'⟩

/-- Where every step is the same step to a view of the state, so is every run. -/
theorem run_view {P : Machine τ α} {f : σ → τ}
    (hstep : ∀ s a s', M.step s a = some s' → P.step (f s) a = some (f s')) {s s' : σ}
    {as : List α} (h : M.run s as = some s') : P.run (f s) as = some (f s') := by
  induction as generalizing s with
  | nil =>
    obtain rfl := Option.some.inj h
    rfl
  | cons a as ih =>
    rw [run_cons] at h
    obtain ⟨u, hu, hrun⟩ := Option.bind_eq_some_iff.mp h
    rw [P.run_cons_of_step (hstep s a u hu)]
    exact ih hrun

/-- A step that `N` does not see. -/
theorem matched_by_none {s' : σ} {t : τ} (h : R s' t) :
    ∃ bs t', N.run t bs = some t' ∧ R s' t' :=
  ⟨[], t, rfl, h⟩

/-- A step that `N` does in one. -/
theorem matched_by_one {s' : σ} {t t' : τ} {b : β} (hstep : N.step t b = some t') (h : R s' t') :
    ∃ bs t', N.run t bs = some t' ∧ R s' t' :=
  ⟨[b], t', (run_singleton t b).trans hstep, h⟩

end Machine

end NetLab.Lib
