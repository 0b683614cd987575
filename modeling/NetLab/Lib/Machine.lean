/-
  Labelled machines: the library every system of this development is an instance of.

  A `Machine σ α` moves by a partial step function. `step s a` is the state after action `a`,
  `none` where `a` is not enabled in `s`. A run is a list of actions; `run s as` is the state it
  ends in, `none` if some action of it is not enabled. All nondeterminism (the order of the
  parties' steps, what a network loses or reorders, the readings of a clock) is in the actions,
  so a statement about every run is a statement about every list of actions.

  * `Along P s as`: every transition of the run satisfies `P` (source, action, target).
  * `run_inv`: an invariant of the step is an invariant of every run.
  * `exists_run_of_measure`: actions that lower a measure can be taken until none is enabled;
    `countP_le_of_measure`: and only so often.
  * `along_congr_of_inv`: two transition predicates that agree wherever a guarded invariant holds
    agree along every run. The guard may be the second predicate itself, so the invariant need
    only survive transitions that satisfy it.
  * `ofFun`: a total step function as a machine; its runs are left folds.
  * `exposed`: a machine in an environment that makes moves of its own.
-/
import Mathlib

namespace NetLab.Lib

/-- A labelled machine. `step s a = none` where action `a` is not enabled in `s`. -/
structure Machine (σ α : Type) where
  step : σ → α → Option σ

namespace Machine

variable {σ α : Type} (M : Machine σ α)

/-- The state at the end of a run. -/
def run : σ → List α → Option σ
  | s, [] => some s
  | s, a :: as =>
    match M.step s a with
    | none => none
    | some t => run t as

/-- Every transition of the run satisfies `P`. Actions after one that is not enabled do not
    count. -/
def Along (P : σ → α → σ → Prop) : σ → List α → Prop
  | _, [] => True
  | s, a :: as =>
    match M.step s a with
    | none => True
    | some t => P s a t ∧ Along P t as

/-- States a run from `s` can end in. -/
def Reachable (s t : σ) : Prop := ∃ as, M.run s as = some t

/-! ## Runs -/

@[simp] theorem run_nil (s : σ) : M.run s [] = some s := rfl

theorem run_cons (s : σ) (a : α) (as : List α) :
    M.run s (a :: as) = (M.step s a).bind fun t => M.run t as := by
  simp only [run]
  cases M.step s a <;> rfl

theorem run_cons_of_step {s t : σ} {a : α} (h : M.step s a = some t) (as : List α) :
    M.run s (a :: as) = M.run t as := by
  rw [run_cons, h, Option.bind_some]

theorem run_append (s : σ) (as bs : List α) :
    M.run s (as ++ bs) = (M.run s as).bind fun t => M.run t bs := by
  induction as generalizing s with
  | nil => rfl
  | cons a as ih =>
    rw [List.cons_append, run_cons, run_cons]
    cases M.step s a with
    | none => rfl
    | some t => exact ih t

/-- Peeling the last action off a run. -/
theorem run_concat {s u : σ} {a : α} {as : List α} :
    M.run s (as ++ [a]) = some u ↔ ∃ t, M.run s as = some t ∧ M.step t a = some u := by
  rw [run_append, Option.bind_eq_some_iff]
  refine exists_congr fun t => and_congr_right fun _ => ?_
  rw [run_cons]
  cases M.step t a <;> simp

/-- An invariant of the actions of a class is an invariant of every run of them. -/
theorem run_inv_of {I : σ → Prop} {A : α → Prop}
    (hstep : ∀ s a t, I s → A a → M.step s a = some t → I t) {s t : σ} {as : List α} (hs : I s)
    (has : ∀ a ∈ as, A a) (h : M.run s as = some t) : I t := by
  induction as generalizing s with
  | nil =>
    rw [run_nil, Option.some.injEq] at h
    exact h ▸ hs
  | cons a as ih =>
    rw [run_cons] at h
    obtain ⟨u, hu, hrun⟩ := Option.bind_eq_some_iff.mp h
    obtain ⟨ha, hrest⟩ := List.forall_mem_cons.mp has
    exact ih (hstep s a u hs ha hu) hrest hrun

/-- An invariant of the step is an invariant of every run. -/
theorem run_inv {I : σ → Prop} (hstep : ∀ s a t, I s → M.step s a = some t → I t)
    {s t : σ} {as : List α} (hs : I s) (h : M.run s as = some t) : I t :=
  M.run_inv_of (A := fun _ => True) (fun s a t hI _ hst => hstep s a t hI hst) hs
    (fun _ _ => trivial) h

/-- Where the actions of a class lower a measure, a run of them leads to a state in which none of
    them is enabled. -/
theorem exists_run_of_measure {I : σ → Prop} {A : α → Prop} (m : σ → Nat)
    (hstep : ∀ s a t, I s → A a → M.step s a = some t → I t ∧ m t < m s) {s : σ} (hs : I s) :
    ∃ as t, (∀ a ∈ as, A a) ∧ M.run s as = some t ∧ ∀ a, A a → M.step t a = none := by
  induction hm : m s using Nat.strong_induction_on generalizing s with
  | _ n ih =>
    by_cases hend : ∀ a, A a → M.step s a = none
    · exact ⟨[], s, fun _ ha => absurd ha List.not_mem_nil, rfl, hend⟩
    · obtain ⟨a, hno⟩ := not_forall.mp hend
      obtain ⟨ha, hne⟩ := Classical.not_imp.mp hno
      obtain ⟨t, ht⟩ := Option.ne_none_iff_exists'.mp hne
      obtain ⟨hI, hlt⟩ := hstep s a t hs ha ht
      obtain ⟨as, u, has, hrun, hu⟩ := ih (m t) (hm ▸ hlt) hI rfl
      refine ⟨a :: as, u, List.forall_mem_cons.mpr ⟨ha, has⟩, ?_, hu⟩
      rw [M.run_cons_of_step ht, hrun]

/-- Where every action of a kind lowers a measure and no other raises it, a run has no more of that
    kind than the measure it starts with. -/
theorem countP_le_of_measure {I : σ → Prop} (m : σ → Nat) (p : α → Bool)
    (hstep : ∀ s a t, I s → M.step s a = some t → I t ∧ m t + (if p a then 1 else 0) ≤ m s)
    {s t : σ} {as : List α} (hs : I s) (h : M.run s as = some t) : m t + as.countP p ≤ m s := by
  induction as generalizing s with
  | nil =>
    rw [run_nil, Option.some.injEq] at h
    exact (congrArg m h).ge
  | cons a as ih =>
    rw [run_cons] at h
    obtain ⟨u, hu, hrun⟩ := Option.bind_eq_some_iff.mp h
    obtain ⟨hI, hle⟩ := hstep s a u hs hu
    have hrest := ih hI hrun
    rw [List.countP_cons]
    omega

theorem reachable_inv {I : σ → Prop} (hstep : ∀ s a t, I s → M.step s a = some t → I t)
    {s t : σ} (hs : I s) (h : M.Reachable s t) : I t := by
  obtain ⟨as, has⟩ := h
  exact M.run_inv hstep hs has

/-! ## Predicates along a run -/

theorem along_cons_of_step {P : σ → α → σ → Prop} {s t : σ} {a : α} (h : M.step s a = some t)
    (as : List α) : M.Along P s (a :: as) ↔ P s a t ∧ M.Along P t as := by
  simp only [Along, h]

theorem along_cons_of_none {P : σ → α → σ → Prop} {s : σ} {a : α} (h : M.step s a = none)
    (as : List α) : M.Along P s (a :: as) := by
  simp only [Along, h]

instance decidableAlong {P : σ → α → σ → Prop} [∀ s a t, Decidable (P s a t)] :
    (s : σ) → (as : List α) → Decidable (M.Along P s as)
  | _, [] => isTrue trivial
  | s, a :: as =>
    match h : M.step s a with
    | none => isTrue (M.along_cons_of_none h as)
    | some t =>
      have : Decidable (M.Along P t as) := decidableAlong t as
      decidable_of_iff _ (M.along_cons_of_step h as).symm

/-- `Along` by the places of the run: `P` holds at every action, between the state the actions
    before it lead to and the state it leads to. -/
theorem along_iff {P : σ → α → σ → Prop} {s : σ} {as : List α} :
    M.Along P s as ↔ ∀ pre a post, as = pre ++ a :: post → ∀ t u, M.run s pre = some t →
      M.step t a = some u → P t a u := by
  induction as generalizing s with
  | nil =>
    refine ⟨fun _ pre a post h => ?_, fun _ => trivial⟩
    exact absurd h (by simp)
  | cons b as ih =>
    cases hb : M.step s b with
    | none =>
      refine ⟨fun _ pre a post h t u hrun hstep => ?_, fun _ => M.along_cons_of_none hb as⟩
      cases pre with
      | nil =>
        obtain ⟨rfl, rfl⟩ := List.cons.inj h
        rw [run_nil, Option.some.injEq] at hrun
        rw [← hrun, hb] at hstep
        cases hstep
      | cons c pre =>
        obtain ⟨rfl, rfl⟩ := List.cons.inj h
        rw [run_cons, hb] at hrun
        cases hrun
    | some v =>
      rw [M.along_cons_of_step hb, ih]
      constructor
      · rintro ⟨hP, hrest⟩ pre a post h t u hrun hstep
        cases pre with
        | nil =>
          obtain ⟨rfl, rfl⟩ := List.cons.inj h
          rw [run_nil, Option.some.injEq] at hrun
          subst hrun
          rw [hb, Option.some.injEq] at hstep
          exact hstep ▸ hP
        | cons c pre =>
          obtain ⟨rfl, rfl⟩ := List.cons.inj h
          rw [M.run_cons_of_step hb] at hrun
          exact hrest pre a post rfl t u hrun hstep
      · intro hall
        refine ⟨hall [] b as rfl s v rfl hb, fun pre a post h t u hrun hstep => ?_⟩
        refine hall (b :: pre) a post (by rw [h, List.cons_append]) t u ?_ hstep
        rw [M.run_cons_of_step hb, hrun]

theorem along_and {P Q : σ → α → σ → Prop} {s : σ} {as : List α} :
    M.Along (fun s a t => P s a t ∧ Q s a t) s as ↔ M.Along P s as ∧ M.Along Q s as := by
  induction as generalizing s with
  | nil => exact (and_self_iff).symm
  | cons a as ih =>
    cases ha : M.step s a with
    | none =>
      exact iff_of_true (M.along_cons_of_none ha as)
        ⟨M.along_cons_of_none ha as, M.along_cons_of_none ha as⟩
    | some t =>
      rw [M.along_cons_of_step ha, M.along_cons_of_step ha, M.along_cons_of_step ha, ih]
      exact and_and_and_comm

/-- Where a guarded invariant holds, `P` and `C` agree; the invariant survives transitions that
    satisfy `C`. Then `P` and `C` agree along every run. -/
theorem along_congr_of_inv {I : σ → Prop} {P C : σ → α → σ → Prop}
    (hiff : ∀ s a t, I s → M.step s a = some t → (P s a t ↔ C s a t))
    (hinv : ∀ s a t, I s → M.step s a = some t → C s a t → I t)
    {s : σ} (hs : I s) (as : List α) : M.Along P s as ↔ M.Along C s as := by
  induction as generalizing s with
  | nil => exact Iff.rfl
  | cons a as ih =>
    cases ha : M.step s a with
    | none => exact iff_of_true (M.along_cons_of_none ha as) (M.along_cons_of_none ha as)
    | some t =>
      rw [M.along_cons_of_step ha, M.along_cons_of_step ha, hiff s a t hs ha]
      exact and_congr_right fun hC => ih (hinv s a t hs ha hC)

/-- `along_congr_of_inv` for runs whose transitions all satisfy `L`. -/
theorem along_congr_of_inv_of_along {I : σ → Prop} {P C L : σ → α → σ → Prop}
    (hiff : ∀ s a t, I s → M.step s a = some t → (P s a t ↔ C s a t))
    (hinv : ∀ s a t, I s → M.step s a = some t → C s a t → L s a t → I t)
    {s : σ} (hs : I s) {as : List α} (hL : M.Along L s as) :
    M.Along P s as ↔ M.Along C s as := by
  have h := M.along_congr_of_inv (P := fun s a t => P s a t ∧ L s a t)
    (C := fun s a t => C s a t ∧ L s a t)
    (fun s a t hI hst => and_congr_left fun _ => hiff s a t hI hst)
    (fun s a t hI hst hC => hinv s a t hI hst hC.1 hC.2) hs as
  rwa [along_and, along_and, and_iff_left hL, and_iff_left hL] at h

/-- What every transition from an invariant state satisfies holds along every run. -/
theorem along_of_inv {I : σ → Prop} {P : σ → α → σ → Prop}
    (hinv : ∀ s a t, I s → M.step s a = some t → I t)
    (hP : ∀ s a t, I s → M.step s a = some t → P s a t)
    {s : σ} (hs : I s) (as : List α) : M.Along P s as := by
  have h := M.along_congr_of_inv (P := P) (C := fun _ _ _ => True)
    (fun s a t hI hst => iff_of_true (hP s a t hI hst) trivial)
    (fun s a t hI hst _ => hinv s a t hI hst) hs as
  exact h.mpr (M.along_iff.mpr fun _ _ _ _ _ _ _ _ => trivial)

/-! ## Total machines -/

/-- A machine whose actions are always enabled. -/
def ofFun (f : σ → α → σ) : Machine σ α := ⟨fun s a => some (f s a)⟩

theorem run_ofFun (f : σ → α → σ) (s : σ) (as : List α) :
    (ofFun f).run s as = some (as.foldl f s) := by
  induction as generalizing s with
  | nil => rfl
  | cons a as ih => exact ih (f s a)

/-- `along_iff` for a total machine. -/
theorem along_ofFun_iff (f : σ → α → σ) {P : σ → α → σ → Prop} {s : σ} {as : List α} :
    (ofFun f).Along P s as ↔ ∀ pre a post, as = pre ++ a :: post →
      P (pre.foldl f s) a (f (pre.foldl f s) a) := by
  rw [along_iff]
  constructor
  · intro h pre a post has
    exact h pre a post has _ _ (run_ofFun f s pre) rfl
  · rintro h pre a post has t u hrun hstep
    rw [run_ofFun, Option.some.injEq] at hrun
    subst hrun
    obtain rfl : f (pre.foldl f s) a = u := Option.some.inj hstep
    exact h pre a post has

/-! ## Environments -/

/-- The machine, and moves of an environment that are always enabled. -/
def exposed {β : Type} (f : σ → β → σ) : Machine σ (α ⊕ β) where
  step s
    | .inl a => M.step s a
    | .inr b => some (f s b)

end Machine

end NetLab.Lib
