/-
  A scheduler of one-shot events.

  `schedule` registers an event and returns an id that no event had before. An event fires at most
  once: `fire` hands it over and forgets it, and so does `cancel` without handing it over. When the
  pending events fire, and in which order, is left open.

  `OnlyPending o` says that nothing is pending besides the event of the id `o`, the usual invariant
  of a component that keeps the id of its last event in one variable.

  * `OnlyPending.length_le_one`: then at most one event is pending.
  * `OnlyPending.fire`, `OnlyPending.cancel`: firing anything, or cancelling that event, leaves
    nothing pending.
  * `onlyPending_schedule`: a scheduler with nothing pending has only the next event pending.
-/
import Mathlib

namespace NetLab.Lib

/-- Pending events under distinct ids, all below the next one. -/
structure Scheduler (ε : Type) where
  nextId : Nat
  pending : List (Nat × ε)
  fresh : ∀ p ∈ pending, p.1 < nextId
  nodup : (pending.map Prod.fst).Nodup

namespace Scheduler

variable {ε : Type}

/-- Nothing scheduled yet. -/
def empty : Scheduler ε where
  nextId := 0
  pending := []
  fresh := fun _ hp => absurd hp List.not_mem_nil
  nodup := List.nodup_nil

theorem nextId_not_mem (s : Scheduler ε) : s.nextId ∉ s.pending.map Prod.fst := by
  intro h
  obtain ⟨p, hp, hid⟩ := List.mem_map.mp h
  exact Nat.lt_irrefl _ (hid ▸ s.fresh p hp)

/-- Registers an event; also returns its id. -/
def schedule (s : Scheduler ε) (e : ε) : Scheduler ε × Nat where
  fst :=
    { nextId := s.nextId + 1
      pending := (s.nextId, e) :: s.pending
      fresh := by
        intro p hp
        rcases List.mem_cons.mp hp with rfl | hp
        · exact Nat.lt_succ_self s.nextId
        · exact Nat.lt_succ_of_lt (s.fresh p hp)
      nodup := List.nodup_cons.mpr ⟨s.nextId_not_mem, s.nodup⟩ }
  snd := s.nextId

/-- The event was scheduled, and neither fired nor cancelled. -/
def IsPending (s : Scheduler ε) (id : Nat) : Prop := ∃ e, (id, e) ∈ s.pending

instance (s : Scheduler ε) (id : Nat) : Decidable (s.IsPending id) :=
  decidable_of_iff (id ∈ s.pending.map Prod.fst) (by simp [IsPending])

/-- Forgets an event. -/
def cancel (s : Scheduler ε) (id : Nat) : Scheduler ε where
  nextId := s.nextId
  pending := s.pending.filter (·.1 ≠ id)
  fresh := fun p hp => s.fresh p (List.mem_of_mem_filter hp)
  nodup := s.nodup.sublist (List.filter_sublist.map Prod.fst)

/-- Hands over a pending event, and forgets it. -/
def fire (s : Scheduler ε) (id : Nat) : Option (Scheduler ε × ε) :=
  (s.pending.find? (·.1 = id)).map fun p => (s.cancel id, p.2)

theorem fire_isSome_iff {s : Scheduler ε} {id : Nat} : (s.fire id).isSome ↔ s.IsPending id := by
  unfold fire IsPending
  rw [Option.isSome_map, List.find?_isSome]
  simp

theorem fire_of_nil {s : Scheduler ε} (h : s.pending = []) (id : Nat) : s.fire id = none := by
  unfold fire
  rw [h]
  rfl

theorem fire_eq_some {s t : Scheduler ε} {id : Nat} {e : ε} (h : s.fire id = some (t, e)) :
    s.IsPending id ∧ t = s.cancel id := by
  refine ⟨fire_isSome_iff.mp (by rw [h]; rfl), ?_⟩
  obtain ⟨p, _, hp⟩ := Option.map_eq_some_iff.mp h
  exact (congrArg Prod.fst hp).symm

/-! ## At most one event -/

/-- Nothing is pending besides the event of the id, if there is one. -/
def OnlyPending (s : Scheduler ε) (o : Option Nat) : Prop := ∀ id, s.IsPending id → o = some id

theorem isPending_of_mem {s : Scheduler ε} {p : Nat × ε} (h : p ∈ s.pending) : s.IsPending p.1 :=
  ⟨p.2, h⟩

/-- Nothing is pending where no id is. -/
theorem pending_eq_nil {s : Scheduler ε} (h : ∀ id, ¬ s.IsPending id) : s.pending = [] :=
  List.eq_nil_iff_forall_not_mem.mpr fun p hp => h p.1 (isPending_of_mem hp)

theorem isPending_cancel {s : Scheduler ε} {id id' : Nat} (h : (s.cancel id).IsPending id') :
    s.IsPending id' ∧ id' ≠ id := by
  obtain ⟨e, he⟩ := h
  obtain ⟨hmem, hne⟩ := List.mem_filter.mp he
  exact ⟨⟨e, hmem⟩, of_decide_eq_true hne⟩

theorem onlyPending_of_nil {s : Scheduler ε} (h : s.pending = []) (o : Option Nat) :
    s.OnlyPending o := by
  rintro id ⟨e, he⟩
  rw [h] at he
  cases he

theorem onlyPending_schedule {s : Scheduler ε} (h : s.pending = []) (e : ε) :
    (s.schedule e).1.OnlyPending (some (s.schedule e).2) := by
  rintro id ⟨f, hf⟩
  rcases List.mem_cons.mp hf with hf | hf
  · exact congrArg some (congrArg Prod.fst hf).symm
  · rw [h] at hf
    cases hf

theorem OnlyPending.length_le_one {s : Scheduler ε} {o : Option Nat} (h : s.OnlyPending o) :
    s.pending.length ≤ 1 := by
  cases o with
  | none =>
    have hnil : s.pending = [] := pending_eq_nil fun id hid => by cases h id hid
    rw [hnil]
    exact Nat.zero_le 1
  | some id =>
    have hids : ∀ i ∈ s.pending.map Prod.fst, i = id := by
      intro i hi
      obtain ⟨p, hp, rfl⟩ := List.mem_map.mp hi
      exact (Option.some.inj (h p.1 (isPending_of_mem hp))).symm
    have hnodup := s.nodup
    rw [List.eq_replicate_of_mem hids, List.nodup_replicate, List.length_map] at hnodup
    exact hnodup

theorem OnlyPending.cancel {s : Scheduler ε} {id : Nat} (h : s.OnlyPending (some id)) :
    (s.cancel id).pending = [] := by
  refine pending_eq_nil fun id' h' => ?_
  obtain ⟨hpend, hne⟩ := isPending_cancel h'
  exact hne (Option.some.inj (h id' hpend)).symm

theorem OnlyPending.fire {s t : Scheduler ε} {o : Option Nat} (h : s.OnlyPending o) {id : Nat}
    {e : ε} (hfire : s.fire id = some (t, e)) : t.pending = [] := by
  obtain ⟨hpend, rfl⟩ := fire_eq_some hfire
  exact OnlyPending.cancel (h id hpend ▸ h)

end Scheduler

end NetLab.Lib
