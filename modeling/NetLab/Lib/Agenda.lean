/-
  Events with a time.

  A simulator runs its events in the order of their times, and those of one time in the order they
  were scheduled in, which their ids tell. `first` is the event it takes next.
-/
import Mathlib

namespace NetLab.Lib

structure Event (ε : Type) where
  time : Nat
  uid : Nat
  what : ε

variable {ε : Type}

def Event.key (e : Event ε) : ℕ ×ₗ ℕ := toLex (e.time, e.uid)

/-- The event a simulator takes next. -/
def first (agenda : List (Event ε)) : Option (Event ε) := agenda.argmin Event.key

theorem first_mem {agenda : List (Event ε)} {e : Event ε} (h : first agenda = some e) :
    e ∈ agenda :=
  List.argmin_mem h

/-- Nothing on the agenda is earlier; what has the same time was not scheduled before. -/
theorem first_before {agenda : List (Event ε)} {e f : Event ε} (h : first agenda = some e)
    (hf : f ∈ agenda) : e.time < f.time ∨ e.time = f.time ∧ e.uid ≤ f.uid :=
  Prod.Lex.toLex_le_toLex.mp (List.le_of_mem_argmin hf h)

theorem exists_first {agenda : List (Event ε)} (h : agenda ≠ []) : ∃ e, first agenda = some e :=
  Option.ne_none_iff_exists'.mp fun hnone => h (List.argmin_eq_none.mp hnone)

end NetLab.Lib
