/-
  What the three fields of `TcpAshish` hold after a run, and which call writes `ssThresh`.

  The socket is arbitrary here: `react` may change `cWnd` and `ssThresh` in any way between the
  calls. Over any run of samples, calls and such changes

  * `delayMin` and `currRtt` are the least and the last strictly positive sample (`tracks_after`);
  * the latch is set exactly where some call was made in slow start with the last sample more than
    4 ms above the least (`thresholdFound_iff`);
  * the first such call writes `ssThresh`, no other call does (`hystart_exact`).

  Samples of at most ten simulated seconds keep the threshold `delayMin + 4 ms` away from the end
  of the 64-bit range, so the code's comparison is the comparison of the exact values.
-/
import NetLab.Tcp.Ashish

namespace NetLab.Tcp

open NetLab.Lib

variable {ρ : Type}

/-! ## Samples -/

/-- The sample an event carries, if it is strictly positive. -/
def Event.sample? : Event ρ → Option Time
  | .pktsAcked _ rtt => if 0 < rtt then some rtt else none
  | _ => none

/-- The strictly positive samples of a run, in order. -/
def samples (es : List (Event ρ)) : List Time := es.filterMap Event.sample?

theorem samples_concat (es : List (Event ρ)) (e : Event ρ) :
    samples (es ++ [e]) = samples es ++ e.sample?.toList := by
  unfold samples
  rw [List.filterMap_append]
  cases h : e.sample? <;> simp [h]

theorem samples_concat_of_none {es : List (Event ρ)} {e : Event ρ} (h : e.sample? = none) :
    samples (es ++ [e]) = samples es := by
  rw [samples_concat, h, Option.toList_none, List.append_nil]

/-- No sample is above ten seconds, the simulated time. -/
def WithinRun (es : List (Event ρ)) : Prop :=
  ∀ n rtt, Event.pktsAcked n rtt ∈ es → rtt.toInt ≤ 10000000000

theorem mem_samples {es : List (Event ρ)} {x : Time} :
    x ∈ samples es ↔ ∃ n, Event.pktsAcked n x ∈ es ∧ 0 < x := by
  unfold samples
  rw [List.mem_filterMap]
  constructor
  · rintro ⟨e, he, hex⟩
    cases e with
    | pktsAcked n rtt =>
      change (if 0 < rtt then some rtt else none) = some x at hex
      split at hex
      · obtain rfl : rtt = x := Option.some.inj hex
        exact ⟨n, he, ‹_›⟩
      · exact absurd hex (by simp)
    | increaseWindow n => cases hex
    | socket r => cases hex
  · rintro ⟨n, he, hpos⟩
    exact ⟨_, he, if_pos hpos⟩

theorem samples_pos (es : List (Event ρ)) : ∀ x ∈ samples es, 0 < x.toInt := by
  intro x hx
  obtain ⟨_, _, hpos⟩ := mem_samples.mp hx
  exact Int64.lt_iff_toInt_lt.mp hpos

theorem WithinRun.samples_le {es : List (Event ρ)} (h : WithinRun es) :
    ∀ x ∈ samples es, x.toInt ≤ 10000000000 := by
  intro x hx
  obtain ⟨n, hmem, _⟩ := mem_samples.mp hx
  exact h n x hmem

theorem WithinRun.of_prefix {es fs : List (Event ρ)} (h : WithinRun (es ++ fs)) : WithinRun es :=
  fun n rtt hmem => h n rtt (List.mem_append_left fs hmem)

/-- `delayMin` is the least of the samples `xs`, `currRtt` the last. -/
structure TcpAshish.Tracks (cc : TcpAshish) (xs : List Time) : Prop where
  none_seen : xs = [] → cc.delayMin = timeMax
  least_mem : xs ≠ [] → cc.delayMin ∈ xs
  least_le : ∀ x ∈ xs, cc.delayMin ≤ x
  last : ∀ x, xs.getLast? = some x → cc.currRtt = x

theorem le_timeMax (t : Time) : t ≤ timeMax := by
  rw [Int64.le_iff_toInt_le, timeMax, Int64.toInt_maxValue]
  have := t.toInt_lt
  omega

theorem tracks_init : TcpAshish.init.Tracks [] :=
  ⟨fun _ => rfl, fun h => absurd rfl h, nofun, nofun⟩

/-- A positive sample is folded into the minimum and becomes the last. -/
theorem TcpAshish.Tracks.pktsAcked {cc : TcpAshish} {xs : List Time} (h : cc.Tracks xs) {rtt : Time}
    (hrtt : 0 < rtt) : (cc.pktsAcked rtt).Tracks (xs ++ [rtt]) := by
  unfold TcpAshish.pktsAcked
  rw [if_pos hrtt]
  refine ⟨fun hnil => absurd hnil (by simp), fun _ => ?_, fun x hx => ?_, fun x hx => ?_⟩
  · dsimp only
    split
    · exact List.mem_append_right xs (List.mem_singleton_self rtt)
    · rename_i hkeep
      refine List.mem_append_left [rtt] (h.least_mem fun hnil => hkeep (.inl (h.none_seen hnil)))
  · dsimp only
    rcases List.mem_append.mp hx with hx | hx
    · have hle := h.least_le x hx
      split
      · rename_i hnew
        rcases hnew with hmax | hlt
        · rw [hmax] at hle
          exact Int64.le_trans (le_timeMax rtt) hle
        · exact Int64.le_of_lt (Int64.lt_of_lt_of_le hlt hle)
      · exact hle
    · obtain rfl := List.mem_singleton.mp hx
      split
      · exact Int64.le_refl _
      · rename_i hkeep
        exact Int64.not_lt.mp fun hlt => hkeep (.inr hlt)
  · rw [List.getLast?_concat, Option.some.injEq] at hx
    exact hx

theorem TcpAshish.pktsAcked_of_not_pos {cc : TcpAshish} {rtt : Time} (h : ¬ 0 < rtt) :
    cc.pktsAcked rtt = cc := by
  unfold TcpAshish.pktsAcked
  rw [if_neg h]

/-- `IncreaseWindow` writes neither of the two delays. -/
theorem TcpAshish.Tracks.increaseWindow {base : TcpNewReno} {cc : TcpAshish} {xs : List Time}
    (h : cc.Tracks xs) (tcb : TcpSocketState) (n : UInt32) :
    (cc.increaseWindow base tcb n).1.Tracks xs := by
  rcases cc.increaseWindow_cases base tcb n with
    ⟨_, he⟩ | ⟨_, _, he⟩ | ⟨_, _, _, he⟩ | ⟨_, _, _, he⟩ <;> rw [he]
  · exact h
  · exact h
  · exact ⟨h.none_seen, h.least_mem, h.least_le, h.last⟩
  · exact h

theorem tracks_after (base : TcpNewReno) (react : ρ → TcpSocketState → TcpSocketState) {c : Conn}
    (hfresh : c.cc = TcpAshish.init) (es : List (Event ρ)) :
    (after base react c es).cc.Tracks (samples es) := by
  induction es using List.reverseRecOn with
  | nil =>
    show c.cc.Tracks []
    rw [hfresh]
    exact tracks_init
  | append_singleton es e ih =>
    rw [after_concat]
    cases e with
    | pktsAcked n rtt =>
      show (TcpAshish.pktsAcked _ rtt).Tracks _
      by_cases hrtt : 0 < rtt
      · have hs : (Event.pktsAcked n rtt : Event ρ).sample? = some rtt := if_pos hrtt
        rw [samples_concat, hs]
        exact ih.pktsAcked hrtt
      · have hs : (Event.pktsAcked n rtt : Event ρ).sample? = none := if_neg hrtt
        rw [samples_concat_of_none hs, TcpAshish.pktsAcked_of_not_pos hrtt]
        exact ih
    | increaseWindow n =>
      rw [samples_concat_of_none rfl]
      exact ih.increaseWindow _ n
    | socket r =>
      rw [samples_concat_of_none rfl]
      exact ih

/-! ## The trigger -/

/-- The last sample of `xs` is above the least one by more than 4 ms. -/
def DelayJump (xs : List Time) : Prop :=
  ∃ least last, least ∈ xs ∧ (∀ x ∈ xs, least ≤ x) ∧ xs.getLast? = some last ∧
    last.toInt > least.toInt + 4000000

theorem threshold_toInt {t : Time} (h0 : 0 ≤ t.toInt) (h : t.toInt ≤ 10000000000) :
    (t + milliSeconds 4).toInt = t.toInt + 4000000 := by
  rw [Int64.toInt_add, show (milliSeconds 4).toInt = 4000000 from by decide]
  exact Int.bmod_eq_of_le (by omega) (by omega)

/-- On a list of positive samples of at most ten seconds, the test of the code is the jump. -/
theorem TcpAshish.Tracks.delayExceeded_iff {cc : TcpAshish} {xs : List Time} (h : cc.Tracks xs)
    (hpos : ∀ x ∈ xs, 0 < x.toInt) (hle : ∀ x ∈ xs, x.toInt ≤ 10000000000) :
    cc.DelayExceeded ↔ DelayJump xs := by
  have hgt : ∀ m ∈ xs, ∀ t : Time, t > m + milliSeconds 4 ↔ t.toInt > m.toInt + 4000000 := by
    intro m hm t
    have hp := hpos m hm
    rw [gt_iff_lt, Int64.lt_iff_toInt_lt, threshold_toInt (by omega) (hle m hm), gt_iff_lt]
  constructor
  · rintro ⟨hmin, hrtt⟩
    have hne : xs ≠ [] := fun hnil => hmin (h.none_seen hnil)
    have hlast := List.getLast?_eq_some_getLast hne
    rw [h.last _ hlast] at hrtt
    exact ⟨cc.delayMin, xs.getLast hne, h.least_mem hne, h.least_le, hlast,
      (hgt _ (h.least_mem hne) _).mp hrtt⟩
  · rintro ⟨least, last, hmem, hleast, hlast, hjump⟩
    have hne : xs ≠ [] := List.ne_nil_of_mem hmem
    have heq : cc.delayMin = least := by
      have h1 := h.least_le least hmem
      have h2 := hleast cc.delayMin (h.least_mem hne)
      exact Int64.le_antisymm h1 h2
    refine ⟨?_, ?_⟩
    · intro hmax
      have := hle least hmem
      rw [← heq, hmax, timeMax, Int64.toInt_maxValue] at this
      omega
    · rw [heq, h.last last hlast]
      exact (hgt least hmem last).mpr hjump

/-- A call of `IncreaseWindow` made after `es` comes in slow start with a delay jump. -/
def TriggerCall (base : TcpNewReno) (react : ρ → TcpSocketState → TcpSocketState) (c : Conn)
    (es : List (Event ρ)) : Prop :=
  (after base react c es).tcb.cWnd < (after base react c es).tcb.ssThresh ∧ DelayJump (samples es)

/-- Some call of the run was such a call. -/
def Triggered (base : TcpNewReno) (react : ρ → TcpSocketState → TcpSocketState) (c : Conn)
    (es : List (Event ρ)) : Prop :=
  ∃ p n q, es = p ++ .increaseWindow n :: q ∧ TriggerCall base react c p

/-- The call made after `es` is the first such call of the run. -/
def FirstTrigger (base : TcpNewReno) (react : ρ → TcpSocketState → TcpSocketState) (c : Conn)
    (es : List (Event ρ)) : Prop :=
  TriggerCall base react c es ∧ ¬ Triggered base react c es

theorem triggered_iff {base : TcpNewReno} {react : ρ → TcpSocketState → TcpSocketState} {c : Conn}
    {es : List (Event ρ)} :
    Triggered base react c es ↔ ¬ AtCalls (fun p _ => ¬ TriggerCall base react c p) es := by
  unfold Triggered AtCalls
  simp only [not_forall, not_not, exists_prop]

theorem triggered_concat_of_not_call {base : TcpNewReno}
    {react : ρ → TcpSocketState → TcpSocketState} {c : Conn} {es : List (Event ρ)} {e : Event ρ}
    (he : ∀ n, e ≠ .increaseWindow n) :
    Triggered base react c (es ++ [e]) ↔ Triggered base react c es := by
  rw [triggered_iff, triggered_iff, atCalls_concat_of_not_call he]

theorem triggered_concat_call {base : TcpNewReno} {react : ρ → TcpSocketState → TcpSocketState}
    {c : Conn} {es : List (Event ρ)} {n : UInt32} :
    Triggered base react c (es ++ [.increaseWindow n]) ↔
      Triggered base react c es ∨ TriggerCall base react c es := by
  rw [triggered_iff, triggered_iff, atCalls_concat_call, not_and_or, not_not]

/-- On a run with samples of at most ten seconds, the test of the code is the jump. -/
theorem delayExceeded_iff_after (base : TcpNewReno) (react : ρ → TcpSocketState → TcpSocketState)
    {c : Conn} (hfresh : c.cc = TcpAshish.init) {es : List (Event ρ)} (hrun : WithinRun es) :
    (after base react c es).cc.DelayExceeded ↔ DelayJump (samples es) :=
  (tracks_after base react hfresh es).delayExceeded_iff (samples_pos es) hrun.samples_le

/-- The latch is set exactly where some call has met the test. -/
theorem thresholdFound_iff (base : TcpNewReno) (react : ρ → TcpSocketState → TcpSocketState)
    {c : Conn} (hfresh : c.cc = TcpAshish.init) (es : List (Event ρ)) (hrun : WithinRun es) :
    (after base react c es).cc.thresholdFound = true ↔ Triggered base react c es := by
  induction es using List.reverseRecOn with
  | nil =>
    refine iff_of_false ?_ ?_
    · show ¬ c.cc.thresholdFound = true
      rw [hfresh]
      decide
    · rintro ⟨p, n, q, h, _⟩
      exact absurd h (by simp)
  | append_singleton es e ih =>
    have hpre := hrun.of_prefix
    rw [after_concat]
    cases e with
    | pktsAcked n rtt =>
      rw [triggered_concat_of_not_call (by simp), ← ih hpre]
      show (TcpAshish.pktsAcked _ rtt).thresholdFound = true ↔ _
      rw [TcpAshish.pktsAcked_thresholdFound]
    | socket r => rw [triggered_concat_of_not_call (by simp), ← ih hpre, step]
    | increaseWindow n =>
      rw [triggered_concat_call, ← ih hpre]
      have hjump := delayExceeded_iff_after base react hfresh hpre
      unfold TriggerCall
      rw [← hjump, step]
      rcases (after base react c es).cc.increaseWindow_cases base (after base react c es).tcb n with
        ⟨hs, he⟩ | ⟨hs, hf, he⟩ | ⟨hs, hf, hd, he⟩ | ⟨hs, hf, hd, he⟩ <;> rw [he]
      · exact (or_iff_left fun h => hs h.1).symm
      · exact iff_of_true hf (.inl hf)
      · exact iff_of_true rfl (.inr ⟨hs, hd⟩)
      · exact (or_iff_left fun h => hd h.2).symm

/-! ## Exactness -/

/-- The event is a call of one of the hooks of the class. -/
def Event.IsHook : Event ρ → Prop
  | .socket _ => False
  | _ => True

/-- What holds after the run `es`, and of the next call. -/
structure HyStartExact (base : TcpNewReno) (react : ρ → TcpSocketState → TcpSocketState) (c : Conn)
    (es : List (Event ρ)) : Prop where
  /-- `delayMin` is the least positive sample, `Time::Max` where there is none; `currRtt` is the
      last. -/
  tracks : (after base react c es).cc.Tracks (samples es)
  /-- The latch is set exactly from the first call on that met the test. -/
  found_iff : (after base react c es).cc.thresholdFound = true ↔ Triggered base react c es
  /-- The next call writes `ssThresh` exactly when it is that first call. -/
  writes_iff : ∀ n, (after base react c (es ++ [.increaseWindow n])).tcb.ssThresh ≠
    (after base react c es).tcb.ssThresh ↔ FirstTrigger base react c es
  /-- What that call writes. -/
  writes : ∀ n, FirstTrigger base react c es →
    (after base react c (es ++ [.increaseWindow n])).tcb.ssThresh =
        (after base react c es).tcb.cWnd ∧
      (after base react c (es ++ [.increaseWindow n])).tcb.cWnd = (after base react c es).tcb.cWnd
  /-- After it no hook writes `ssThresh` or adds a slow-start segment. -/
  once : ∀ e : Event ρ, e.IsHook → Triggered base react c es →
    (after base react c (es ++ [e])).tcb.ssThresh = (after base react c es).tcb.ssThresh ∧
      ((after base react c es).tcb.cWnd < (after base react c es).tcb.ssThresh →
        (after base react c (es ++ [e])).tcb.cWnd = (after base react c es).tcb.cWnd)

/-- The first triggering call: it comes in slow start with the latch still clear, and finds the
    delay exceeded. -/
theorem firstTrigger_iff (base : TcpNewReno) (react : ρ → TcpSocketState → TcpSocketState)
    {c : Conn} (hfresh : c.cc = TcpAshish.init) {es : List (Event ρ)} (hrun : WithinRun es) :
    FirstTrigger base react c es ↔
      (after base react c es).tcb.cWnd < (after base react c es).tcb.ssThresh ∧
        (after base react c es).cc.thresholdFound = false ∧
        (after base react c es).cc.DelayExceeded := by
  unfold FirstTrigger TriggerCall
  rw [← thresholdFound_iff base react hfresh es hrun,
    ← delayExceeded_iff_after base react hfresh hrun, Bool.not_eq_true]
  tauto

/-- **Exactness of the trigger.** Over every run of samples of at most ten seconds, calls and
    arbitrary changes by the socket. -/
theorem hystart_exact (base : TcpNewReno) (hidle : base.PktsAckedIdle)
    (hkeeps : base.AvoidanceKeepsSsThresh) (react : ρ → TcpSocketState → TcpSocketState) (c : Conn)
    (hfresh : c.cc = TcpAshish.init) (es : List (Event ρ)) (hrun : WithinRun es) :
    HyStartExact base react c es := by
  have hfound := thresholdFound_iff base react hfresh es hrun
  have hfirst := firstTrigger_iff base react hfresh hrun
  set d := after base react c es with hd
  refine ⟨tracks_after base react hfresh es, hfound, fun n => ?_, fun n hft => ?_,
    fun e he ht => ?_⟩
  · rw [after_concat, ← hd, hfirst, step]
    rcases d.cc.increaseWindow_cases base d.tcb n with
      ⟨hs, he⟩ | ⟨hs, hf, he⟩ | ⟨hs, hf, hx, he⟩ | ⟨hs, hf, hx, he⟩ <;> rw [he]
    · exact iff_of_false (not_not_intro (hkeeps d.tcb n hs)) fun h => hs h.1
    · refine iff_of_false (not_not_intro rfl) fun h => ?_
      rw [hf] at h
      exact absurd h.2.1 (by decide)
    · refine iff_of_true (fun heq => ?_) ⟨hs, hf, hx⟩
      -- the value written is below the old one
      have heq' : d.tcb.cWnd = d.tcb.ssThresh := heq
      rw [heq'] at hs
      exact UInt32.lt_irrefl _ hs
    · exact iff_of_false (not_not_intro rfl) fun h => hx h.2.2
  · obtain ⟨hs, hf, hx⟩ := hfirst.mp hft
    rw [after_concat, ← hd, step, TcpAshish.increaseWindow_trigger hs hf hx]
    exact ⟨rfl, rfl⟩
  · rw [after_concat, ← hd]
    cases e with
    | pktsAcked n rtt =>
      show (base.pktsAcked d.tcb n rtt).ssThresh = _ ∧ (_ → (base.pktsAcked d.tcb n rtt).cWnd = _)
      rw [hidle]
      exact ⟨rfl, fun _ => rfl⟩
    | increaseWindow n =>
      have hf := hfound.mpr ht
      rw [step]
      by_cases hs : d.tcb.cWnd < d.tcb.ssThresh
      · rw [TcpAshish.increaseWindow_latched hs hf]
        exact ⟨rfl, fun _ => rfl⟩
      · rw [TcpAshish.increaseWindow_avoidance hs]
        exact ⟨hkeeps d.tcb n hs, fun h => absurd h hs⟩
    | socket r => exact absurd he id

/-- A socket that sets `cWnd` and `ssThresh` to whatever pair it is given. -/
def rewrite (w : UInt32 × UInt32) (tcb : TcpSocketState) : TcpSocketState :=
  { tcb with cWnd := w.1, ssThresh := w.2 }

theorem hystart_exact_rewrite :
    HyStartExact newReno rewrite opening
      [.pktsAcked 1 10000000, .pktsAcked 1 0, .pktsAcked 2 15000000, .increaseWindow 1,
        .socket (536, 1072)] :=
  hystart_exact newReno newReno_pktsAckedIdle newReno_avoidanceAdds.keepsSsThresh rewrite opening
    rfl _ (by
      intro n rtt h
      simp only [List.mem_cons, Event.pktsAcked.injEq, reduceCtorEq, List.not_mem_nil,
        or_false] at h
      rcases h with ⟨_, rfl⟩ | ⟨_, rfl⟩ | ⟨_, rfl⟩ <;> decide)

end NetLab.Tcp
