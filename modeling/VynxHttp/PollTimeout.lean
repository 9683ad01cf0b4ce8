import VynxHttp.WaitTimeout

/-!
# The timeout of the poller

`calculate_timeout` starts from the greatest time point, which stands for no
timer, and casts the milliseconds to `int` before it clamps them.  The result is
what it should be where some timer is active, or none has been scheduled, and
the cast changes nothing which the clamp would not have changed.
-/

namespace VynxHttp

variable {α : Type*}

def intMax : ℤ := 2 ^ 31 - 1

/-- The default timeout without active timers, and otherwise the whole
milliseconds until the earliest one, as an `int` which is not negative. -/
structure TimeoutOf (loop : LoopTimers α) (defaultTimeoutMs now timeout : ℤ) :
    Prop where
  inactive : LoopTimers.expiries loop.timers.elems = ∅ →
    timeout = defaultTimeoutMs
  active : ∀ earliest,
    IsLeast (LoopTimers.expiries loop.timers.elems) earliest →
      timeout = min (max 0 ((earliest - now) / 1000000)) intMax

/-- The number is an `int`, or one which is cast to the end of the range where
it is clamped. -/
def CastClamps (n : ℤ) : Prop :=
  -(2 ^ 31) ≤ n ∧ n < 2 ^ 31 ∨ 2 ^ 31 ≤ n ∧ castInt n = intMax ∨
    n < -(2 ^ 31) ∧ castInt n ≤ 0

/-- When there are timers, some is active, unless the default timeout is what
the greatest time point gives; and the time to the earliest is cast as it would
be clamped. -/
structure CastsRight (loop : LoopTimers α) (defaultTimeoutMs now : ℤ) :
    Prop where
  inactive : loop.timers.elems ≠ [] →
    LoopTimers.expiries loop.timers.elems = ∅ →
      defaultTimeoutMs =
        max 0 (castInt (wholeMilliseconds (timePointMax - now)))
  active : ∀ earliest,
    IsLeast (LoopTimers.expiries loop.timers.elems) earliest →
      CastClamps (wholeMilliseconds (earliest - now))

theorem max_zero_wholeMilliseconds (ticks : ℤ) :
    max 0 (wholeMilliseconds ticks) = max 0 (ticks / 1000000) := by
  rcases le_total 0 ticks with hpos | hneg
  · rw [LoopTimers.wholeMilliseconds_of_nonneg hpos]
  · rw [LoopTimers.wholeMilliseconds_of_nonpos hneg]
    omega

/-- Clamping after the cast is clamping before it for these numbers only. -/
theorem clamp_castInt_iff (n : ℤ) :
    max 0 (castInt n) = min (max 0 n) intMax ↔ CastClamps n := by
  unfold CastClamps castInt intMax
  rw [Int.bmod_def]
  omega

namespace LoopTimers

theorem calculateTimeout_of_ne_nil {loop : LoopTimers α}
    (hne : loop.timers.elems ≠ []) (defaultTimeoutMs now : ℤ) :
    loop.calculateTimeout defaultTimeoutMs now =
      max 0 (castInt (wholeMilliseconds
        (minExpiry loop.timers.elems - now))) := by
  simp [calculateTimeout, hne]

theorem minExpiry_of_inactive {timers : List (TimerEntry α)}
    (hnone : expiries timers = ∅) : minExpiry timers = timePointMax := by
  have hleast := isLeast_minExpiry timers
  rw [hnone, insert_empty_eq] at hleast
  exact hleast.1

theorem minExpiry_of_isLeast {timers : List (TimerEntry α)} {earliest : ℤ}
    (hearliest : IsLeast (expiries timers) earliest)
    (hrange : earliest ≤ timePointMax) : minExpiry timers = earliest := by
  have hinsert : IsLeast (insert timePointMax (expiries timers)) earliest := by
    refine ⟨.inr hearliest.1, ?_⟩
    rintro expiry (rfl | hmem)
    · exact hrange
    · exact hearliest.2 hmem
  exact (isLeast_minExpiry timers).unique hinsert

/-- The timeout is what it should be exactly when the timers are cast right. -/
theorem timeoutOf_iff {loop : LoopTimers α}
    (hrange : ∀ timer ∈ loop.timers.elems, timer.expiry ≤ timePointMax)
    (defaultTimeoutMs now : ℤ) :
    TimeoutOf loop defaultTimeoutMs now
        (loop.calculateTimeout defaultTimeoutMs now) ↔
      CastsRight loop defaultTimeoutMs now := by
  have hinactive : (expiries loop.timers.elems = ∅ →
        loop.calculateTimeout defaultTimeoutMs now = defaultTimeoutMs) ↔
      (loop.timers.elems ≠ [] → expiries loop.timers.elems = ∅ →
        defaultTimeoutMs =
          max 0 (castInt (wholeMilliseconds (timePointMax - now)))) := by
    by_cases hempty : loop.timers.elems = []
    · refine iff_of_true (fun _ => ?_) fun hne => absurd hempty hne
      simp [calculateTimeout, hempty]
    · rw [calculateTimeout_of_ne_nil hempty]
      constructor
      · intro hdefault _ hnone
        rw [← hdefault hnone, minExpiry_of_inactive hnone]
      · intro hdefault hnone
        rw [minExpiry_of_inactive hnone]
        exact (hdefault hempty hnone).symm
  have hactive : ∀ earliest,
      IsLeast (expiries loop.timers.elems) earliest →
      (loop.calculateTimeout defaultTimeoutMs now =
          min (max 0 ((earliest - now) / 1000000)) intMax ↔
        CastClamps (wholeMilliseconds (earliest - now))) := by
    intro earliest hearliest
    obtain ⟨timer, hmem, _, hexpiry⟩ := hearliest.1
    have hle : earliest ≤ timePointMax := hexpiry ▸ hrange timer hmem
    rw [calculateTimeout_of_ne_nil (List.ne_nil_of_mem hmem),
      minExpiry_of_isLeast hearliest hle, ← max_zero_wholeMilliseconds]
    exact clamp_castInt_iff _
  constructor
  · rintro ⟨hdefault, hleast⟩
    exact ⟨hinactive.mp hdefault, fun earliest hearliest =>
      (hactive earliest hearliest).mp (hleast earliest hearliest)⟩
  · rintro ⟨hdefault, hleast⟩
    exact ⟨hinactive.mpr hdefault, fun earliest hearliest =>
      (hactive earliest hearliest).mpr (hleast earliest hearliest)⟩

/-- A loop with one timer. -/
def waitingFor (delay : ℤ) : LoopTimers Unit :=
  (create fun size => 2 * size).applyAll
    [.schedule ⟨0, delay, delay, (), false⟩]

theorem timeoutOf_iff_five :
    TimeoutOf (waitingFor 5) 100 0 ((waitingFor 5).calculateTimeout 100 0) ↔
      CastsRight (waitingFor 5) 100 0 :=
  timeoutOf_iff (by decide +kernel) 100 0

/-- With a timer in 2147483648 milliseconds the loop does not wait at all. -/
theorem not_timeoutOf_long :
    (waitingFor (2 ^ 31)).calculateTimeout 100 0 = 0 ∧
      ¬TimeoutOf (waitingFor (2 ^ 31)) 100 0
        ((waitingFor (2 ^ 31)).calculateTimeout 100 0) := by
  have hzero : (waitingFor (2 ^ 31)).calculateTimeout 100 0 = 0 := by
    decide +kernel
  refine ⟨hzero, fun htimeout => ?_⟩
  have hearliest : IsLeast (expiries (waitingFor (2 ^ 31)).timers.elems)
      (2 ^ 31 * 1000000) := by
    have hone : expiries (waitingFor (2 ^ 31)).timers.elems =
        {2 ^ 31 * 1000000} := by
      have hadded : (waitingFor (2 ^ 31)).timers.elems =
          [⟨1, 2 ^ 31 * 1000000, 2 ^ 31 * 1000000, (), false, false⟩] := rfl
      have hnone : expiries ([] : List (TimerEntry Unit)) = ∅ := by
        simp [expiries]
      rw [hadded, expiries_cons_of_active rfl, hnone, insert_empty_eq]
    rw [hone]
    exact isLeast_singleton
  have hactive := htimeout.active _ hearliest
  rw [hzero] at hactive
  exact absurd hactive (by decide)

end LoopTimers

end VynxHttp
