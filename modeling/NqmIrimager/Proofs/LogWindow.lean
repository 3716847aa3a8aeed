import NqmIrimager.Chrono

/-!
# `NqmIrimager.Proofs.LogWindow`: a wait leaves a full window before the next second

`wait_if_at_end_of_second(period)` sleeps when less than `period` is left of the second,
and `irlogger_log_path` reads the clock after it. `remaining_of_waitReturns` says that at
least `period` is left of the second in which the wait returns, so that the name is still
the right one when `evo::IRLogger` reads the clock on its own, less than `period` later.

The code truncates and compares; the statements are about `wholeSecond` and `remaining`,
which know nothing of that. From the epoch on the two agree (`toTimeT_eq_wholeSecond`,
`nextSecond_eq_add_remaining`).
-/

set_option autoImplicit false

namespace NqmIrimager
namespace Chrono

/-! ### Whole seconds -/

/-- From the epoch on, the second of an instant contains it. -/
theorem toTimeT_bounds {t : Int} (h : 0 ≤ t) :
    toTimeT t * 1000000000 ≤ t ∧ t < toTimeT t * 1000000000 + 1000000000 ∧ 0 ≤ toTimeT t := by
  rw [toTimeT, Int.tdiv_eq_ediv_of_nonneg h]
  omega

/-- It is the only one that does. -/
theorem toTimeT_unique {t : Int} {n : Int} (h : 0 ≤ t) (hle : n * 1000000000 ≤ t)
    (hlt : t < n * 1000000000 + 1000000000) : toTimeT t = n := by
  have := toTimeT_bounds h
  omega

/-- The next second in nanoseconds. -/
theorem nextSecond_eq (t : Int) :
    nextSecond t = toTimeT t * 1000000000 + 1000000000 := by
  rw [nextSecond, seconds, seconds]
  omega

/-- The whole second an instant lies in. -/
def wholeSecond (t : Int) : Int := t / 1000000000

/-- How much is left of it. -/
def remaining (t : Int) : Int := (wholeSecond t + 1) * 1000000000 - t

/-- Something is left of every second, and at most all of it. -/
theorem remaining_bounds (t : Int) : 0 < remaining t ∧ remaining t ≤ 1000000000 := by
  unfold remaining wholeSecond
  omega

/-- A later instant lies in the same second until what is left of it has passed. -/
theorem wholeSecond_eq_iff {w u : Int} (h : w ≤ u) :
    wholeSecond u = wholeSecond w ↔ u < w + remaining w := by
  unfold remaining wholeSecond
  constructor
  · intro hsame
    omega
  · intro hsoon
    omega

/-- At the start of a second all of it is left, and then less by the time that has
passed. -/
theorem remaining_add {t d : Int} (hd : 0 ≤ d) (hlt : d < 1000000000) :
    remaining (t + remaining t + d) = 1000000000 - d := by
  unfold remaining wholeSecond
  omega

/-- From the epoch on, truncation gives the second the instant lies in. -/
theorem toTimeT_eq_wholeSecond {t : Int} (h : 0 ≤ t) : toTimeT t = wholeSecond t := by
  rw [toTimeT, Int.tdiv_eq_ediv_of_nonneg h, wholeSecond]

/-- From the epoch on, the next second starts when what is left has passed. -/
theorem nextSecond_eq_add_remaining {t : Int} (h : 0 ≤ t) : nextSecond t = t + remaining t := by
  rw [nextSecond_eq, toTimeT_eq_wholeSecond h, remaining]
  omega

/-! ### The wait -/

/-- It sleeps iff less than the period is left, and for what is left. -/
theorem sleepDeadline_eq {t : Int} (h : 0 ≤ t) (period : Int) :
    sleepDeadline period t = if remaining t < period then some (t + remaining t) else none := by
  rw [sleepDeadline, nextSecond_eq_add_remaining h]
  rw [show t + remaining t - t = remaining t by omega]

/-- The wait that starts at `t` may return at `w`: at once when it does not sleep. A sleep
may last longer than asked for, as long as the period still fits into the second. -/
def WaitReturns (period t w : Int) : Prop :=
  match sleepDeadline period t with
  | none => w = t
  | some deadline => deadline ≤ w ∧ w ≤ deadline + seconds 1 - period

/-- The wait of the model, whose sleep is never late, is one of them. -/
theorem waitReturns_waitIfAtEndOfSecond {period : Int} (hle : period ≤ seconds 1) (t : Int) :
    WaitReturns period t (waitIfAtEndOfSecond period t) := by
  rw [waitIfAtEndOfSecond_eq, WaitReturns]
  cases sleepDeadline period t with
  | none => rfl
  | some deadline =>
      refine ⟨Int.le_refl deadline, ?_⟩
      simp only [Option.getD_some]
      omega

/-- Where the wait returns, at least the period is left of the second. -/
theorem remaining_of_waitReturns {period t w : Int} (ht : 0 ≤ t) (hperiod : 0 < period)
    (h : WaitReturns period t w) : 0 ≤ w ∧ period ≤ remaining w := by
  have hbounds := remaining_bounds t
  rw [WaitReturns, sleepDeadline_eq ht] at h
  by_cases hend : remaining t < period
  · -- Asleep: the return is as far into the next second as the sleep was late.
    rw [if_pos hend] at h
    obtain ⟨hle, hlate⟩ := h
    have hsecond : seconds 1 = 1000000000 := rfl
    have hleft := remaining_add (t := t) (show 0 ≤ w - (t + remaining t) by omega) (by omega)
    rw [show t + remaining t + (w - (t + remaining t)) = w by omega] at hleft
    omega
  · rw [if_neg hend] at h
    obtain rfl : w = t := h
    exact ⟨ht, by omega⟩

/-- What starts less than the period after the return starts in the same second. -/
theorem toTimeT_of_waitReturns {period t w u : Int} (ht : 0 ≤ t) (hperiod : 0 < period)
    (hw : WaitReturns period t w) (hafter : w ≤ u) (hsoon : u < w + period) :
    toTimeT u = toTimeT w := by
  obtain ⟨hnonneg, hleft⟩ := remaining_of_waitReturns ht hperiod hw
  rw [toTimeT_eq_wholeSecond hnonneg, toTimeT_eq_wholeSecond (show 0 ≤ u by omega)]
  exact (wholeSecond_eq_iff hafter).mpr (by omega)

/-! ### The names in the window -/

/-- The date string depends on the second only. -/
theorem evoIrloggerDatestring_congr (zone : TimeZone) {u w : Int} (h : toTimeT u = toTimeT w) :
    evoIrloggerDatestring zone u = evoIrloggerDatestring zone w := by
  unfold evoIrloggerDatestring
  rw [h]

/-- Two instants of one second have the same path. -/
theorem irloggerLogPathAt_congr (zone : TimeZone) (pathPrefix : Bytes) {u w : Int}
    (h : toTimeT u = toTimeT w) :
    irloggerLogPathAt zone pathPrefix u = irloggerLogPathAt zone pathPrefix w := by
  unfold irloggerLogPathAt
  rw [evoIrloggerDatestring_congr zone h]

/-- `wait_if_at_end_of_second` sleeps iff less than the period is left of the second, for
less than the period. Where it returns, the rest of the second is a window of at least the
period: the date string stays the same, and `evo::IRLogger`, which makes its name from its
own reading of the clock, uses the path that `irlogger_log_path` has computed. For a period
of more than a second there is no such return. -/
theorem wait_leaves_window (zone : TimeZone) (pathPrefix : Bytes)
    (evoPath : Int → Except Exception Bytes)
    (hevo : ∀ reading, evoPath reading = irloggerLogPathAt zone pathPrefix reading)
    {period t : Int} (ht : 0 ≤ t) (hperiod : 0 < period) :
    ((∃ deadline, sleepDeadline period t = some deadline) ↔ remaining t < period) ∧
      (∀ deadline, sleepDeadline period t = some deadline →
        deadline = nextSecond t ∧ 0 < deadline - t ∧ deadline - t < period) ∧
      ∀ w, WaitReturns period t w → ∀ u, w ≤ u → u < w + period →
        wholeSecond u = wholeSecond w ∧
          evoIrloggerDatestring zone u = evoIrloggerDatestring zone w ∧
          irloggerLogPathAt zone pathPrefix w = evoPath u := by
  refine ⟨?_, ?_, ?_⟩
  · rw [sleepDeadline_eq ht]
    split
    · rename_i hend
      exact iff_of_true ⟨_, rfl⟩ hend
    · rename_i hroom
      exact iff_of_false (by rintro ⟨deadline, hdeadline⟩; cases hdeadline) hroom
  · intro deadline hdeadline
    have hbounds := remaining_bounds t
    rw [sleepDeadline_eq ht] at hdeadline
    split at hdeadline
    · rename_i hend
      obtain rfl := Option.some.inj hdeadline
      exact ⟨(nextSecond_eq_add_remaining ht).symm, by omega, by omega⟩
    · cases hdeadline
  · intro w hw u hafter hsoon
    have hsame := toTimeT_of_waitReturns ht hperiod hw hafter hsoon
    have hnonneg := (remaining_of_waitReturns ht hperiod hw).1
    refine ⟨?_, evoIrloggerDatestring_congr zone hsame, ?_⟩
    · rw [← toTimeT_eq_wholeSecond hnonneg, ← toTimeT_eq_wholeSecond (show 0 ≤ u by omega), hsame]
    · rw [hevo]
      exact (irloggerLogPathAt_congr zone pathPrefix hsame).symm

/-- 50 ms before the end of a second: the wait sleeps, comes back 20 ms late, and 99 ms
later the name is the same. -/
theorem wait_leaves_window_late :
    ((∃ deadline, sleepDeadline defaultDelay (milliseconds 1695072473950) = some deadline) ↔
        remaining (milliseconds 1695072473950) < defaultDelay) ∧
      irloggerLogPathAt .utc (ascii "irlogger.fifo") (milliseconds 1695072474020)
        = .ok (ascii "irlogger.fifo_18_9_2023_21-27-54.log") ∧
      irloggerLogPathAt .utc (ascii "irlogger.fifo") (milliseconds 1695072474020)
        = irloggerLogPathAt .utc (ascii "irlogger.fifo") (milliseconds 1695072474119) :=
  have hwindow := wait_leaves_window .utc (ascii "irlogger.fifo")
    (irloggerLogPathAt .utc (ascii "irlogger.fifo")) (fun _ => rfl)
    (show 0 ≤ milliseconds 1695072473950 by decide) (show 0 < defaultDelay by decide)
  have hreturns : WaitReturns defaultDelay (milliseconds 1695072473950)
      (milliseconds 1695072474020) := ⟨by decide, by decide⟩
  ⟨hwindow.1, by decide +kernel,
    (hwindow.2.2 _ hreturns (milliseconds 1695072474119) (by decide) (by decide)).2.2⟩

end Chrono
end NqmIrimager
