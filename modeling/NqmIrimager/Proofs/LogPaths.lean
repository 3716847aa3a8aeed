import NqmIrimager.Logger
import NqmIrimager.Proofs.DateStrings
import NqmIrimager.Proofs.LogWindow

/-!
# `NqmIrimager.Proofs.LogPaths`: the two file names of a mocked IRLogger

The reader's path and the writer's path come from two calls of `irlogger_log_path`, the
second one less than 100 ms after the first has returned. The first call leaves at least
100 ms of its second, so the second call starts in the same second (`sameSecond`). But
it waits for the next one when less than 100 ms are left. Then the paths differ, because a
path can be decoded and the two seconds are shown as different ones (`irloggerLogPathAt_ne`).

`samePath_iff` is the exact condition on the writer's instant.
-/

set_option autoImplicit false

namespace NqmIrimager
namespace Chrono

/-! ### The wait -/

/-- Where a wait returns: at once, or at the start of the next second. -/
theorem wait_cases (period : Int) {t : Int} (h : 0 ≤ t) :
    (period ≤ nextSecond t - t ∧ waitIfAtEndOfSecond period t = t) ∨
      (nextSecond t - t < period ∧ waitIfAtEndOfSecond period t = nextSecond t ∧
        toTimeT (waitIfAtEndOfSecond period t) = toTimeT t + 1) := by
  have hbounds := toTimeT_bounds h
  have hnext := nextSecond_eq t
  unfold waitIfAtEndOfSecond
  split
  · rename_i hend
    refine Or.inr ⟨hend, rfl, toTimeT_unique (by omega) (by omega) (by omega)⟩
  · rename_i hroom
    exact Or.inl ⟨by omega, rfl⟩

/-- What starts less than `period` after a wait has returned starts in the second in which
the wait returned: the window of a wait that is never late. -/
theorem sameSecond {period : Int} (hperiod : 0 < period) (hle : period ≤ seconds 1) {t u : Int}
    (h : 0 ≤ t) (hafter : waitIfAtEndOfSecond period t ≤ u)
    (hsoon : u < waitIfAtEndOfSecond period t + period) :
    toTimeT u = toTimeT (waitIfAtEndOfSecond period t) :=
  toTimeT_of_waitReturns h hperiod (waitReturns_waitIfAtEndOfSecond hle t) hafter hsoon

/-! ### The date -/

/-- The seconds a clock shows. -/
def shownSecond (zone : TimeZone) (t : Int) : Int := (t + zone.offset t) % 60

/-- Two seconds in a row are shown as different ones. -/
theorem shownSecond_succ (zone : TimeZone) (t : Int) :
    shownSecond zone (t + 1) ≠ shownSecond zone t := by
  have hticks := zone.ticks t
  unfold shownSecond
  omega

/-- The year of a day from the epoch on, for some thousand years. -/
theorem civilFromDays_year {days : Int} (h : -1 ≤ days) (hle : days ≤ 200000) :
    0 ≤ (civilFromDays days).1 ∧ (civilFromDays days).1 ≤ 3000 := by
  have hera : 0 ≤ (days + 719468) / 146097 ∧ (days + 719468) / 146097 ≤ 6 := by omega
  have hday : 0 ≤ (days + 719468) % 146097 ∧ (days + 719468) % 146097 < 146097 := by omega
  simp only [civilFromDays]
  generalize (days + 719468) / 146097 = era at hera ⊢
  generalize (days + 719468) % 146097 = dayOfEra at hday ⊢
  have hyear : 0 ≤ (dayOfEra - dayOfEra / 1460 + dayOfEra / 36524 - dayOfEra / 146096) / 365 ∧
      (dayOfEra - dayOfEra / 1460 + dayOfEra / 36524 - dayOfEra / 146096) / 365 ≤ 400 := by
    omega
  generalize (dayOfEra - dayOfEra / 1460 + dayOfEra / 36524 - dayOfEra / 146096) / 365 = yearOfEra
    at hyear ⊢
  split <;> omega

/-- The times of a 64-bit clock have a year. -/
theorem localtime_isSome (zone : TimeZone) {t : Int} (h : 0 ≤ t) (hrange : t < 9223372037) :
    ∃ tm, localtime zone t = some tm ∧ tm.tmSec = shownSecond zone t := by
  have hoffset := zone.offset_le t
  have hyear := civilFromDays_year
    (show -1 ≤ (t + zone.offset t) / 86400 by omega) (by omega)
  unfold localtime
  rcases hdate : civilFromDays ((t + zone.offset t) / 86400) with ⟨year, month, day⟩
  rw [hdate] at hyear
  simp only [hdate]
  rw [if_pos ⟨by omega, by omega⟩]
  refine ⟨_, rfl, ?_⟩
  simp only [shownSecond]
  omega

/-! ### The two paths -/

/-- In the range of the clock there is a path. -/
theorem irloggerLogPathAt_isOk (zone : TimeZone) (pathPrefix : Bytes) {t : Int} (h : 0 ≤ t)
    (hrange : t < 9223372036854775808) :
    ∃ path, irloggerLogPathAt zone pathPrefix t = .ok path := by
  have hbounds := toTimeT_bounds h
  obtain ⟨tm, htm, -⟩ := localtime_isSome zone hbounds.2.2 (by omega)
  have htext := evoIrloggerDatestring_eq_ok_iff.mpr ⟨tm, htm, rfl⟩
  exact ⟨_, irloggerLogPathAt_eq_ok_iff.mpr ⟨_, htext, rfl⟩⟩

/-- Seconds in a row lead to different paths: one path has one local time, and the two
seconds are shown as different ones. -/
theorem irloggerLogPathAt_ne (zone : TimeZone) (pathPrefix : Bytes) {u w : Int} (hu : 0 ≤ u)
    (hw : 0 ≤ w) (hrange : w < 9223372036854775808) (hnext : toTimeT w = toTimeT u + 1)
    {path : Bytes} (hpath : irloggerLogPathAt zone pathPrefix u = .ok path) :
    irloggerLogPathAt zone pathPrefix w ≠ .ok path := by
  intro hpath'
  have hubounds := toTimeT_bounds hu
  have hwbounds := toTimeT_bounds hw
  obtain ⟨tm, htm, hclock, hname⟩ := localtime_of_path hpath
  obtain ⟨tm', htm', hclock', hname'⟩ := localtime_of_path hpath'
  obtain rfl := fileName_inj hclock hclock' (hname.trans hname'.symm)
  obtain ⟨shown, hlocal, hsec⟩ := localtime_isSome zone hubounds.2.2 (by omega)
  obtain ⟨shown', hlocal', hsec'⟩ := localtime_isSome zone hwbounds.2.2 (by omega)
  obtain rfl : shown = tm := Option.some.inj (hlocal.symm.trans htm)
  obtain rfl : shown' = shown := Option.some.inj (hlocal'.symm.trans htm')
  rw [hsec, hnext] at hsec'
  exact shownSecond_succ zone _ hsec'.symm

/-- The file that the reader opens is the file that the mock writer opens exactly when the
writer's call does not start in the last 100 ms of a second. -/
theorem samePath_iff (zone : TimeZone) (pathPrefix : Bytes) {reader writer : Int}
    (hepoch : 0 ≤ reader) (hafter : waitIfAtEndOfSecond defaultDelay reader ≤ writer)
    (hsoon : writer < waitIfAtEndOfSecond defaultDelay reader + defaultDelay)
    (hrange : waitIfAtEndOfSecond defaultDelay writer < 9223372036854775808) :
    (∃ path, irloggerLogPath zone pathPrefix defaultDelay reader = .ok path ∧
        irloggerLogPath zone pathPrefix defaultDelay writer = .ok path) ↔
      defaultDelay ≤ nextSecond writer - writer := by
  have hdelay : defaultDelay ≤ seconds 1 := by decide
  have hpositive : 0 < defaultDelay := by decide
  have hreturn : 0 ≤ waitIfAtEndOfSecond defaultDelay reader :=
    (remaining_of_waitReturns hepoch hpositive (waitReturns_waitIfAtEndOfSecond hdelay reader)).1
  have hsecond := sameSecond hpositive hdelay hepoch hafter hsoon
  have hwriter : 0 ≤ writer := by omega
  rw [irloggerLogPath_eq_at, irloggerLogPath_eq_at]
  rcases wait_cases defaultDelay hwriter with ⟨hroom, hwait⟩ | ⟨hend, hwait, hnext⟩
  · -- The writer does not wait: its second is the reader's.
    refine iff_of_true ?_ hroom
    obtain ⟨path, hpath⟩ := irloggerLogPathAt_isOk zone pathPrefix hreturn (by omega)
    refine ⟨path, hpath, ?_⟩
    rw [hwait, irloggerLogPathAt_congr zone pathPrefix hsecond]
    exact hpath
  · -- The writer waits for the second after the reader's.
    refine iff_of_false ?_ (by omega)
    rintro ⟨path, hreader, hwriter'⟩
    rw [hsecond] at hnext
    have hbounds := toTimeT_bounds hwriter
    have hstart := nextSecond_eq writer
    exact irloggerLogPathAt_ne zone pathPrefix hreturn (by omega) hrange hnext hreader hwriter'

/-- The reader at half past a second, the writer 50 ms later. -/
theorem samePath_iff_half :
    (∃ path, irloggerLogPath .utc (ascii "irlogger.fifo") defaultDelay (milliseconds 1695072473500)
        = .ok path ∧
      irloggerLogPath .utc (ascii "irlogger.fifo") defaultDelay (milliseconds 1695072473550)
        = .ok path) ↔
      defaultDelay ≤ nextSecond (milliseconds 1695072473550) - milliseconds 1695072473550 :=
  samePath_iff .utc (ascii "irlogger.fifo") (by decide) (by decide) (by decide) (by decide)

/-- The reader 150 ms before the end of a second, the writer 70 ms later: it waits, and
opens the file of the next second. -/
theorem paths_differ_at_end :
    waitIfAtEndOfSecond defaultDelay (milliseconds 1695072473850) = milliseconds 1695072473850 ∧
      irloggerLogPath .utc (ascii "irlogger.fifo") defaultDelay (milliseconds 1695072473850)
        = .ok (ascii "irlogger.fifo_18_9_2023_21-27-53.log") ∧
      irloggerLogPath .utc (ascii "irlogger.fifo") defaultDelay (milliseconds 1695072473920)
        = .ok (ascii "irlogger.fifo_18_9_2023_21-27-54.log") := by
  refine ⟨?_, ?_, ?_⟩
  · decide +kernel
  · decide +kernel
  · decide +kernel

/-- The path of the `Logger` model is this one, with the date string of the call. -/
theorem irloggerLogPath_env (env : IRLoggerEnv) (zone : TimeZone) (pathPrefix : Bytes)
    {period now : Int}
    (h : evoIrloggerDatestring zone (waitIfAtEndOfSecond period now)
      = .ok env.evoIrloggerDatestring) :
    irloggerLogPath zone pathPrefix period now
      = .ok (NqmIrimager.irloggerLogPath env pathPrefix) := by
  unfold irloggerLogPath
  rw [h]
  simp only [NqmIrimager.irloggerLogPath, List.append_assoc]

end Chrono
end NqmIrimager
