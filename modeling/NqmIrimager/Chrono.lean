import NqmIrimager.Definitions

/-!
# `NqmIrimager.Chrono`: clock readings and the name of the log file

The functions of `chrono.hpp` that the IRLogger file name depends on, and
`irlogger_log_path` of `irlogger_to_spd_posix.cpp`.

A reading of the system clock (a `time_point<system_clock>`) is a number of nanoseconds
since the epoch. A function that reads the clock takes the instant at which it is called.
`sleep_until` returns at the instant it is given and the rest takes no time, so
`waitIfAtEndOfSecond` can say at which instant it returns. Where a late `sleep_until` matters,
`sleepDeadline` is the instant it is given, and `irloggerLogPathAt` takes the second reading
of the clock.

`localtime` follows the C library: the offset of the time zone, and the Gregorian calendar.
-/

set_option autoImplicit false

namespace NqmIrimager
namespace Chrono

/-- `std::chrono::seconds(n)`. -/
def seconds (n : Int) : Int := n * 1000000000

/-- `std::chrono::milliseconds(n)`. -/
def milliseconds (n : Int) : Int := n * 1000000

/-- `time_point_cast<seconds>(t)` as a count, and `system_clock::to_time_t(t)`. Both
truncate towards the epoch. -/
def toTimeT (t : Int) : Int := t.tdiv 1000000000

/-- `next_second(now)`. A reading is an unbounded integer here. The clock counts in 64 bits,
where the sum overflows in the last 854 ms of the range. -/
def nextSecond (now : Int) : Int := seconds (toTimeT now) + seconds 1

/-- `wait_if_at_end_of_second(period)` at the instant `now`: the instant at which it
returns. -/
def waitIfAtEndOfSecond (period : Int) (now : Int) : Int :=
  if nextSecond now - now < period then nextSecond now else now

/-- The instant that `wait_if_at_end_of_second(period)` gives to `sleep_until`, if it sleeps. -/
def sleepDeadline (period : Int) (now : Int) : Option Int :=
  if nextSecond now - now < period then some (nextSecond now) else none

/-- The wait ends at that instant when `sleep_until` is not late. -/
theorem waitIfAtEndOfSecond_eq (period now : Int) :
    waitIfAtEndOfSecond period now = (sleepDeadline period now).getD now := by
  unfold waitIfAtEndOfSecond sleepDeadline
  split <;> rfl

/-! ### `localtime` -/

/-- A time zone: the seconds its clocks are ahead of UTC, at each second. They are at most
a day ahead or behind, and no change of the offset shows one second twice in a row. -/
structure TimeZone where
  offset : Int → Int
  offset_le : ∀ t, -86400 ≤ offset t ∧ offset t ≤ 86400
  ticks : ∀ t, (offset (t + 1) - offset t + 1) % 60 ≠ 0

/-- `TZ=UTC`. -/
def TimeZone.utc : TimeZone where
  offset := fun _ => 0
  offset_le := fun _ => by decide
  ticks := fun _ => by decide

/-- The fields of `std::tm` that the program reads. -/
structure Tm where
  tmSec : Int
  tmMin : Int
  tmHour : Int
  tmMday : Int
  tmMon : Int
  tmYear : Int
deriving DecidableEq, Repr

/-- Year, month and day of the month, a number of days after 1970-01-01. The year is
counted from the first of March, in eras of 400 years, so a leap day is the last day of
its year. -/
def civilFromDays (days : Int) : Int × Int × Int :=
  let era := (days + 719468) / 146097
  let dayOfEra := (days + 719468) % 146097
  let yearOfEra := (dayOfEra - dayOfEra / 1460 + dayOfEra / 36524 - dayOfEra / 146096) / 365
  let dayOfYear := dayOfEra - (365 * yearOfEra + yearOfEra / 4 - yearOfEra / 100)
  let marchMonth := (5 * dayOfYear + 2) / 153
  let day := dayOfYear - (153 * marchMonth + 2) / 5 + 1
  let month := if marchMonth < 10 then marchMonth + 3 else marchMonth - 9
  let year := yearOfEra + era * 400 + if month ≤ 2 then 1 else 0
  (year, month, day)

/-- `std::localtime`. There is no result when the year does not fit into an `int`. -/
def localtime (zone : TimeZone) (t : Int) : Option Tm :=
  let localSeconds := t + zone.offset t
  let (year, month, day) := civilFromDays (localSeconds / 86400)
  let secondOfDay := localSeconds % 86400
  if -2147483648 ≤ year - 1900 ∧ year - 1900 ≤ 2147483647 then
    some
      { tmSec := secondOfDay % 60
        tmMin := secondOfDay % 3600 / 60
        tmHour := secondOfDay / 3600
        tmMday := day
        tmMon := month - 1
        tmYear := year - 1900 }
  else none

/-! ### The file name -/

/-- `stringstream << n`. -/
def decimal (n : Int) : Bytes := ascii (toString n)

/-- `evo_irlogger_datestring(time_point)`. `localtime` sets `errno` to `EOVERFLOW`. -/
def evoIrloggerDatestring (zone : TimeZone) (timePoint : Int) : Except Exception Bytes :=
  match localtime zone (toTimeT timePoint) with
  | none => .error ⟨.systemError, ascii "Value too large for defined data type"⟩
  | some tm =>
      .ok (decimal tm.tmMday ++ ascii "_" ++ decimal (tm.tmMon + 1) ++ ascii "_"
        ++ decimal (tm.tmYear + 1900) ++ ascii "_" ++ decimal tm.tmHour ++ ascii "-"
        ++ decimal tm.tmMin ++ ascii "-" ++ decimal tm.tmSec)

/-- What `evo_irlogger_datestring` writes for a broken-down time. -/
def datestring (tm : Tm) : Bytes :=
  decimal tm.tmMday ++ ascii "_" ++ decimal (tm.tmMon + 1) ++ ascii "_"
    ++ decimal (tm.tmYear + 1900) ++ ascii "_" ++ decimal tm.tmHour ++ ascii "-"
    ++ decimal tm.tmMin ++ ascii "-" ++ decimal tm.tmSec

/-- A date string exists for a time that `localtime` can break down, and is made from its
fields. -/
theorem evoIrloggerDatestring_eq_ok_iff {zone : TimeZone} {timePoint : Int} {text : Bytes} :
    evoIrloggerDatestring zone timePoint = .ok text ↔
      ∃ tm, localtime zone (toTimeT timePoint) = some tm ∧ datestring tm = text := by
  unfold evoIrloggerDatestring
  cases localtime zone (toTimeT timePoint) with
  | none => simp
  | some tm => simp [datestring]

/-- The default of `delay_if_at_end_of_second`. -/
def defaultDelay : Int := milliseconds 100

/-- `irlogger_log_path(irlogger_log_path_prefix, delay_if_at_end_of_second)` at the instant
`now`. The second reading of the clock is at the instant the wait returns. -/
def irloggerLogPath (zone : TimeZone) (pathPrefix : Bytes) (delayIfAtEndOfSecond : Int)
    (now : Int) : Except Exception Bytes :=
  match evoIrloggerDatestring zone (waitIfAtEndOfSecond delayIfAtEndOfSecond now) with
  | .error e => .error e
  | .ok datestring => .ok (pathPrefix ++ ascii "_" ++ datestring ++ ascii ".log")

/-- `irlogger_log_path(irlogger_log_path_prefix, ..)` when the second reading of the clock is
`now`. -/
def irloggerLogPathAt (zone : TimeZone) (pathPrefix : Bytes) (now : Int) :
    Except Exception Bytes :=
  match evoIrloggerDatestring zone now with
  | .error e => .error e
  | .ok datestring => .ok (pathPrefix ++ ascii "_" ++ datestring ++ ascii ".log")

/-- The path is made from the instant at which the wait ends. -/
theorem irloggerLogPath_eq_at (zone : TimeZone) (pathPrefix : Bytes) (period now : Int) :
    irloggerLogPath zone pathPrefix period now
      = irloggerLogPathAt zone pathPrefix (waitIfAtEndOfSecond period now) := rfl

/-- A path exists when the date string does. -/
theorem irloggerLogPathAt_eq_ok_iff {zone : TimeZone} {pathPrefix : Bytes} {now : Int}
    {path : Bytes} :
    irloggerLogPathAt zone pathPrefix now = .ok path ↔
      ∃ text, evoIrloggerDatestring zone now = .ok text ∧
        pathPrefix ++ ascii "_" ++ text ++ ascii ".log" = path := by
  unfold irloggerLogPathAt
  cases evoIrloggerDatestring zone now with
  | error e => simp
  | ok text => simp

/-- The test of the source: `2023-09-18T21:27:53`. -/
example : evoIrloggerDatestring .utc (seconds 1695072473) = .ok (ascii "18_9_2023_21-27-53") := by
  decide +kernel

end Chrono
end NqmIrimager
