import NqmIrimager.Chrono
import NqmIrimager.Lib.Decimal

/-!
# `NqmIrimager.Proofs.DateStrings`: the fields of a time, read off its date string

`evo_irlogger_datestring` writes six numbers without padding. The separators are `_` and
`-`, and `-` is the sign of a negative number too. But no number contains a `_`, so a split
there leaves day, month and year whole, with their signs. Hour, minute and second have no
sign, so every `-` of the last part separates.

`decodeDatestring` reads the fields in this order, and `decode_datestring` is the round
trip. The name of the FIFO therefore determines the local time it was made at.
-/

set_option autoImplicit false

namespace NqmIrimager
namespace Chrono

open Decimal

/-! ### Text and bytes -/

/-- The characters of an ASCII text. -/
def chars (s : Bytes) : List Char := s.map fun b => Char.ofNat b.toNat

/-- The characters of a text in two parts. -/
@[simp] theorem chars_append (a b : Bytes) : chars (a ++ b) = chars a ++ chars b :=
  List.map_append

/-- Reading the bytes of an ASCII text gives the text. -/
theorem chars_ascii {s : String} (h : ∀ c ∈ s.toList, c.toNat < 256) :
    chars (ascii s) = s.toList := by
  unfold chars ascii
  rw [List.map_map]
  refine (List.map_congr_left fun c hc => ?_).trans (List.map_id _)
  simp only [Function.comp_apply, id_eq, UInt8.toNat_ofNat']
  rw [Nat.mod_eq_of_lt (h c hc), Char.ofNat_toNat]

/-- Numbers are ASCII. -/
theorem chars_decimal (n : Int) : chars (decimal n) = (toString n).toList := by
  refine chars_ascii fun c hc => ?_
  rcases isDigit_or_sign_of_mem hc with hdigit | rfl
  · have hle := (Char.isDigit_iff_toNat.mp hdigit).2
    exact Nat.lt_of_le_of_lt hle (by decide)
  · decide

/-! ### Separators -/

/-- A number has no underscore, so that one ends it. -/
theorem underscore_notMem (n : Int) : '_' ∉ (toString n).toList := by
  intro hmem
  rcases isDigit_or_sign_of_mem hmem with hdigit | hsign
  · exact absurd hdigit (by decide)
  · exact absurd hsign (by decide)

/-- A number that is not negative has no hyphen. -/
theorem hyphen_notMem {n : Int} (h : 0 ≤ n) : '-' ∉ (toString n).toList :=
  fun hmem => absurd (isDigit_of_mem h hmem) (by decide)

/-- The time of day, without the date. -/
def clockText (tm : Tm) : List Char :=
  (toString tm.tmHour).toList ++ '-' :: ((toString tm.tmMin).toList
    ++ '-' :: (toString tm.tmSec).toList)

/-- The date string is three numbers that end with an underscore, and the time of day. -/
theorem chars_datestring (tm : Tm) :
    chars (datestring tm) = (toString tm.tmMday).toList
      ++ '_' :: ((toString (tm.tmMon + 1)).toList
      ++ '_' :: ((toString (tm.tmYear + 1900)).toList ++ '_' :: clockText tm)) := by
  have hunderscore : chars (ascii "_") = ['_'] := by decide
  have hhyphen : chars (ascii "-") = ['-'] := by decide
  simp only [datestring, clockText, chars_append, chars_decimal, hunderscore, hhyphen,
    List.append_assoc, List.singleton_append]

/-- The fields that the C library keeps from being negative. -/
structure Tm.ClockNonneg (tm : Tm) : Prop where
  hour : 0 ≤ tm.tmHour
  min : 0 ≤ tm.tmMin
  sec : 0 ≤ tm.tmSec

/-- The time of day has no underscore. -/
theorem underscore_notMem_clockText (tm : Tm) : '_' ∉ clockText tm := by
  simp only [clockText, List.mem_append, List.mem_cons]
  rintro (hhour | hhyphen | hmin | hhyphen | hsec)
  · exact underscore_notMem _ hhour
  · exact absurd hhyphen (by decide)
  · exact underscore_notMem _ hmin
  · exact absurd hhyphen (by decide)
  · exact underscore_notMem _ hsec

/-- Split at `_`, the string falls into the date's numbers and the time of day. -/
theorem splitOn_datestring (tm : Tm) :
    (chars (datestring tm)).splitOn '_' =
      [(toString tm.tmMday).toList, (toString (tm.tmMon + 1)).toList,
        (toString (tm.tmYear + 1900)).toList, clockText tm] := by
  rw [chars_datestring,
    List.splitOn_append_cons_self_of_not_mem (underscore_notMem _),
    List.splitOn_append_cons_self_of_not_mem (underscore_notMem _),
    List.splitOn_append_cons_self_of_not_mem (underscore_notMem _),
    List.splitOn_eq_singleton (underscore_notMem_clockText tm)]

/-- Split at `-`, the time of day falls into its numbers. -/
theorem splitOn_clockText {tm : Tm} (h : tm.ClockNonneg) :
    (clockText tm).splitOn '-' =
      [(toString tm.tmHour).toList, (toString tm.tmMin).toList, (toString tm.tmSec).toList] := by
  unfold clockText
  rw [List.splitOn_append_cons_self_of_not_mem (hyphen_notMem h.hour),
    List.splitOn_append_cons_self_of_not_mem (hyphen_notMem h.min),
    List.splitOn_eq_singleton (hyphen_notMem h.sec)]

/-! ### The decoder -/

/-- The time that a date string was written for. -/
def decodeDatestring (s : Bytes) : Option Tm :=
  match (chars s).splitOn '_' with
  | [day, month, year, clock] =>
      match clock.splitOn '-' with
      | [hour, min, sec] => do
          let day ← readInt day
          let month ← readInt month
          let year ← readInt year
          let hour ← readInt hour
          let min ← readInt min
          let sec ← readInt sec
          some
            { tmSec := sec
              tmMin := min
              tmHour := hour
              tmMday := day
              tmMon := month - 1
              tmYear := year - 1900 }
      | _ => none
  | _ => none

/-- Decoding takes back what `datestring` made of a time of day that is not negative. -/
theorem decode_datestring {tm : Tm} (h : tm.ClockNonneg) :
    decodeDatestring (datestring tm) = some tm := by
  unfold decodeDatestring
  rw [splitOn_datestring]
  simp only [splitOn_clockText h, readInt_toString, Option.bind_eq_bind, Option.bind_some]
  congr 2
  · omega
  · omega

/-! ### The name of the FIFO -/

/-- So equal date strings are made of equal fields. -/
theorem datestring_inj {tm tm' : Tm} (h : tm.ClockNonneg) (h' : tm'.ClockNonneg)
    (heq : datestring tm = datestring tm') : tm = tm' := by
  have hdecode := decode_datestring h
  rw [heq, decode_datestring h'] at hdecode
  exact (Option.some.inj hdecode).symm

/-- Prefix and extension are the same in all names, so the names differ in their date
strings. -/
theorem fileName_inj {pathPrefix : Bytes} {tm tm' : Tm} (h : tm.ClockNonneg)
    (h' : tm'.ClockNonneg)
    (hname : pathPrefix ++ ascii "_" ++ datestring tm ++ ascii ".log"
      = pathPrefix ++ ascii "_" ++ datestring tm' ++ ascii ".log") : tm = tm' :=
  datestring_inj h h' (List.append_cancel_left (List.append_cancel_right hname))

/-- `localtime` counts its hours, minutes and seconds from the start of a day. -/
theorem localtime_clockNonneg {zone : TimeZone} {t : Int} {tm : Tm}
    (h : localtime zone t = some tm) : tm.ClockNonneg := by
  unfold localtime at h
  rcases civilFromDays ((t + zone.offset t) / 86400) with ⟨year, month, day⟩
  simp only at h
  split at h
  · rw [← Option.some.inj h]
    exact ⟨by simp only; omega, by simp only; omega, by simp only; omega⟩
  · cases h

/-- The path of an instant is the name made from its local time. -/
theorem localtime_of_path {zone : TimeZone} {pathPrefix : Bytes} {now : Int} {path : Bytes}
    (h : irloggerLogPathAt zone pathPrefix now = .ok path) :
    ∃ tm, localtime zone (toTimeT now) = some tm ∧ tm.ClockNonneg ∧
      pathPrefix ++ ascii "_" ++ datestring tm ++ ascii ".log" = path := by
  obtain ⟨text, htext, hpath⟩ := irloggerLogPathAt_eq_ok_iff.mp h
  obtain ⟨tm, htm, rfl⟩ := evoIrloggerDatestring_eq_ok_iff.mp htext
  exact ⟨tm, htm, localtime_clockNonneg htm, hpath⟩

/-- The date string determines all six fields, and so does the name of the FIFO: two
instants with one name, in whatever time zones, have one local time. -/
theorem datestring_determines_fields (pathPrefix : Bytes) :
    (∀ tm : Tm, tm.ClockNonneg → decodeDatestring (datestring tm) = some tm) ∧
      (∀ tm tm' : Tm, tm.ClockNonneg → tm'.ClockNonneg →
        pathPrefix ++ ascii "_" ++ datestring tm ++ ascii ".log"
          = pathPrefix ++ ascii "_" ++ datestring tm' ++ ascii ".log" → tm = tm') ∧
      ∀ (zone zone' : TimeZone) (now now' : Int) (path : Bytes),
        irloggerLogPathAt zone pathPrefix now = .ok path →
        irloggerLogPathAt zone' pathPrefix now' = .ok path →
        ∃ tm, localtime zone (toTimeT now) = some tm ∧
          localtime zone' (toTimeT now') = some tm := by
  refine ⟨fun tm h => decode_datestring h, fun tm tm' h h' hname => fileName_inj h h' hname, ?_⟩
  intro zone zone' now now' path hpath hpath'
  obtain ⟨tm, htm, hclock, hname⟩ := localtime_of_path hpath
  obtain ⟨tm', htm', hclock', hname'⟩ := localtime_of_path hpath'
  obtain rfl := fileName_inj hclock hclock' (hname.trans hname'.symm)
  exact ⟨tm, htm, htm'⟩

/-- The Ides of March, two instants of one second, and the time they show. -/
theorem datestring_determines_fields_ides :
    (datestring ⟨9, 0, 0, 15, 2, -1944⟩ = ascii "15_3_-44_0-0-9" ∧
      decodeDatestring (datestring ⟨9, 0, 0, 15, 2, -1944⟩) = some ⟨9, 0, 0, 15, 2, -1944⟩) ∧
    ∃ tm, localtime .utc (toTimeT (milliseconds 1695072473100)) = some tm ∧
      localtime .utc (toTimeT (milliseconds 1695072473900)) = some tm :=
  have hfields := datestring_determines_fields (ascii "irlogger.fifo")
  ⟨⟨by decide +kernel, hfields.1 _ ⟨by decide, by decide, by decide⟩⟩,
    hfields.2.2 .utc .utc _ _ (ascii "irlogger.fifo_18_9_2023_21-27-53.log")
      (by decide +kernel) (by decide +kernel)⟩

end Chrono
end NqmIrimager
