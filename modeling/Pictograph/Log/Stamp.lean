import Pictograph.Decimal.Reading
import Pictograph.Log.Fault

/-!
Time stamps: seconds since the start of 1970 as a date and a time of day in universal time, with
microseconds if there are any.
-/

namespace Pictograph.Log

structure Date where
  year : Int
  month : Nat
  day : Nat
  deriving DecidableEq, Repr

namespace Date

/-- The date a number of days after the first of January 1970. Years are counted from March, so that
the leap day is the last of its year. -/
def ofDays (days : Int) : Date :=
  let shifted := days + 719468
  let era := shifted.fdiv 146097
  let dayOfEra := (shifted.fmod 146097).toNat
  let yearOfEra := (dayOfEra - dayOfEra / 1460 + dayOfEra / 36524 - dayOfEra / 146096) / 365
  let dayOfYear := dayOfEra - (365 * yearOfEra + yearOfEra / 4 - yearOfEra / 100)
  let fromMarch := (5 * dayOfYear + 2) / 153
  let month := if fromMarch < 10 then fromMarch + 3 else fromMarch - 9
  ⟨yearOfEra + era * 400 + (if month ≤ 2 then 1 else 0), month,
    dayOfYear - (153 * fromMarch + 2) / 5 + 1⟩

example : ofDays 0 = ⟨1970, 1, 1⟩ := by decide
example : ofDays 11016 = ⟨2000, 2, 29⟩ := by decide
example : ofDays (-719162) = ⟨1, 1, 1⟩ := by decide

end Date

structure Moment where
  seconds : Int
  micros : Nat
  deriving DecidableEq, Repr

namespace Moment

def clockLimit : Int := 0x7FFFFFFFFFFFFFFF

/-- The moment of a number of seconds, to the nearest microsecond. The limit of the clock itself is
no floating-point number: the nearest one, just above it, counts as within the range of seconds but
past every calendar. -/
def ofFloat (x : Float) : Except Fault Moment :=
  match (Value.float x).toInt with
  | .error f => .error (if f = .notANumber then .noMoment else .timeRange)
  | .ok whole =>
    if whole = clockLimit + 1 then .error .clockRange else
    let part := if x < 0.0 then x - x.ceil else x - x.floor
    match Decimal.Exact.ofFloat (part * 1000000.0) with
    | .finite negative mantissa exponent =>
      let micros := (Decimal.Ratio.scaled mantissa exponent).round
      if negative ∧ micros ≠ 0 then .ok ⟨whole - 1, 1000000 - micros⟩
      else if micros = 1000000 then .ok ⟨whole + 1, 0⟩
      else .ok ⟨whole, micros⟩
    | _ => .error .timeRange

def ofValue : Value → Except Fault Moment
  | .float x => ofFloat x
  | v =>
    match v.toWhole with
    | .ok n => .ok ⟨n, 0⟩
    | .error f => .error (.number f)

def two (n : Nat) : Text := Text.padZeros 2 (Text.decimal n)

/-- The moment as date and time; the calendar has the years from 1 to 9999. -/
def text (m : Moment) : Except Fault Text :=
  if m.seconds < -clockLimit - 1 ∨ clockLimit < m.seconds then .error .timeRange
  else
    let date := Date.ofDays (m.seconds.fdiv 86400)
    let time := (m.seconds.fmod 86400).toNat
    if date.year - 1900 < -0x80000000 ∨ 0x7FFFFFFF < date.year - 1900 then .error .clockRange
    else if date.year < 1 ∨ 9999 < date.year then .error (.yearRange (date.year.bmod 0x100000000))
    else
      .ok (Text.padZeros 4 (Text.decimal date.year.toNat) ++ codes "-" ++ two date.month ++
        codes "-" ++ two date.day ++ codes "T" ++ two (time / 3600) ++ codes ":" ++
        two (time / 60 % 60) ++ codes ":" ++ two (time % 60) ++
        (if m.micros = 0 then [] else codes "." ++ Text.padZeros 6 (Text.decimal m.micros)) ++
        codes "Z")

end Moment

end Pictograph.Log
