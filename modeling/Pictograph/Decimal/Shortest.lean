import Pictograph.Decimal.Exact
import Pictograph.Text.Basic

/-!
The shortest decimal text of a floating-point number. The reals that round to the number form an
interval; the text shows the point of that interval on the coarsest decimal grid that has one, the
nearest if there are two.
-/

namespace Pictograph.Decimal

/-- Digits without trailing zeros and the place of the point after the first digit. -/
structure Digits where
  digits : Text
  /-- How many digits stand before the point; negative if zeros follow it. -/
  point : Int

/-- The interval of reals that round to `mantissa * 2 ^ exponent`, in quarters of a unit. -/
structure Window where
  low : Ratio
  high : Ratio
  closed : Bool

namespace Window

/-- Below a power of two the neighbours lie half as far apart. -/
def around (mantissa : Nat) (exponent : Int) : Window where
  low :=
    .scaled
      (if mantissa = Exact.fullMantissa ∧ exponent ≠ -1074 then 4 * mantissa - 1
        else 4 * mantissa - 2)
      (exponent - 2)
  high := .scaled (4 * mantissa + 2) (exponent - 2)
  closed := mantissa % 2 == 0

def has (w : Window) (k : Int) (n : Nat) : Bool :=
  let low := w.low.overTen k
  let high := w.high.overTen k
  if w.closed then low.num ≤ n * low.den && n * high.den ≤ high.num
  else low.num < n * low.den && n * high.den < high.num

/-- The point of a grid inside the interval; of two the nearer one. -/
def pick? (w : Window) (value : Ratio) (k : Int) : Option Nat :=
  let onGrid := value.overTen k
  let below := onGrid.floor
  match w.has k below, w.has k (below + 1) with
  | true, true => some onGrid.round
  | true, false => some below
  | false, true => some (below + 1)
  | false, false => none

end Window

def dropZeros (digits : Text) : Text :=
  (digits.reverse.dropWhile (· == 0x30)).reverse

def shortest (mantissa : Nat) (exponent : Int) : Digits :=
  let value := Ratio.scaled mantissa exponent
  let top := value.leading
  let window := Window.around mantissa exponent
  let found := (List.range 17).findSome? fun (n : Nat) =>
    (window.pick? value (top - n)).map fun d => (d, top - n)
  let (d, k) := found.getD ((value.overTen (top - 16)).round, top - 16)
  let digits := Text.decimal d
  ⟨dropZeros digits, digits.length + k⟩

structure Layout where
  /-- The least place of the point for a positional text. -/
  least : Int
  /-- The greatest place of the point for a positional text. -/
  most : Int
  /-- The least number of digits of an exponent. -/
  exponentWidth : Nat

def Layout.exponent (layout : Layout) (e : Int) : Text :=
  codes (if e < 0 then "e-" else "e+") ++ Text.padZeros layout.exponentWidth (Text.decimal e.natAbs)

/-- A positional text always has a point; one with an exponent only between digits. -/
def Layout.render (layout : Layout) (d : Digits) : Text :=
  if layout.least ≤ d.point ∧ d.point ≤ layout.most then
    if d.point ≤ 0 then codes "0." ++ List.replicate (-d.point).toNat 0x30 ++ d.digits
    else
      let whole := d.point.toNat
      if d.digits.length ≤ whole then
        d.digits ++ List.replicate (whole - d.digits.length) 0x30 ++ codes ".0"
      else d.digits.take whole ++ codes "." ++ d.digits.drop whole
  else
    match d.digits with
    | [] => []
    | [c] => c :: layout.exponent (d.point - 1)
    | c :: rest => c :: (codes "." ++ rest ++ layout.exponent (d.point - 1))

/-- Numbers from a ten-thousandth to below ten quadrillions are written in full. -/
def plainLayout : Layout := ⟨-3, 16, 2⟩

/-- The shortest text that reads back as the number. -/
def text (x : Float) : Text :=
  match Exact.ofFloat x with
  | .nan => codes "nan"
  | .infinite negative => codes (if negative then "-inf" else "inf")
  | .finite negative 0 _ => codes (if negative then "-0.0" else "0.0")
  | .finite negative mantissa exponent =>
    codes (if negative then "-" else "") ++ plainLayout.render (shortest mantissa exponent)

end Pictograph.Decimal
