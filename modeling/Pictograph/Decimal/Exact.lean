/-!
Floating-point numbers as exact fractions. A finite one is a whole number times a power of two, so
every question about its digits is a question about natural numbers.
-/

namespace Pictograph.Decimal

inductive Exact where
  | nan
  | infinite (negative : Bool)
  /-- The number `mantissa * 2 ^ exponent`, or its negative. -/
  | finite (negative : Bool) (mantissa : Nat) (exponent : Int)
  deriving DecidableEq, Repr

namespace Exact

def fullMantissa : Nat := 0x10000000000000

def ofBits (bits : Nat) : Exact :=
  let fraction := bits % fullMantissa
  let scale := bits / fullMantissa % 0x800
  let negative := bits / fullMantissa / 0x800 == 1
  if scale = 0x7FF then
    if fraction = 0 then .infinite negative else .nan
  else if scale = 0 then .finite negative fraction (-1074)
  else .finite negative (fullMantissa + fraction) ((scale : Int) - 1075)

def ofFloat (x : Float) : Exact := ofBits x.toBits.toNat

end Exact

structure Ratio where
  num : Nat
  den : Nat

namespace Ratio

def scaled (n : Nat) (e : Int) : Ratio := ⟨n * Nat.pow 2 e.toNat, Nat.pow 2 (-e).toNat⟩

def overTen (r : Ratio) (k : Int) : Ratio :=
  ⟨r.num * Nat.pow 10 (-k).toNat, r.den * Nat.pow 10 k.toNat⟩

def floor (r : Ratio) : Nat := r.num / r.den

/-- How many places a number over a power of two has at most: as many as the power has factors. -/
def placeCount (r : Ratio) : Nat := Nat.log2 r.den

/-- The nearest whole number; a tie goes to the even one. -/
def round (r : Ratio) : Nat :=
  let low := r.num / r.den
  let twice := 2 * (r.num % r.den)
  if twice < r.den then low
  else if r.den < twice then low + 1
  else low + low % 2

def leading (r : Ratio) : Int :=
  if r.den ≤ r.num then (Nat.toDigits 10 r.floor).length - 1
  else
    let up := (Nat.toDigits 10 (r.den / r.num)).length
    if r.den ≤ r.num * Nat.pow 10 (up - 1) then 1 - (up : Int) else -(up : Int)

theorem floor_le_round (r : Ratio) : r.floor ≤ r.round := by
  simp only [floor, round]
  split
  · exact Nat.le_refl _
  · split <;> omega

end Ratio

/-- Is a number at least the whole number `n`? Nothing is rounded, and what is no number is not. -/
def Exact.atLeast (x : Exact) (n : Int) : Bool :=
  match x with
  | .nan => false
  | .infinite negative => !negative
  | .finite negative mantissa exponent =>
    let size := Ratio.scaled mantissa exponent
    n * size.den ≤ if negative then -(size.num : Int) else size.num

example : (Exact.finite false 3 (-1)).atLeast 1 = true := by decide
example : (Exact.finite false 3 (-1)).atLeast 2 = false := by decide
example : (Exact.finite true 3 (-1)).atLeast (-2) = true := by decide
example : (Exact.finite true 3 (-1)).atLeast (-1) = false := by decide

end Pictograph.Decimal
