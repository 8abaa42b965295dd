import Pictograph.Decimal.Shortest

/-!
Decimal texts with a given number of places or of significant digits. The last digit is the nearest
one, and a tie goes to the even one.
-/

namespace Pictograph.Decimal

structure Places where
  whole : Text
  fraction : Text

def fillZeros (width : Nat) (digits : Text) : Text :=
  digits ++ List.replicate (width - digits.length) 0x30

def places (r : Ratio) (n : Nat) : Places :=
  let used := min n r.placeCount
  let digits := Text.padZeros (used + 1) (Text.decimal (r.overTen (-(used : Int))).round)
  ⟨digits.take (digits.length - used), fillZeros n (digits.drop (digits.length - used))⟩

/-- The first `n` digits of a number, less those beyond its last place, and the power of ten of the
first of them. -/
def leadingDigits (r : Ratio) (n : Nat) : Text × Int :=
  if r.num = 0 then (codes "0", 0)
  else
    let top := r.leading
    let used := min n (top + 1 + r.placeCount).toNat
    let d := (r.overTen (top - ((used : Int) - 1))).round
    if d = Nat.pow 10 used then (Text.decimal (d / 10), top + 1) else (Text.decimal d, top)

def significant (r : Ratio) (n : Nat) : Text × Int :=
  let (digits, e) := leadingDigits r n
  (fillZeros n digits, e)

/-- Digits around a point, which is left out if nothing follows it unless it is asked for. -/
def pointed (p : Places) (point : Bool) : Text :=
  if p.fraction.isEmpty && !point then p.whole else p.whole ++ codes "." ++ p.fraction

def fixedText (r : Ratio) (n : Nat) (point : Bool) : Text := pointed (places r n) point

def exponentText (digits : Text) (e : Int) (point : Bool) : Text :=
  pointed ⟨digits.take 1, digits.drop 1⟩ point ++ plainLayout.exponent e

def scientificText (r : Ratio) (n : Nat) (point : Bool) : Text :=
  let (digits, e) := significant r (n + 1)
  exponentText digits e point

/-- A number to at most `n` significant digits: without an exponent unless it is small or long, and
without zeros at the end unless a point is asked for. -/
def generalText (r : Ratio) (n : Nat) (point : Bool) : Text :=
  let n := max n 1
  let (digits, e) := if point then significant r n else leadingDigits r n
  let cut := fun (zeros : Text) => if point then zeros else dropZeros zeros
  if -4 ≤ e ∧ e < n then
    if 0 ≤ e then
      let size := e.toNat + 1
      pointed ⟨digits.take size, cut (digits.drop size)⟩ point
    else pointed ⟨codes "0", List.replicate ((-e).toNat - 1) 0x30 ++ cut digits⟩ point
  else exponentText (digits.take 1 ++ cut (digits.drop 1)) e point

end Pictograph.Decimal
