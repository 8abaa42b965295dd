import Pictograph.Fault
import Pictograph.Decimal.Exact
import Pictograph.Text.Range
import Pictograph.Value.Basic

/-!
Numbers read from text: whole ones in base ten or sixteen and decimal fractions. A digit may be of
any script, blanks may stand around the number, and an underscore between two digits is skipped.
-/

namespace Pictograph.Decimal

/-- Digits and wide blanks of every script in their ASCII forms. -/
def plainChar (c : Nat) : Nat :=
  match Text.digitValue? c with
  | some d => 0x30 + d
  | none => if 0x7F < c && Text.isBlank c then 0x20 else c

def isPadding (c : Nat) : Bool := c == 0x20 || (0x09 ≤ c && c ≤ 0x0D)

def plain (t : Text) : Text :=
  (((t.map plainChar).dropWhile isPadding).reverse.dropWhile isPadding).reverse

def digit? (base c : Nat) : Option Nat :=
  let d :=
    if 0x30 ≤ c && c ≤ 0x39 then c - 0x30
    else if 0x61 ≤ c && c ≤ 0x7A then c - 0x61 + 10
    else if 0x41 ≤ c && c ≤ 0x5A then c - 0x41 + 10
    else base
  if d < base then some d else none

/-- At least one digit, with at most one underscore between two of them. -/
def digits? (base : Nat) : Text → Option (List Nat)
  | [] => none
  | [c] => (digit? base c).map ([·])
  | c :: 0x5F :: rest => do
    let d ← digit? base c
    let ds ← digits? base rest
    return d :: ds
  | c :: rest => do
    let d ← digit? base c
    let ds ← digits? base rest
    return d :: ds

def ofDigits (base : Nat) (digits : List Nat) : Nat := digits.foldl (fun n d => n * base + d) 0

def takeSign : Text → Bool × Text
  | 0x2D :: rest => (true, rest)
  | 0x2B :: rest => (false, rest)
  | t => (false, t)

def dropMark : Text → Text
  | 0x30 :: 0x78 :: 0x5F :: rest | 0x30 :: 0x58 :: 0x5F :: rest => rest
  | 0x30 :: 0x78 :: rest | 0x30 :: 0x58 :: rest => rest
  | t => t

def run (base : Nat) (t : Text) : Text :=
  t.takeWhile fun c => c == 0x5F || (digit? base c).isSome

/-- A whole number in base ten or sixteen. A decimal one with too many digits is refused for them,
whatever follows them. -/
def readInt (base : Nat) (t : Text) : Except Fault Int :=
  let (negative, marked) := takeSign (plain t)
  let body := if base = 16 then dropMark marked else marked
  let front := run base body
  match digits? base front with
  | none => .error (.badNumeral base t)
  | some digits =>
    if base = 10 ∧ digitLimit < digits.length then .error (.longNumeral digits.length)
    else if front.length < body.length then .error (.badNumeral base t)
    else
      let n := ofDigits base digits
      .ok (if negative then -n else n)

/-- The number `mantissa * 10 ^ exponent`. Beyond the largest number lies infinity, and far below
the smallest one zero. -/
def toFloat (mantissa : Nat) (exponent : Int) : Float :=
  let size : Int := (Nat.toDigits 10 mantissa).length + exponent
  if mantissa = 0 then 0.0
  else if 320 < size then 1.0 / 0.0
  else if size < -400 then 0.0
  else Float.ofScientific mantissa (exponent < 0) exponent.natAbs

def underscoresFit : Text → Bool
  | [] => true
  | [c] => c != 0x5F
  | c :: 0x5F :: d :: rest =>
    (digit? 10 c).isSome && (digit? 10 d).isSome && underscoresFit (d :: rest)
  | c :: rest => c != 0x5F && underscoresFit rest

/-- Digits, which may be missing if the other part of the number has some. -/
def spanDigits (t : Text) : List Nat × Text :=
  ((t.takeWhile fun c => (digit? 10 c).isSome).map (· - 0x30),
    t.dropWhile fun c => (digit? 10 c).isSome)

def readFraction (t : Text) : Option Float := do
  let (whole, rest) := spanDigits t
  let (places, rest) :=
    match rest with
    | 0x2E :: rest => spanDigits rest
    | _ => ([], rest)
  if whole.isEmpty && places.isEmpty then none
  let mantissa := ofDigits 10 (whole ++ places)
  match rest with
  | [] => some (toFloat mantissa (-(places.length : Int)))
  | c :: rest =>
    if c != 0x65 && c != 0x45 then none
    let (negative, rest) := takeSign rest
    let (power, rest) := spanDigits rest
    if power.isEmpty || !rest.isEmpty then none
    let e : Int := ofDigits 10 power
    some (toFloat mantissa ((if negative then -e else e) - places.length))

def smallAscii (t : Text) : Text := t.map fun c => if 0x41 ≤ c && c ≤ 0x5A then c + 0x20 else c

def readFloat (t : Text) : Option Float := do
  let (negative, body) := takeSign (plain t)
  let size ←
    if smallAscii body = codes "inf" ∨ smallAscii body = codes "infinity" then some (1.0 / 0.0)
    else if smallAscii body = codes "nan" then some (0.0 / 0.0)
    else if underscoresFit body then readFraction (body.filter (· != 0x5F))
    else none
  return if negative then -size else size

def ofInt? (n : Int) : Option Float :=
  let size := toFloat n.natAbs 0
  if size.isFinite then some (if n < 0 then -size else size) else none

end Decimal

namespace Value

/-- The whole number that a value stands for; a fraction loses its places. -/
def toInt : Value → Except Fault Int
  | int n => .ok n
  | bool b => .ok (if b then 1 else 0)
  | float x =>
    match Decimal.Exact.ofFloat x with
    | .nan => .error .notANumber
    | .infinite _ => .error .endless
    | .finite negative mantissa exponent =>
      let size := (Decimal.Ratio.scaled mantissa exponent).floor
      .ok (if negative then -size else size)
  | text t => Decimal.readInt 10 t
  | v => .error (.notNumeric v.typeName)

def toWhole : Value → Except Fault Int
  | int n => .ok n
  | bool b => .ok (if b then 1 else 0)
  | v => .error (.notWhole v.typeName)

def toFloat? : Value → Option Float
  | int n => Decimal.ofInt? n
  | bool b => some (if b then 1.0 else 0.0)
  | float x => some x
  | text t => Decimal.readFloat t
  | _ => none

end Value

end Pictograph
