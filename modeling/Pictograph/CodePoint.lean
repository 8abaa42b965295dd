import Pictograph.Decimal.Reading
import Pictograph.Value.Display

/-!
Code points that steer how an emoji is built, UTF-16 pairs, and keys: the hexadecimal code points
of a text between dashes. Splitting into pairs and joining them are inverse on scalar values, so a
key does not depend on the way a text was decoded.
-/

namespace Pictograph

def zwj : Char := '\u200d'

/-- Asks for the plain picture of the character before it. -/
def vs15 : Char := '\ufe0e'

/-- Asks for the coloured picture of the character before it. -/
def vs16 : Char := '\ufe0f'

def keycap : Char := '\u20e3'

def man : Char := '👨'
def woman : Char := '👩'
def person : Char := '🧑'
def femaleSign : Char := '♀'
def maleSign : Char := '♂'

def skinTones : List Char := ['🏻', '🏼', '🏽', '🏾', '🏿']

namespace Text

def isHigh (c : Nat) : Bool := 0xD800 ≤ c && c ≤ 0xDBFF

def isLow (c : Nat) : Bool := 0xDC00 ≤ c && c ≤ 0xDFFF

def units (c : Nat) : Text :=
  if c < 0x10000 then [c]
  else [0xD800 + (c - 0x10000) / 0x400, 0xDC00 + (c - 0x10000) % 0x400]

def pair (high low : Nat) : Nat := 0x10000 + (high - 0xD800) * 0x400 + (low - 0xDC00)

def splitPairs (t : Text) : Text := t.flatMap units

def joinPairs : Text → Text
  | [] => []
  | [c] => [c]
  | c :: d :: rest =>
    if isHigh c && isLow d then pair c d :: joinPairs rest else c :: joinPairs (d :: rest)

/-- The hexadecimal code points of a text, pairs joined, with a separator between each two. -/
def codePoints (sep t : Text) : Text := join sep ((joinPairs t).map hex)

def ofChars (cs : List Char) : Text := cs.map Char.toNat

theorem units_of_lt {c : Nat} (small : c < 0x10000) : units c = [c] := if_pos small

theorem pair_units {c : Nat} (low : 0x10000 ≤ c) :
    pair (0xD800 + (c - 0x10000) / 0x400) (0xDC00 + (c - 0x10000) % 0x400) = c := by
  unfold pair
  omega

theorem units_pair {h l : Nat} (hh : isHigh h = true) (hl : isLow l = true) :
    units (pair h l) = [h, l] := by
  simp only [isHigh, isLow, Bool.and_eq_true, decide_eq_true_eq] at hh hl
  have beyond : ¬ pair h l < 0x10000 := by unfold pair; omega
  have high : 0xD800 + (pair h l - 0x10000) / 0x400 = h := by unfold pair; omega
  have low : 0xDC00 + (pair h l - 0x10000) % 0x400 = l := by unfold pair; omega
  rw [units, if_neg beyond, high, low]

end Text

theorem toNat_range (c : Char) : c.toNat < 0xD800 ∨ 0xDFFF < c.toNat ∧ c.toNat ≤ 0x10FFFF := by
  have valid : c.toNat.isValidChar := c.valid
  simp only [Nat.isValidChar] at valid
  omega

def character (n : Int) : Except Fault Nat :=
  if n < -0x80000000 ∨ 0x7FFFFFFF < n then .error .beyondWord
  else if n < 0 ∨ 0x10FFFF < n then .error .noCharacter
  else .ok n.toNat

/-- The complaint of a value that is no code point, or that it cannot be written. -/
def rangeFault (shown : Value) : Fault :=
  match shown.write Value.literal with
  | .ok t => .outOfRange t
  | .error f => f

/-- The scalar value with a number; `shown` is what was given for it. -/
def scalar (shown : Value) (n : Int) : Except Fault Char :=
  if n < 0 ∨ 0x10FFFF < n then .error (rangeFault shown)
  else if 0xD800 ≤ n ∧ n ≤ 0xDFFF then .error (.surrogate n.toNat)
  else .ok (Char.ofNat n.toNat)

def Value.toScalar (v : Value) : Except Fault Char := do scalar v (← v.toInt)

def scalars (numbers : List Int) : Except Fault (List Char) :=
  numbers.mapM fun n => scalar (.int n) n

def Value.toCharacter (v : Value) : Except Fault Char := do
  let n ← match v with
    | .text t => Decimal.readInt 16 t
    | v => v.toInt
  scalar (.int n) n

def Value.toUnits (values : List Value) : Except Fault Text := do
  return Text.splitPairs (Text.ofChars (← values.mapM Value.toScalar))

theorem scalar_toNat (shown : Value) (c : Char) : scalar shown c.toNat = .ok c := by
  have range := toNat_range c
  unfold scalar
  rw [if_neg (by omega), if_neg (by omega)]
  simp

theorem number_injective {c d : Char} (same : (c.toNat : Int) = d.toNat) : c = d :=
  Char.toNat_inj.1 (Int.ofNat.inj same)

theorem scalars_ofChars (cs : List Char) :
    scalars (cs.map fun c => (c.toNat : Int)) = .ok cs := by
  induction cs with
  | nil => rfl
  | cons c rest ih =>
    simp only [scalars] at ih
    simp [scalars, scalar_toNat, ih, List.mapM_cons, bind, Except.bind, pure, Except.pure]

end Pictograph
