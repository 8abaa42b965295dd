import Pictograph.CodePoint
import Pictograph.Flavor
import Pictograph.Pattern.Basic

/-!
The source text of a pattern. It is plain ASCII: letters and digits stand for themselves and every
other code value is an escape of two, four or eight hexadecimal digits, or of a pair of them where
text is made of UTF-16 units.
-/

namespace Pictograph

abbrev Source := List Char

namespace Source

def hexPadded (width n : Nat) : Source :=
  let digits := Nat.toDigits 16 n
  List.replicate (width - digits.length) '0' ++ digits

def escape (mark : Char) (width n : Nat) : Source := '\\' :: mark :: hexPadded width n

def literal (flavor : Flavor) (c : Nat) : Source :=
  if c < 0x80 && (Char.ofNat c).isAlphanum then [Char.ofNat c]
  else if c < 0x100 then escape 'x' 2 c
  else if c < 0x10000 then escape 'u' 4 c
  else if flavor = .utf16 then (Text.units c).flatMap (escape 'u' 4)
  else escape 'U' 8 c

end Source

def ClassItem.source (flavor : Flavor) : ClassItem → Source
  | one c => Source.literal flavor c
  | range first last => Source.literal flavor first ++ '-' :: Source.literal flavor last

namespace Pattern

def source (flavor : Flavor) : Pattern → Source
  | empty => []
  | symbol c => Source.literal flavor c
  | oneOf items => '[' :: items.flatMap (·.source flavor) ++ [']']
  | seq p q => p.source flavor ++ q.source flavor
  | alt p q => p.source flavor ++ '|' :: q.source flavor
  | group p => '(' :: '?' :: ':' :: p.source flavor ++ [')']
  | opt p => p.source flavor ++ ['?']
  | notAhead p => '(' :: '?' :: '!' :: p.source flavor ++ [')']

/-- The code value that stands for a number in a pattern. A negative number has none, and neither
has one that would need a pair of units but is no scalar value. -/
def codeOf (flavor : Flavor) (n : Int) : Except Fault Nat :=
  if n < 0 then character n
  else if flavor = .utf16 ∧ 0x10000 ≤ n then (scalar (.int n) n).map Char.toNat
  else .ok n.toNat

end Pattern

end Pictograph
