/-!
Texts are lists of code values: Unicode scalar values and, where a text was cut between the two
units of a pair, lone surrogates. Numbers are written in them without leading zeros.
-/

namespace Pictograph

abbrev Text := List Nat

def codes (s : String) : Text := s.toList.map Char.toNat

namespace Text

def isSurrogate (c : Nat) : Bool := 0xD800 ≤ c && c ≤ 0xDFFF

def hex (n : Nat) : Text := (Nat.toDigits 16 n).map Char.toNat

def decimal (n : Nat) : Text := (Nat.toDigits 10 n).map Char.toNat

/-- A number in decimal digits after its sign; only a negative one has a sign. -/
def ofInt (n : Int) : Text :=
  if n < 0 then codes "-" ++ decimal n.natAbs else decimal n.natAbs

def markedHex (n : Int) : Text :=
  if n < 0 then codes "-0x" ++ hex n.natAbs else codes "0x" ++ hex n.natAbs

def padZeros (width : Nat) (digits : Text) : Text :=
  List.replicate (width - digits.length) 0x30 ++ digits

/-- The parts between the occurrences of a code value; there is at least one. -/
def split (sep : Nat) : Text → List Text
  | [] => [[]]
  | c :: rest =>
    if c = sep then [] :: split sep rest
    else match split sep rest with
      | [] => [[c]]
      | part :: parts => (c :: part) :: parts

def fields (sep : Nat) (t : Text) : List Text := (split sep t).filter (!·.isEmpty)

def join (sep : Text) (parts : List Text) : Text := sep.intercalate parts

def Inline (t : Text) : Prop := ∀ c ∈ t, 0x20 ≤ c

instance : DecidablePred Inline := fun t => inferInstanceAs (Decidable (∀ c ∈ t, 0x20 ≤ c))

end Text

end Pictograph
