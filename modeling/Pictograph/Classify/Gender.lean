import Pictograph.Table.Entry

/-!
Gendered joined emoji. A man, a woman and a person may stand first, or a male and a female sign
last. One member of such a family stands for all of it, by what is left without the gender; that is
sound only if the table has every member, so the others are looked for.
-/

namespace Pictograph

/-- Where the gender of a family stands. -/
inductive Axis where
  | leading
  | trailingWithVariant
  | trailing
  deriving DecidableEq, Repr

def Axis.name : Axis → Text
  | leading => codes "leading-gender"
  | trailingWithVariant => codes "trailing-gender-with-variant"
  | trailing => codes "trailing-gender-without-variant"

structure Shape where
  /-- The other members that the table must have. -/
  complements : List (List Char)
  /-- For the member that stands for the family: the axis and what is left without the gender. -/
  residual : Option (Axis × List Char)

namespace Shape

def withHead (head : Char) (points : List Char) : List Char := head :: points.tail

def withSign (sign : Char) (points : List Char) : List Char :=
  points.take (points.length - 2) ++ [sign, vs16]

def dropLast (n : Nat) (points : List Char) : List Char := points.take (points.length - n)

/-- The first shape that fits. A sign after a selector is tried before a bare one. -/
def of? (points : List Char) : Option Shape :=
  if [man, zwj].isPrefixOf points then
    some ⟨[withHead woman points, withHead person points], none⟩
  else if [woman, zwj].isPrefixOf points then
    some ⟨[withHead man points, withHead person points], none⟩
  else if [person, zwj].isPrefixOf points then
    some ⟨[withHead man points, withHead woman points], some (.leading, points.drop 2)⟩
  else if [vs16, zwj, maleSign, vs16].isSuffixOf points then
    some ⟨[withSign femaleSign points], some (.trailingWithVariant, dropLast 4 points)⟩
  else if [vs16, zwj, femaleSign, vs16].isSuffixOf points then
    some ⟨[withSign maleSign points], none⟩
  else if [zwj, maleSign, vs16].isSuffixOf points then
    some ⟨[withSign femaleSign points], some (.trailing, dropLast 3 points)⟩
  else if [zwj, femaleSign, vs16].isSuffixOf points then
    some ⟨[withSign maleSign points], none⟩
  else none

end Shape

/-- The axis and the residual of a joined entry with skin tones, if it stands for its family. The
known sequences must contain the others. -/
def Entry.gender (known : List (List Char)) (e : Entry) :
    Except Fault (Option (Axis × List Char)) :=
  match Shape.of? e.base.points with
  | none => .error (.table (.unrecognizedShape e.key))
  | some shape =>
    match shape.complements.find? (!known.contains ·) with
    | some missing => .error (.table (.missingComplement e.key (Sequence.mk missing true).key))
    | none => .ok shape.residual

end Pictograph
