import Pictograph.Group

/-!
Patterns that the parts of the master pattern share: the selectors, the joiner, the keycap, and the
choices of a skin tone, a sign or a person.
-/

namespace Pictograph

structure Auxiliary where
  zwj : Pattern
  vs15 : Pattern
  vs16 : Pattern
  keycap : Pattern
  skinTone : Pattern
  skinToneOrVs16 : Pattern
  genderSign : Pattern
  manWomanPerson : Pattern

namespace Auxiliary

def oneOf (flavor : Flavor) (cs : List Char) : Except Fault Pattern :=
  patternOf flavor [] (cs.map fun c => [(c.toNat : Int)])

def of (flavor : Flavor) : Except Fault Auxiliary := do
  return {
    zwj := .symbol Pictograph.zwj.toNat
    vs15 := .symbol Pictograph.vs15.toNat
    vs16 := .symbol Pictograph.vs16.toNat
    keycap := .symbol Pictograph.keycap.toNat
    skinTone := ← oneOf flavor skinTones
    skinToneOrVs16 := ← oneOf flavor (Pictograph.vs16 :: skinTones)
    genderSign := ← oneOf flavor [femaleSign, maleSign]
    manWomanPerson := ← oneOf flavor [man, woman, person] }

def fragments (a : Auxiliary) : List (Text × Pattern) :=
  [(codes "zwj", a.zwj), (codes "vs15", a.vs15), (codes "vs16", a.vs16),
    (codes "keycap", a.keycap), (codes "skin_tone", a.skinTone),
    (codes "skin_tone_or_vs16", a.skinToneOrVs16), (codes "gender_sign", a.genderSign),
    (codes "man_woman_person", a.manWomanPerson)]

end Auxiliary

end Pictograph
