import Pictograph.Classify.Basic
import Pictograph.Compile.Auxiliary

/-!
The master pattern: one alternative for every class of sequences, the longer and more special ones
first, so that a single emoji never wins over a joined one that starts with it.
-/

namespace Pictograph

abbrev ClassPatterns := List (Class × Pattern)

namespace Pattern

/-- The alternative of a class: its sequences with what may stand around them. -/
def around (a : Auxiliary) (c : Class) (body : Pattern) : List Pattern :=
  match c with
  | .multiDiversity | .joined | .normal => [body]
  | .leadingGender => [a.manWomanPerson, opt a.skinTone, a.zwj, body]
  | .trailingGenderWithVariant => [body, opt a.skinToneOrVs16, a.zwj, a.genderSign, opt a.vs16]
  | .trailingGender => [body, opt a.skinTone, a.zwj, a.genderSign, opt a.vs16]
  | .keycap => [body, opt a.vs16, a.keycap]
  | .variantDiversity => [body, opt a.skinToneOrVs16]
  | .diversity => [body, opt a.skinTone]
  | .textDefault => [body, a.vs16]
  | .variant => [body, group (alt a.vs16 (notAhead a.vs15))]

def master (a : Auxiliary) (patterns : ClassPatterns) : Pattern :=
  group (anyOf (Class.all.filterMap fun c =>
    (patterns.lookup c).map fun body => concat (around a c body)))

end Pattern

structure CompiledPattern where
  pattern : Pattern
  flavor : Flavor
  fragments : List (Text × Pattern)

namespace CompiledPattern

def source (c : CompiledPattern) : Source := c.pattern.source c.flavor

end CompiledPattern

end Pictograph
