import Pictograph.Table.Kind

/-!
Classes of sequences. Every class has its own part of the pattern, which adds what a sequence of
the class may be followed by or start with.
-/

namespace Pictograph

inductive Class where
  | multiDiversity
  | leadingGender
  | trailingGenderWithVariant
  | trailingGender
  | joined
  | keycap
  | variantDiversity
  | diversity
  | textDefault
  | variant
  | normal
  deriving DecidableEq, Repr

namespace Class

/-- The classes in the order in which the pattern tries them. -/
def all : List Class :=
  [multiDiversity, leadingGender, trailingGenderWithVariant, trailingGender, joined, keycap,
    variantDiversity, diversity, textDefault, variant, normal]

def name : Class → Text
  | multiDiversity => codes "multi_diversity"
  | leadingGender => codes "zwj_leading_gender"
  | trailingGenderWithVariant => codes "zwj_trailing_gender_with_variant"
  | trailingGender => codes "zwj_trailing_gender_without_variant"
  | joined => codes "zwj_plain"
  | keycap => codes "keycap_prefix"
  | variantDiversity => codes "variant_diversity"
  | diversity => codes "diversity"
  | textDefault => codes "text_default"
  | variant => codes "variant"
  | normal => codes "normal"

def ofKind : Kind → Class
  | .normal | .flag | .regional | .multiDiversity => normal
  | .keycap => keycap
  | .diversity => diversity
  | .variantDiversity => variantDiversity
  | .variant => variant
  | .textDefault => textDefault

theorem mem_all (c : Class) : c ∈ all := by cases c <;> decide

end Class

end Pictograph
