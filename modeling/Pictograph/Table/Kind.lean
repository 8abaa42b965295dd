import Pictograph.Fault
import Pictograph.Text.Range
import Pictograph.Text.Case
import Pictograph.Value.Display

/-!
Kinds of emoji: which modifiers an emoji of the table takes. A kind is read from its tag in any
letter case and with any spaces.
-/

namespace Pictograph

inductive Kind where
  | normal
  | variant
  | diversity
  | variantDiversity
  | multiDiversity
  | keycap
  | flag
  | regional
  | textDefault
  deriving DecidableEq, Repr

namespace Kind

def all : List Kind :=
  [normal, variant, diversity, variantDiversity, multiDiversity, keycap, flag, regional,
    textDefault]

def tag : Kind → Text
  | normal => codes "normal"
  | variant => codes "variant"
  | diversity => codes "diversity"
  | variantDiversity => codes "variant,diversity"
  | multiDiversity => codes "multi-diversity"
  | keycap => codes "keycap"
  | flag => codes "flag"
  | regional => codes "regional"
  | textDefault => codes "text-default"

def ofTag? (tag : Text) : Option Kind := all.find? (·.tag = tag)

def plainTag (tag : Text) : Text := (Text.lower (Text.trim tag)).filter (· != 0x20)

/-- Reads the kind of the emoji with a key. A missing tag means a normal emoji. -/
def read (tag : Value) (key : Text) : Except Fault Kind :=
  match tag with
  | .null => .ok normal
  | tag => do
    match ofTag? (plainTag (← tag.write Value.display)) with
    | some kind => return kind
    | none => throw (.table (.unknownType key (← tag.write Value.literal)))

theorem ofTag?_tag (k : Kind) : ofTag? k.tag = some k := by
  cases k <;> decide

end Kind

end Pictograph
