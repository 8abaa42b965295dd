import Pictograph.Text.Basic

/-!
Flavors of a pattern. A pattern either runs on code points or is embedded where text is made of
UTF-16 units; a flavor of any other name writes code points and cannot be run.
-/

namespace Pictograph

inductive Flavor where
  | points
  | utf16
  | other (name : Text)
  deriving DecidableEq, Repr

namespace Flavor

def name : Flavor → Text
  | points => codes "python"
  | utf16 => codes "utf16"
  | other name => name

def ofName (name : Text) : Flavor :=
  if name = codes "python" then points
  else if name = codes "utf16" then utf16
  else other name

@[simp] theorem name_ofName (name : Text) : (ofName name).name = name := by
  unfold ofName
  split
  · next h => exact h.symm
  · split
    · next h => exact h.symm
    · rfl

end Flavor

end Pictograph
