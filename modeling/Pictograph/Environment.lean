import Pictograph.Text.Unwritable
import Pictograph.Value.Basic

/-!
The environment: variables with names and texts, the last one set at the end. The system keeps both
as bytes that end with a zero, and parts them by the first equals sign.
-/

namespace Pictograph

abbrev Environment := List (Text × Text)

inductive EnvironmentFault where
  | notText (type : Text)
  | unwritable (run : Text.Unwritable)
  | holdsZero
  | noName
  | badName
  deriving DecidableEq, Repr

namespace EnvironmentFault

def message : EnvironmentFault → Text
  | notText type => codes "str expected, not " ++ type
  | unwritable run => run.message
  | holdsZero => codes "embedded null byte"
  | noName => codes "[Errno 22] Invalid argument"
  | badName => codes "illegal environment variable name"

end EnvironmentFault

namespace Environment

/-- A surrogate that stands for a byte which is no character passes. -/
def standsForByte (c : Nat) : Bool := 0xDC80 ≤ c && c ≤ 0xDCFF

def checkText (t : Text) : Except EnvironmentFault Text :=
  match Text.unwritable? standsForByte t with
  | some run => .error (.unwritable run)
  | none => .ok t

def entry (name : Text) (value : Value) : Except EnvironmentFault (Text × Text) := do
  let name ← checkText name
  let value ← match value with
    | .text t => checkText t
    | v => .error (.notText v.typeName)
  if name.contains 0 || value.contains 0 then throw .holdsZero
  if name.contains 0x3D then throw .badName
  if name.isEmpty then throw .noName
  return (name, value)

def ofMembers (members : List (Text × Value)) : Except EnvironmentFault Environment :=
  members.mapM fun m => entry m.1 m.2

end Environment

end Pictograph
