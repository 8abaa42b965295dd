import Pictograph.Value.Display

/-!
What callers' own code answers. The library takes such an answer by what it asks of it, and each of
these questions may end in an error.
-/

namespace Pictograph

/-- An error with one argument, which stands in what is written for it. -/
def Raised.ofArgument (kind : Text) (argument : Value) : Raised :=
  .foreign true ((argument.write Value.literal).mapError .fault |>.map fun shown =>
    kind ++ codes "(" ++ shown ++ codes ")")

structure Loose where
  isNull : Bool
  truthy : Except Raised Bool
  display : Except Raised Text

namespace Loose

def ofText (t : Text) : Loose := ⟨false, .ok !t.isEmpty, .ok t⟩

def ofValue (v : Value) : Loose where
  isNull := v matches .null
  truthy := .ok v.truthy
  display := (v.write Value.display).mapError .fault

end Loose

/-- A mapping: does it count as true, and what does going through its members give? -/
structure Mapping where
  truthy : Except Raised Bool
  members : List (Except Raised (Loose × Loose))

namespace Mapping

def ofMembers (members : List (Text × Value)) : Mapping where
  truthy := .ok !members.isEmpty
  members := members.map fun m => .ok (.ofText m.1, .ofValue m.2)

def textsOf : List (Except Raised (Loose × Loose)) → Except Raised (List (Text × Text))
  | [] => return []
  | member :: rest => do
    let (name, v) ← member
    if v.isNull then textsOf rest
    else
      let shown ← v.display
      let name ← name.display
      return (name, shown) :: (← textsOf rest)

def texts (m : Mapping) : Except Raised (List (Text × Text)) := do
  if ← m.truthy then textsOf m.members else return []

end Mapping

inductive Offered where
  | nothing
  | mapping (m : Mapping)
  | other (type : Text)

def Offered.ofValue : Value → Offered
  | .null => nothing
  | .object members => mapping (.ofMembers members)
  | v => other v.typeName

end Pictograph
