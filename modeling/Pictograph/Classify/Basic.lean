import Pictograph.Classify.Class
import Pictograph.Classify.Gender
import Pictograph.Table.Chapter

/-!
Sorting the entries of a table into classes. An entry with two people gives all its renderings, a
gendered family one residual, and any other entry its base, less what the pattern of its class adds
again.
-/

namespace Pictograph

structure Placed where
  cls : Class
  sequence : Sequence
  deriving DecidableEq, Repr

def sequencesOf (placed : List Placed) (c : Class) : List Sequence :=
  placed.filterMap fun p => if p.cls = c then some p.sequence else none

namespace Class

def ofAxis : Axis → Class
  | .leading => leadingGender
  | .trailingWithVariant => trailingGenderWithVariant
  | .trailing => trailingGender

def dropLateSelectors : List Char → List Char
  | [] => []
  | c :: rest => c :: Entry.dropSelectors rest

/-- What a class keeps of a base: all of it, or what its pattern does not add. -/
def keep (c : Class) (points : List Char) : List Char :=
  match c with
  | keycap => points.filter fun p => p != Pictograph.keycap && p != vs16
  | normal => points
  | _ => dropLateSelectors points

end Class

namespace Entry

def isMulti (e : Entry) : Bool := e.kind = .multiDiversity

def isJoined (e : Entry) : Bool := !e.isMulti && e.base.joined

def isPlain (e : Entry) : Bool := !e.isMulti && !e.base.joined

/-- A joined entry takes skin tones or nothing. -/
def checkJoined (e : Entry) : Except Fault Unit :=
  if e.kind = .diversity ∨ e.kind = .normal then .ok ()
  else .error (.table (.unsupportedZwj e.key e.kind.tag))

def place (e : Entry) : Placed :=
  let c := Class.ofKind e.kind
  ⟨c, { e.base with points := c.keep e.base.points }⟩

end Entry

def classify (entries : List Entry) : Except Fault (List Placed) := do
  let joined := entries.filter (·.isJoined)
  joined.forM Entry.checkJoined
  let multi := (← (entries.filter (·.isMulti)).mapM Entry.renderings).flatten
  let toned := joined.filter (·.kind = .diversity)
  let residuals ← toned.mapM (Entry.gender (toned.map (·.base.points)))
  return multi.map (⟨.multiDiversity, ·⟩) ++
    residuals.filterMap (·.map fun r => ⟨Class.ofAxis r.1, ⟨r.2, true⟩⟩) ++
    (joined.filter (·.kind = .normal)).map (⟨.joined, ·.base⟩) ++
    (entries.filter (·.isPlain)).map Entry.place

def classCounts (placed : List Placed) : List (Class × Nat) :=
  Class.all.map fun c => (c, (sequencesOf placed c).length)

end Pictograph
