import Pictograph.Span
import Pictograph.Sequence

/-!
Sequences grouped by everything but their last unit. The longest stems come first, so that an
alternation over the groups never settles on a sequence while a longer one with the same start
could still match.
-/

namespace Pictograph

/-- The units that may follow a common stem, in ascending order. -/
structure Group where
  stem : List Int
  endings : List Int
  deriving DecidableEq, Repr

namespace Group

/-- Longer stems first, and those of one length by their units. -/
def before (a b : List Int) : Bool :=
  b.length < a.length || (a.length == b.length && decide (a < b))

def add (groups : List Group) (stem : List Int) (ending : Int) : List Group :=
  match groups with
  | [] => [⟨stem, [ending]⟩]
  | g :: rest =>
    if g.stem = stem then
      ⟨stem, Ascending.insert (fun a b => decide (a < b)) ending g.endings⟩ :: rest
    else if before stem g.stem then ⟨stem, [ending]⟩ :: g :: rest
    else g :: add rest stem ending

def units (flavor : Flavor) (codes : List Int) : Except Fault (List Int) :=
  if flavor = .utf16 then
    (scalars codes).map fun cs => (Text.splitPairs (Text.ofChars cs)).map Int.ofNat
  else .ok codes

def cut (flavor : Flavor) (codes : List Int) : Except Fault (List Int × Int) := do
  let units ← units flavor codes
  match units.getLast? with
  | some ending => return (units.dropLast, ending)
  | none => throw .emptySequence

def ofSequences (flavor : Flavor) (sequences : List (List Int)) : Except Fault (List Group) := do
  let cuts ← sequences.mapM (cut flavor)
  return cuts.foldl (fun groups c => add groups c.1 c.2) []

def toPattern (flavor : Flavor) (g : Group) : Except Fault Pattern := do
  let stem ← g.stem.mapM (Pattern.codeOf flavor)
  let endings ← Span.toPattern flavor (Span.ofValues g.endings)
  return .concat (stem.map .symbol ++ [endings])

end Group

/-- The pattern for exactly the given sequences, which must not be missing. It is bare if every
sequence is one unit long. -/
def patternOf (flavor : Flavor) (name : Text) (sequences : List (List Int)) :
    Except Fault Pattern := do
  match ← Group.ofSequences flavor sequences with
  | [] => throw (.table (.emptyCategory (if name.isEmpty then codes "pattern" else name)))
  | [g] =>
    if g.stem.isEmpty then g.toPattern flavor else return .group (← g.toPattern flavor)
  | groups => return .group (.anyOf (← groups.mapM (Group.toPattern flavor)))

def Sequence.numbers (s : Sequence) : List Int := s.text.map Int.ofNat

end Pictograph
