import Pictograph.Ascending
import Pictograph.Pattern.Source

/-!
Spans of consecutive numbers. A set of code values is a list of spans, written as a character
class; where text is made of UTF-16 units, the members beyond the first plane are grouped by their
high unit, so that no span crosses from one to the next.
-/

namespace Pictograph

structure Span where
  first : Int
  last : Int
  deriving DecidableEq, Repr

namespace Span

def members (values : List Int) : List Int := Ascending.ofList (fun a b => decide (a < b)) values

def ofAscending : List Int → List Span
  | [] => []
  | v :: rest =>
    match ofAscending rest with
    | [] => [⟨v, v⟩]
    | s :: more => if s.first = v + 1 then ⟨v, s.last⟩ :: more else ⟨v, v⟩ :: s :: more

/-- The fewest spans with exactly the given numbers, in ascending order. -/
def ofValues (values : List Int) : List Span := ofAscending (members values)

/-- The members of a character class for one span: two for a span of two. -/
def classItems (flavor : Flavor) (s : Span) : Except Fault (List ClassItem) := do
  if s.last < s.first then throw (.brokenSpan s.first s.last)
  let first ← Pattern.codeOf flavor s.first
  if s.first = s.last then return [.one first]
  let last ← Pattern.codeOf flavor s.last
  return if s.first + 1 = s.last then [.one first, .one last] else [.range first last]

/-- A character class, or the bare code value if there is only one. -/
def toPattern (flavor : Flavor) (spans : List Span) : Except Fault Pattern :=
  let asClass := (spans.mapM (classItems flavor)).map fun items => Pattern.oneOf items.flatten
  match spans with
  | [] => .ok .empty
  | [s] => if s.first = s.last then (Pattern.codeOf flavor s.first).map .symbol else asClass
  | _ => asClass

end Span

structure Plane where
  high : Nat
  lows : List Int
  deriving DecidableEq, Repr

namespace Plane

def add (planes : List Plane) (c : Char) : List Plane :=
  let high := 0xD800 + (c.toNat - 0x10000) / 0x400
  let low : Int := (0xDC00 + (c.toNat - 0x10000) % 0x400 : Nat)
  match planes with
  | p :: rest => if p.high = high then ⟨high, p.lows ++ [low]⟩ :: rest else ⟨high, [low]⟩ :: planes
  | [] => [⟨high, [low]⟩]

def ofChars (cs : List Char) : List Plane := (cs.foldl add []).reverse

def toPattern (flavor : Flavor) (p : Plane) : Except Fault Pattern := do
  let low ← Span.toPattern flavor (Span.ofValues p.lows)
  return .concat [.symbol p.high, low]

end Plane

/-- The smallest pattern for exactly the given code values. -/
def compact (flavor : Flavor) (values : List Int) : Except Fault Pattern := do
  let members := Span.members values
  match members with
  | [] => throw .emptySet
  | [v] => return .symbol (← Pattern.codeOf flavor v)
  | _ =>
    if flavor = .points ∨ members.all (· < 0x10000) then
      Span.toPattern flavor (Span.ofValues values)
    else
      let near := members.filter (· < 0x10000)
      let far ← scalars (members.filter (0x10000 ≤ ·))
      let planes ← (Plane.ofChars far).mapM (Plane.toPattern flavor)
      if near.isEmpty then return .group (.anyOf planes)
      let rest ← Span.toPattern flavor (Span.ofValues near)
      return .group (.anyOf (planes ++ [rest]))

end Pictograph
