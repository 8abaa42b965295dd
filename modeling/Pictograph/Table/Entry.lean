import Pictograph.Sequence
import Pictograph.Table.Kind
import Pictograph.Table.Template

/-!
Entries of an emoji table and the sequences that each can be rendered as: the base, the base with
one of five skin tones, or the base and all pairs of tones for emoji with two people.
-/

namespace Pictograph

structure Entry where
  base : Sequence
  kind : Kind
  /-- The template for two people of one tone. -/
  sameTone : Option Template
  /-- The template for two people of any tones. -/
  twoTones : Option Template
  /-- Does a picker show each pair of tones in one order only? -/
  sorted : Bool
  description : Text
  keywords : List Text
  excluded : Bool
  deriving DecidableEq, Repr

namespace Entry

def key (e : Entry) : Text := e.base.key

def label : Value → Except Fault Text
  | .text key => .ok key
  | v => v.write Value.literal

def readPoints : Value → Except Fault Sequence
  | .text key => Sequence.ofKey key true
  | v => Sequence.ofValue v

/-- Reads the code points of a row, which is to blame if they cannot be read. -/
def readBase (codes : Value) : Except Fault Sequence :=
  match readPoints codes with
  | .ok s => .ok s
  | .error f =>
    if f.family = .value ∨ f.family = .type then do
      throw (.table (.badCodes (← label codes) f.message))
    else .error f

/-- Keywords from a text with commas between them or from a list. -/
def readKeywords (v : Value) : Except Fault (List Text) :=
  if v.truthy then (words v).map fun words => (words.map Text.trim).filter (!·.isEmpty)
  else .ok []
where
  words : Value → Except Fault (List Text)
    | .text t => .ok (Text.split 0x2C t)
    | v =>
      match v.elements? with
      | some words => words.mapM (·.write Value.display)
      | none => .error (.notIterable v.typeName)

/-- The text of a cell, empty for a cell that counts as false. -/
def cellText (v : Value) : Except Fault Text :=
  if v.truthy then v.write Value.display else .ok []

def readCodes (cells : List (Text × Value)) : Except Fault Sequence :=
  match Value.member (codes "unicode") cells with
  | .null =>
    match Value.member (codes "codepoints") cells with
    | .null => .error (.table .missingCodes)
    | given => readBase given
  | given => readBase given

def ofRow (row : Value) : Except Fault Entry :=
  match row with
  | .object cells => do
    let cell := fun name => Value.member (codes name) cells
    let base ← readCodes cells
    let excluded := (cell "exclude_from_picker").truthy
    let kind ← Kind.read (cell "type") base.key
    let sameTone ← Template.read (cell "multi_diversity_base_same") base.key
    let twoTones ← Template.read (cell "multi_diversity_base_different") base.key
    let description ← cellText (cell "description")
    let keywords ← readKeywords (cell "keywords")
    return {
      base := { base with shown := !excluded }
      kind, sameTone, twoTones, description, keywords, excluded
      sorted := (cell "multi_diversity_base_different_is_sorted").truthy }
  | v => .error (.lacks v.typeName (codes "get"))

def dropSelectors (points : List Char) : List Char :=
  (points.reverse.dropWhile (· == vs16)).reverse

/-- The points with a skin tone: before the first joiner, where it takes the place of the
presentation selectors, or at the end. -/
def withTone (points : List Char) (tone : Char) : List Char :=
  if points.contains zwj then
    dropSelectors (points.takeWhile (· != zwj)) ++ tone :: points.dropWhile (· != zwj)
  else points ++ [tone]

def filled (template : Template) (tones : List Int) (shown : Bool) : Except Fault Sequence := do
  return ⟨← scalars (← template.fill (tones.map .code)).numbers, shown⟩

/-- Places of two tones, in the order of the tones. -/
def tonePairs : List (Nat × Nat) :=
  (List.range 5).flatMap fun i => (List.range 5).map fun j => (i, j)

def toneNumber (i : Nat) : Int := 0x1F3FB + i

def withTones (e : Entry) (twoTones : Template) (i j : Nat) : Except Fault Sequence :=
  let both := filled twoTones [toneNumber i, toneNumber j] (j ≤ i || !e.sorted)
  match e.sameTone with
  | some sameTone =>
    if i = j ∧ !sameTone.same twoTones then filled sameTone [toneNumber i] true else both
  | none => both

/-- Every sequence that the entry can be rendered as, the base first. -/
def renderings (e : Entry) : Except Fault (List Sequence) :=
  match e.kind with
  | .diversity | .variantDiversity =>
    .ok (e.base :: skinTones.map fun tone => ⟨withTone e.base.points tone, true⟩)
  | .multiDiversity => do
    match e.twoTones with
    | none => throw (.table (.missingTemplate e.key))
    | some twoTones => return e.base :: (← tonePairs.mapM fun p => e.withTones twoTones p.1 p.2)
  | _ => .ok [e.base]

def pickerSequences (e : Entry) : Except Fault (List Sequence) := do
  return (← e.renderings).filter (·.shown)

end Entry

end Pictograph
