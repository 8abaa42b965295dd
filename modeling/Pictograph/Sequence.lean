import Pictograph.CodePoint

/-!
Emoji sequences: runs of scalar values, named by their keys. Whether a picker shows a sequence
makes no difference to which sequence it is.
-/

namespace Pictograph

structure Sequence where
  points : List Char
  /-- Is the sequence offered by a picker? -/
  shown : Bool := true
  deriving DecidableEq, Repr

namespace Sequence

def same (a b : Sequence) : Bool := a.points == b.points

def text (s : Sequence) : Text := Text.ofChars s.points

def key (s : Sequence) : Text := Text.join (codes "-") (s.text.map Text.hex)

def joined (s : Sequence) : Bool := s.points.contains zwj

def ofValues (values : List Value) : Except Fault Sequence := do
  return ⟨← values.mapM Value.toScalar, true⟩

/-- The sequence of everything that a loop over the value sees. -/
def ofValue (v : Value) : Except Fault Sequence :=
  match v.elements? with
  | some values => ofValues values
  | none => .error (.notIterable v.typeName)

def ofText (t : Text) : Except Fault Sequence := do
  return ⟨← scalars (t.map Int.ofNat), true⟩

def readParts (parts : List Text) : Except Fault (List Char) :=
  parts.mapM fun part => do
    let n ← Decimal.readInt 16 part
    scalar (.int n) n

/-- Reads a key. Blanks around it and empty parts do not matter. -/
def ofKey (key : Text) (shown : Bool) : Except Fault Sequence := do
  let parts := Text.fields 0x2D (Text.trim key)
  if parts.isEmpty then throw (.emptyKey key)
  return ⟨← readParts parts, shown⟩

def ofKeyValue (v : Value) (shown : Bool) : Except Fault Sequence :=
  match v with
  | .text key => ofKey key shown
  | v => .error (.lacks v.typeName (codes "strip"))

theorem same_iff {a b : Sequence} : a.same b = true ↔ a.points = b.points := by
  simp [same]

theorem ofText_text (s : Sequence) : ofText s.text = .ok { s with shown := true } := by
  have h : (s.text.map Int.ofNat) = s.points.map fun c => (c.toNat : Int) := by
    simp [text, Text.ofChars]
  simp [ofText, h, scalars_ofChars, bind, Except.bind, pure, Except.pure]

end Sequence

end Pictograph
