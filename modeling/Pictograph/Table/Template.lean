import Pictograph.CodePoint
import Pictograph.Text.Case

/-!
Templates of emoji with several people: code points between which skin tones are put, one for each
slot. A template with more slots than tones repeats the last tone.
-/

namespace Pictograph

inductive Token where
  | slot
  | code (n : Int)
  /-- A truth value in the place of a code point; it stands for zero or one. -/
  | flag (b : Bool)
  deriving DecidableEq, Repr

abbrev Template := List Token

namespace Token

def code? : Token → Option Int
  | slot => none
  | code n => some n
  | flag b => some (if b then 1 else 0)

def read (key : Text) (v : Value) : Except Fault Token :=
  match v with
  | .null => .ok slot
  | .int n => .ok (code n)
  | .bool b => .ok (flag b)
  | .text t => if Text.lower t = codes "skintone" then .ok slot else number (.text t)
  | v => number v
where
  -- A value that cannot be written is no number, and then it cannot be named either.
  number (v : Value) : Except Fault Token :=
    match v.write Value.display >>= Decimal.readInt 16 with
    | .ok n => .ok (code n)
    | .error _ => do throw (.table (.badToken key (← v.write Value.literal)))

end Token

namespace Template

def same (a b : Template) : Bool := a.map Token.code? == b.map Token.code?

def tokens (v : Value) : Except Fault (List Value) :=
  match v with
  | .text t => .ok ((Text.fields 0x2D (Text.trim t)).map .text)
  | v =>
    match v.elements? with
    | some values => .ok values
    | none => .error (.notIterable v.typeName)

/-- Reads the template of an emoji with a key; none may be given. -/
def read (v : Value) (key : Text) : Except Fault (Option Template) :=
  match v with
  | .null => .ok none
  | v => do
    let template ← (← tokens v).mapM (Token.read key)
    if template.isEmpty then throw (.table (.emptyTemplate key))
    return some template

/-- The tokens with those of the tones in the slots, from left to right. -/
def fill (tones : List Token) : Template → Except Fault Template
  | [] => .ok []
  | .slot :: rest =>
    match tones with
    | [] => .error .noTone
    | [tone] => (fill [tone] rest).map (tone :: ·)
    | tone :: more => (fill more rest).map (tone :: ·)
  | token :: rest => (fill tones rest).map (token :: ·)

def numbers (t : Template) : List Int := t.filterMap Token.code?

end Template

end Pictograph
