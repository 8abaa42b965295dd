import Pictograph.Text.Case
import Pictograph.Value.Loose

/-!
HTML text, image elements and their attributes, and the tags of elements. A caller may add
attributes to an image or change the usual ones; names that are malformed or could hold a script are
dropped.
-/

namespace Pictograph.Markup

/-! Text -/

def escapeChar (c : Nat) : Text :=
  if c = 0x26 then codes "&amp;"
  else if c = 0x3C then codes "&lt;"
  else if c = 0x3E then codes "&gt;"
  else if c = 0x27 then codes "&#39;"
  else if c = 0x22 then codes "&quot;"
  else [c]

def escape (t : Text) : Text := t.flatMap escapeChar

theorem escape_cons (c : Nat) (t : Text) : escape (c :: t) = escapeChar c ++ escape t :=
  List.flatMap_cons

def onlyText (v : Value) : Except Fault Text :=
  match v with
  | .text t => .ok t
  | v => .error (.noText v.typeName)

/-! Attributes -/

abbrev Attributes := List (Text × Text)

def Attributes.loose (a : Attributes) : List (Text × Value) := a.map fun p => (p.1, .text p.2)

def isLetter (c : Nat) : Bool := (0x41 ≤ c && c ≤ 0x5A) || (0x61 ≤ c && c ≤ 0x7A)

def startsName (c : Nat) : Bool := isLetter c || c == 0x5F || c == 0x3A

def continuesName (c : Nat) : Bool :=
  startsName c || (0x30 ≤ c && c ≤ 0x39) || c == 0x2D || c == 0x2E

def isName : Text → Bool
  | [] => false
  | c :: rest => startsName c && rest.all continuesName

def dropBreak (t : Text) : Text := if t.getLast? = some 0x0A then t.dropLast else t

/-- Is the attribute kept? Event handlers are not; a line break after the name does not matter. -/
def isSafeName (t : Text) : Bool :=
  !(codes "on").isPrefixOf (Text.lower t) && isName (dropBreak t)

def isSafeValue (v : Value) : Except Fault Bool :=
  match v with
  | .text t => .ok (isSafeName t)
  | v => if v.truthy then .error (.lacks v.typeName (codes "lower")) else .ok false

/-- Members with given ones set over them and unsafe names dropped. -/
def merge (base given : List (Text × α)) : List (Text × α) :=
  (given.foldl (fun merged m => setMember merged m.1 m.2) base).filter fun m => isSafeName m.1

def renderAttribute (a : Text × Text) : Text := a.1 ++ codes "=\"" ++ escape a.2 ++ codes "\""

def renderImage (attributes : Attributes) : Text :=
  codes "<img " ++ Text.join (codes " ") (attributes.map renderAttribute) ++ codes "/>"

/-! Tags -/

def hasNamespace (tag : Text) : Bool := tag.head? == some 0x7B

def localName (tag : Text) : Text :=
  Text.lower (
    if hasNamespace tag && tag.contains 0x7D then (tag.dropWhile (· != 0x7D)).drop 1 else tag)

/-- Elements whose text is never decorated: scripts, form controls and pictures. -/
def skippedNames : List Text :=
  ["iframe", "noframes", "noscript", "script", "select", "style", "textarea", "svg", "img"].map
    codes

def isSkipped (tag : Text) : Bool := skippedNames.contains (localName tag)

def imageTag (parent : Text) : Text :=
  if hasNamespace parent then parent.takeWhile (· != 0x7D) ++ codes "\x7dimg" else codes "img"

end Pictograph.Markup
