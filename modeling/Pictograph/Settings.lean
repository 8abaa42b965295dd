import Pictograph.Compile.Basic
import Pictograph.Environment
import Pictograph.Text.Range
import Pictograph.Text.Case

/-!
Settings of the compiler and of the decorator. A value comes from the caller, else from the
environment, else it has a default; a value that does not fit is an issue with its field.
-/

namespace Pictograph

structure DecoratorSettings where
  baseUrl : Text
  size : Text
  imageType : Text
  className : Text
  deriving DecidableEq, Repr

namespace Settings

inductive IssueKind where
  | noChoice
  | tooShort
  | noText
  | brokenText
  | unclearTruth
  | noTruth
  deriving DecidableEq, Repr

def IssueKind.name : IssueKind → Text
  | noChoice => codes "literal_error"
  | tooShort => codes "string_too_short"
  | noText => codes "string_type"
  | brokenText => codes "string_unicode"
  | unclearTruth => codes "bool_parsing"
  | noTruth => codes "bool_type"

structure Issue where
  field : Text
  kind : IssueKind
  deriving DecidableEq, Repr

/-- The value for a field, named in any letter case: the first one of the caller, else the last one
of the environment, whose variables have a common start. -/
def given? (values : List (Text × Value)) (env : Environment) (field : Text) : Option Value :=
  match values.find? (fun m => Text.lower m.1 = field) with
  | some m => some m.2
  | none =>
    (env.reverse.find? fun m => Text.lower m.1 = codes "emoji_" ++ field).map fun m => .text m.2

def readText (v : Value) : Except IssueKind Text :=
  match v with
  | .text t => .ok t
  | _ => .error .noText

def readName (v : Value) : Except IssueKind Text := do
  let t ← readText v
  if t.any Text.isSurrogate then throw .brokenText
  if t.isEmpty then throw .tooShort
  return t

def trueWords : List Text := ["1", "true", "t", "yes", "y", "on"].map codes

def falseWords : List Text := ["0", "false", "f", "no", "n", "off"].map codes

def readWord? (word : Text) : Option Bool :=
  if trueWords.contains (Text.lower word) then some true
  else if falseWords.contains (Text.lower word) then some false
  else none

def leastWord : Int := -0x8000000000000000

def greatestWord : Int := 0x7FFFFFFFFFFFFFFF

/-- The truth of a number: one and zero have one, any other number of 64 bits might. -/
def readNumber (n : Int) : Except IssueKind Bool :=
  if n = 0 then .ok false
  else if n = 1 then .ok true
  else if n < leastWord ∨ greatestWord < n then .error .noTruth
  else .error .unclearTruth

def readTruth (v : Value) : Except IssueKind Bool :=
  match v with
  | .bool b => .ok b
  | .int n => readNumber n
  | .float x =>
    match v.toInt with
    | .ok n => if x == x.floor ∧ n ≠ leastWord then readNumber n else .error .noTruth
    | .error _ => .error .noTruth
  | .text t =>
    match readWord? t with
    | some b => .ok b
    | none => .error (if t.any Text.isSurrogate then .brokenText else .unclearTruth)
  | _ => .error .noTruth

def readFlavor (v : Value) : Except IssueKind Flavor :=
  match v with
  | .text t =>
    match Flavor.ofName t with
    | .other _ => .error (if t.any Text.isSurrogate then .brokenText else .noChoice)
    | f => .ok f
  | _ => .error .noChoice

/-- A field read from its value, or its default if there is none. -/
def field (values : List (Text × Value)) (env : Environment) (name : String)
    (read : Value → Except IssueKind α) (default : α) : Except Issue α :=
  match given? values env (codes name) with
  | none => .ok default
  | some v =>
    match read v with
    | .ok a => .ok a
    | .error kind => .error ⟨codes name, kind⟩

def issue? (r : Except Issue α) : List Issue :=
  match r with
  | .ok _ => []
  | .error i => [i]

/-- A truth value of the environment; any other word leaves the default. -/
def environmentTruth (raw : Option Text) (default : Bool) : Bool :=
  match raw with
  | none => default
  | some t => (readWord? (Text.trim t)).getD default

end Settings

open Settings

/-- Reads the settings of the decorator, or lists the issues in the order of the fields. -/
def DecoratorSettings.read (values : List (Text × Value)) (env : Environment) :
    Except (List Issue) DecoratorSettings :=
  let baseUrl := field values env "base_url" readText
    (codes "https://cdnjs.cloudflare.com/ajax/libs/twemoji/14.0.2/")
  let size := field values env "size" readName (codes "72x72")
  let imageType := field values env "image_type" readText (codes ".png")
  let className := field values env "class_name" readName (codes "emoji")
  match baseUrl, size, imageType, className with
  | .ok baseUrl, .ok size, .ok imageType, .ok className =>
    .ok ⟨baseUrl, size, imageType, className⟩
  | _, _, _, _ => .error (issue? baseUrl ++ issue? size ++ issue? imageType ++ issue? className)

def CompilerSettings.read (values : List (Text × Value)) (env : Environment) :
    Except (List Issue) CompilerSettings :=
  let flavor := field values env "flavor" readFlavor .points
  let requireAll := field values env "require_all_categories" readTruth true
  match flavor, requireAll with
  | .ok flavor, .ok requireAll => .ok ⟨flavor, requireAll⟩
  | _, _ => .error (issue? flavor ++ issue? requireAll)

end Pictograph
