import Pictograph.Text.Printable

/-!
What can go wrong, by cause, and the message of each cause. A fault of the emoji table carries the
key of the entry or the name of the category that is to blame.
-/

namespace Pictograph

inductive TableFault where
  | unknownType (key shown : Text)
  | missingCodes
  | badCodes (label reason : Text)
  | badToken (key shown : Text)
  | emptyTemplate (key : Text)
  | missingTemplate (key : Text)
  | unsupportedEntry (type : Text)
  | unsupportedZwj (key type : Text)
  | emptyCategory (name : Text)
  | missingComplement (key complement : Text)
  | unrecognizedShape (key : Text)
  deriving DecidableEq, Repr

namespace TableFault

def key : TableFault → Text
  | unknownType key _ | badCodes key _ | badToken key _ | emptyTemplate key | missingTemplate key
  | unsupportedZwj key _ | emptyCategory key | missingComplement key _
  | unrecognizedShape key => key
  | missingCodes | unsupportedEntry _ => []

def kind : TableFault → Text
  | unknownType .. => codes "UnknownEmojiTypeError"
  | missingCodes | badCodes .. | badToken .. | emptyTemplate _ | missingTemplate _
  | unsupportedEntry _ => codes "MalformedRecordError"
  | unsupportedZwj .. => codes "UnsupportedZwjTypeError"
  | emptyCategory _ => codes "EmptyCategoryError"
  | missingComplement .. => codes "MissingGenderComplementError"
  | unrecognizedShape _ => codes "UnrecognizedZwjShapeError"

def message : TableFault → Text
  | unknownType key shown =>
    codes "Emoji item " ++ (if key.isEmpty then codes "?" else key) ++
      codes ": unknown type tag " ++ shown
  | missingCodes => codes "Emoji item without 'unicode' codepoints"
  | badCodes label reason =>
    codes "Emoji item " ++ label ++ codes ": bad codepoints (" ++ reason ++ codes ")"
  | badToken key shown => codes "Emoji item " ++ key ++ codes ": bad template token " ++ shown
  | emptyTemplate key => codes "Emoji item " ++ key ++ codes ": empty multi-diversity template"
  | missingTemplate key =>
    codes "Multi-diversity item " ++ key ++
      codes " has no multi_diversity_base_different template"
  | unsupportedEntry type => codes "Unsupported emoji table entry: " ++ type
  | unsupportedZwj key type =>
    codes "ZWJ item " ++ key ++ codes ": invalid type (" ++ type ++
      codes "). Must be 'diversity' or 'normal'."
  | emptyCategory name => codes "Emoji category '" ++ name ++ codes "' cannot be empty"
  | missingComplement key complement =>
    codes "ZWJ diversity item " ++ key ++
      codes " is missing its gender-complement sequence " ++ complement
  | unrecognizedShape key =>
    codes "ZWJ diversity item " ++ key ++ codes (" must be part of a gender pair " ++
      "(leading man/woman/person or trailing male/female sign)")

end TableFault

/-- The most decimal digits a number may be read from or written with. -/
def digitLimit : Nat := 4300

inductive Fault where
  | badNumeral (base : Nat) (given : Text)
  | longNumeral (digits : Nat)
  | longNumber
  | notNumeric (type : Text)
  | notWhole (type : Text)
  | endless
  | notANumber
  | outOfRange (shown : Text)
  | surrogate (code : Nat)
  | emptyKey (given : Text)
  | noCharacter
  | beyondWord
  | notIterable (type : Text)
  | lacks (type operation : Text)
  | noTone
  | brokenSpan (first last : Int)
  | emptySet
  | emptySequence
  | notExecutable (flavor : Text)
  | unreadablePattern
  | notDecorable (type : Text)
  | noText (type : Text)
  | noContainer (type : Text)
  | noSingle (length : Nat)
  | table (fault : TableFault)
  deriving DecidableEq, Repr

inductive Family where
  | value
  | type
  | attribute
  | index
  | overflow
  | table
  deriving DecidableEq, Repr

namespace Fault

def family : Fault → Family
  | notNumeric _ | notWhole _ | notIterable _ | notDecorable _ | noText _
  | noContainer _ | noSingle _ => .type
  | lacks .. => .attribute
  | noTone => .index
  | endless | beyondWord => .overflow
  | table _ => .table
  | _ => .value

def message : Fault → Text
  | badNumeral base given =>
    codes "invalid literal for int() with base " ++ Text.decimal base ++ codes ": " ++
      (Text.quoted given).take 200
  | longNumeral digits =>
    codes "Exceeds the limit (" ++ Text.decimal digitLimit ++
      codes " digits) for integer string conversion: value has " ++ Text.decimal digits ++
      codes " digits; use sys.set_int_max_str_digits() to increase the limit"
  | longNumber =>
    codes "Exceeds the limit (" ++ Text.decimal digitLimit ++
      codes (" digits) for integer string conversion; " ++
        "use sys.set_int_max_str_digits() to increase the limit")
  | notNumeric type =>
    codes ("int() argument must be a string, a bytes-like object or a real number, not '") ++
      type ++ codes "'"
  | notWhole type =>
    codes "'" ++ type ++ codes "' object cannot be interpreted as an integer"
  | endless => codes "cannot convert float infinity to integer"
  | notANumber => codes "cannot convert float NaN to integer"
  | outOfRange shown => codes "codepoint out of range: " ++ shown
  | surrogate code => codes "surrogate is not a scalar value: " ++ Text.markedHex code
  | emptyKey given => codes "empty codepoint key: " ++ Text.quoted given
  | noCharacter => codes "chr() arg not in range(0x110000)"
  | beyondWord => codes "Python int too large to convert to C int"
  | notIterable type => codes "'" ++ type ++ codes "' object is not iterable"
  | lacks type operation =>
    codes "'" ++ type ++ codes "' object has no attribute '" ++ operation ++ codes "'"
  | noTone => codes "tuple index out of range"
  | brokenSpan first last =>
    codes "broken span: start " ++ Text.markedHex first ++ codes " after end " ++
      Text.markedHex last
  | emptySet => codes "cannot compact an empty codepoint set"
  | emptySequence => codes "cannot group an empty codepoint sequence"
  | notExecutable flavor =>
    flavor ++ codes " patterns are for embedding; compile with flavor='python' to execute"
  | unreadablePattern => codes "unsupported pattern"
  | notDecorable type => codes "cannot decorate " ++ type
  | noContainer type => codes "argument of type '" ++ type ++ codes "' is not iterable"
  | noSingle length =>
    codes "ord() expected a character, but string of length " ++ Text.decimal length ++
      codes " found"
  | noText type => codes "expected string or bytes-like object, got '" ++ type ++ codes "'"
  | table fault => fault.message

def kind : Fault → Text
  | table fault => fault.kind
  | f =>
    codes (match f.family with
      | .type => "TypeError"
      | .attribute => "AttributeError"
      | .index => "IndexError"
      | .overflow => "OverflowError"
      | _ => "ValueError")

end Fault

/-- What a call may end with: a fault, or an error that a caller's own code raises. Of that it
matters whether it is one of the ordinary errors, which are the ones that handlers take, and how it
is written, which may be an error again. -/
inductive Raised where
  | fault (f : Fault)
  | foreign (ordinary : Bool) (literal : Except Raised Text)

namespace Raised

/-- What a handler of ordinary errors writes for the error. Others go through it, and so does the
error of writing. -/
def handled : Raised → Except Raised Text
  | fault f => .ok (f.kind ++ codes "(" ++ Text.quoted f.message ++ codes ")")
  | foreign true literal => literal
  | e@(foreign false _) => .error e

end Raised

end Pictograph
