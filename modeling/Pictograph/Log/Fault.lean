import Pictograph.Value.Display

/-!
What can go wrong when an event is logged or written, by cause, and the message of each cause.
-/

namespace Pictograph.Log

inductive Fault where
  | needsMapping
  | openKey
  | missingKey (name : Text)
  | starNeedsInt
  | hugeWidth
  | hugePrecision
  | longPrecision
  | starWidth
  | noRoom
  | unfinished
  | unknownDirective (c index : Nat)
  | tooFewArguments
  | tooManyArguments
  | needsReal (conversion : Nat) (type : Text)
  | needsInteger (conversion : Nat) (type : Text)
  | noReal (type : Text)
  | noCharacter
  | characterRange
  | noFloat
  | number (fault : Pictograph.Fault)
  | noMoment
  | yearRange (year : Int)
  | timeRange
  | clockRange
  | reservedField (name : Text)
  | unknownLevel (name : Text)
  | doubledLogger
  | levelNotWhole
  | unordered (type : Text)
  | unhashable (type : Text)
  /-- A field that JSON has no name for. -/
  | badName (type : Text)
  /-- A field that holds itself. -/
  | circular
  deriving DecidableEq, Repr

inductive Family where
  | value
  | type
  | overflow
  | key
  | memory
  | system
  deriving DecidableEq, Repr

namespace Fault

def family : Fault → Family
  | needsMapping | starNeedsInt | tooFewArguments | tooManyArguments | needsReal ..
  | needsInteger .. | noReal _ | noCharacter | doubledLogger | levelNotWhole | unordered _
  | unhashable _ | badName _ => .type
  | longPrecision | starWidth | characterRange | noFloat | timeRange => .overflow
  | number f =>
    match f.family with
    | .overflow => .overflow
    | .type => .type
    | _ => .value
  | missingKey _ | reservedField _ => .key
  | noRoom => .memory
  | clockRange => .system
  | _ => .value

def plainOrMark (c : Nat) : Nat := if 0x1F ≤ c && c ≤ 0x7E then c else 0x3F

/-- A missing key and a reserved field are quoted as a whole. -/
def message : Fault → Text
  | needsMapping => codes "format requires a mapping"
  | openKey => codes "incomplete format key"
  | missingKey name => Text.quoted name
  | starNeedsInt => codes "* wants int"
  | hugeWidth => codes "width too big"
  | hugePrecision => codes "precision too big"
  | longPrecision => codes "precision too large"
  | starWidth => codes "Python int too large to convert to C ssize_t"
  | noRoom => []
  | unfinished => codes "incomplete format"
  | unknownDirective c index =>
    codes "unsupported format character '" ++ [plainOrMark c] ++ codes "' (" ++
      Text.markedHex c ++ codes ") at index " ++ Text.decimal index
  | tooFewArguments => codes "not enough arguments for format string"
  | tooManyArguments => codes "not all arguments converted during string formatting"
  | needsReal conversion type =>
    codes "%" ++ [conversion] ++ codes " format: a real number is required, not " ++ type
  | needsInteger conversion type =>
    codes "%" ++ [conversion] ++ codes " format: an integer is required, not " ++ type
  | noReal type => codes "must be real number, not " ++ type
  | noCharacter => codes "%c requires int or char"
  | characterRange => codes "%c arg not in range(0x110000)"
  | noFloat => codes "int too large to convert to float"
  | number f => f.message
  | noMoment => codes "Invalid value NaN (not a number)"
  | yearRange year => codes "year " ++ Text.ofInt year ++ codes " is out of range"
  | timeRange => codes "timestamp out of range for platform time_t"
  | clockRange => codes "[Errno 75] Value too large for defined data type"
  | reservedField name =>
    Text.quoted (codes "Attempt to overwrite " ++ Text.quoted name ++ codes " in LogRecord")
  | unknownLevel name => codes "Unknown level: " ++ Text.quoted name
  | doubledLogger => codes "bind() got multiple values for argument 'logger'"
  | levelNotWhole => codes "level must be an integer"
  | unordered type =>
    codes "'>=' not supported between instances of 'int' and '" ++ type ++ codes "'"
  | unhashable type => codes "unhashable type: '" ++ type ++ codes "'"
  | badName type =>
    codes "keys must be str, int, float, bool or None, not " ++ type
  | circular => codes "Circular reference detected"

end Fault

def write (form : Value → Text) (v : Value) : Except Fault Text :=
  (v.write form).mapError .number

theorem write_eq_ok_iff {form : Value → Text} {v : Value} {t : Text} :
    write form v = .ok t ↔ v.writable = true ∧ t = form v := by
  unfold write Value.write
  cases v.writable with
  | true =>
    refine ⟨fun same => ⟨rfl, (Except.ok.inj same).symm⟩, fun both => ?_⟩
    rw [both.2]
    rfl
  | false =>
    refine ⟨fun same => ?_, fun both => ?_⟩
    · cases same
    · cases both.1

end Pictograph.Log
