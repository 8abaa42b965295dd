import Pictograph.Decimal.Fixed
import Pictograph.Decimal.Reading
import Pictograph.Log.Fault

/-!
Messages with arguments. A percent sign starts a directive: flags, a width, a precision and the
letter of a conversion; it takes the next argument, or a member of the one object given. Two percent
signs stand for one.
-/

namespace Pictograph.Log

structure Flags where
  left : Bool
  sign : Bool
  blank : Bool
  alternate : Bool
  zero : Bool

def Flags.none : Flags := ⟨false, false, false, false, false⟩

structure Directive where
  flags : Flags
  width : Nat
  precision : Option Nat
  conversion : Nat

structure Arguments where
  queue : List Value
  /-- The members that directives with a key take. -/
  members : Option (List (Text × Value))

namespace Arguments

/-- A single object that is not empty gives its members; anything else is taken in order. -/
def of : List Value → Arguments
  | [.object (m :: ms)] => ⟨[.object (m :: ms)], some (m :: ms)⟩
  | args => ⟨args, .none⟩

def next (a : Arguments) : Except Fault (Value × Arguments) :=
  match a.queue with
  | v :: rest => .ok (v, { a with queue := rest })
  | [] => .error .tooFewArguments

end Arguments

/-! ## Directives -/

/-- The key up to the closing parenthesis, inner ones counted, and the rest. -/
def takeKey (depth : Nat) (key : Text) : Text → Except Fault (Text × Text)
  | [] => .error .openKey
  | 0x29 :: rest =>
    match depth with
    | 0 => .ok (key.reverse, rest)
    | depth + 1 => takeKey depth (0x29 :: key) rest
  | 0x28 :: rest => takeKey (depth + 1) (0x28 :: key) rest
  | c :: rest => takeKey depth (c :: key) rest

def takeFlags (f : Flags) : Text → Flags × Text
  | 0x2D :: rest => takeFlags { f with left := true } rest
  | 0x2B :: rest => takeFlags { f with sign := true } rest
  | 0x20 :: rest => takeFlags { f with blank := true } rest
  | 0x23 :: rest => takeFlags { f with alternate := true } rest
  | 0x30 :: rest => takeFlags { f with zero := true } rest
  | t => (f, t)

def isDigit (c : Nat) : Bool := 0x30 ≤ c && c ≤ 0x39

def takeNumber (t : Text) : Nat × Text :=
  (Decimal.ofDigits 10 ((t.takeWhile isDigit).map (· - 0x30)), t.dropWhile isDigit)

def widthLimit : Nat := 0x7FFFFFFFFFFFFFFF

def precisionLimit : Nat := 0x7FFFFFFF

/-- The largest precision of a whole number, which leaves room for a sign and a mark. -/
def digitPrecisionLimit : Nat := precisionLimit - 3

def roomLimit : Nat := 0xFFFFFFFF

/-- A whole number taken from the arguments in the place of a star, unless it is beyond the limit
on either side. -/
def starred (limit : Nat) (excess : Fault) (a : Arguments) : Except Fault (Int × Arguments) := do
  let (v, a) ← a.next
  match v with
  | .int n => if -(limit : Int) - 1 ≤ n ∧ n ≤ limit then return (n, a) else throw excess
  | .bool b => return (if b then 1 else 0, a)
  | _ => throw .starNeedsInt

/-- The width of a directive; a negative one asks for text on the left. The least number has no
positive partner within the limit and counts as no width. -/
def takeWidth (f : Flags) (t : Text) (a : Arguments) :
    Except Fault (Flags × Nat × Text × Arguments) :=
  match t with
  | 0x2A :: rest => do
    let (n, a) ← starred widthLimit .starWidth a
    let width := if n.natAbs ≤ widthLimit then n.natAbs else 0
    return (if n < 0 then { f with left := true } else f, width, rest, a)
  | t =>
    let (n, rest) := takeNumber t
    if widthLimit < n then .error .hugeWidth else .ok (f, n, rest, a)

def takePrecision (t : Text) (a : Arguments) : Except Fault (Option Nat × Text × Arguments) :=
  match t with
  | 0x2E :: 0x2A :: rest => do
    let (n, a) ← starred precisionLimit (.number .beyondWord) a
    return (some n.toNat, rest, a)
  | 0x2E :: rest =>
    let (n, rest) := takeNumber rest
    if precisionLimit < n then .error .hugePrecision else .ok (some n, rest, a)
  | t => .ok (.none, t, a)

/-- A letter for a size, which means nothing, is skipped. -/
def dropSize : Text → Text
  | 0x68 :: rest | 0x6C :: rest | 0x4C :: rest => rest
  | t => t

/-! ## Conversions -/

/-- A converted argument before it is padded: its sign, the mark of its base and its digits. -/
structure Converted where
  sign : Text
  mark : Text
  body : Text
  /-- May zeros stand before the body? -/
  numeric : Bool

namespace Converted

def plain (t : Text) : Converted := ⟨[], [], t, false⟩

def signOf (f : Flags) (negative : Bool) : Text :=
  if negative then codes "-" else if f.sign then codes "+" else if f.blank then codes " " else []

/-- Pads to the width: blanks outside, or zeros between the sign and the digits. -/
def pad (d : Directive) (c : Converted) : Text :=
  let missing := d.width - (c.sign.length + c.mark.length + c.body.length)
  if d.flags.left then c.sign ++ c.mark ++ c.body ++ List.replicate missing 0x20
  else if c.numeric && d.flags.zero then
    c.sign ++ c.mark ++ List.replicate missing 0x30 ++ c.body
  else List.replicate missing 0x20 ++ c.sign ++ c.mark ++ c.body

end Converted

def capitals (t : Text) : Text := t.map fun c => if 0x61 ≤ c && c ≤ 0x7A then c - 0x20 else c

def wholeNumber (conversion : Nat) (v : Value) : Except Fault Int :=
  let inBase := conversion == 0x6F || conversion == 0x78 || conversion == 0x58
  match v with
  | .int n => .ok n
  | .bool b => .ok (if b then 1 else 0)
  | .float x =>
    if inBase then .error (.needsInteger conversion v.typeName)
    else
      match (Value.float x).toInt with
      | .ok n => .ok n
      | .error f => .error (.number f)
  | v =>
    .error (if inBase then .needsInteger conversion v.typeName
      else .needsReal conversion v.typeName)

def convertInt (d : Directive) (v : Value) : Except Fault Converted := do
  let n ← wholeNumber d.conversion v
  if digitPrecisionLimit < d.precision.getD 0 then throw .longPrecision
  let base := if d.conversion = 0x6F then 8
    else if d.conversion = 0x78 ∨ d.conversion = 0x58 then 16 else 10
  if base = 10 ∧ !(Value.int n).writable then throw (.number .longNumber)
  let digits := Text.padZeros (d.precision.getD 0) ((Nat.toDigits base n.natAbs).map Char.toNat)
  let mark := if !d.flags.alternate then []
    else if base = 8 then codes "0o" else if base = 16 then codes "0x" else []
  let caps := fun t => if d.conversion = 0x58 then capitals t else t
  return ⟨Converted.signOf d.flags (n < 0), caps mark, caps digits, true⟩

def realNumber (v : Value) : Except Fault Float :=
  match v with
  | .float x => .ok x
  | .int n =>
    match Decimal.ofInt? n with
    | some x => .ok x
    | none => .error .noFloat
  | .bool b => .ok (if b then 1.0 else 0.0)
  | v => .error (.noReal v.typeName)

/-- A floating-point number with places, with an exponent, or in the shorter of both ways. Before an
exponent the largest precision counts as none. -/
def convertFloat (d : Directive) (v : Value) : Except Fault Converted := do
  let x ← realNumber v
  let small := d.conversion % 0x20 + 0x60
  let caps := fun t => if d.conversion = small then t else capitals t
  let given := d.precision.getD 6
  let precision := if small = 0x65 ∧ given = precisionLimit then 0 else given
  match Decimal.Exact.ofFloat x with
  | .nan => return ⟨Converted.signOf d.flags false, [], caps (codes "nan"), true⟩
  | .infinite negative => return ⟨Converted.signOf d.flags negative, [], caps (codes "inf"), true⟩
  | .finite negative mantissa exponent =>
    let r := Decimal.Ratio.scaled mantissa exponent
    let body :=
      if small = 0x65 then Decimal.scientificText r precision d.flags.alternate
      else if small = 0x66 then Decimal.fixedText r precision d.flags.alternate
      else Decimal.generalText r precision d.flags.alternate
    return ⟨Converted.signOf d.flags negative, [], caps body, true⟩

def convertChar (v : Value) : Except Fault Converted :=
  match v with
  | .text [c] => .ok (.plain [c])
  | .int n =>
    if n < 0 ∨ 0x10FFFF < n then .error .characterRange else .ok (.plain [n.toNat])
  | .bool b => .ok (.plain [if b then 1 else 0])
  | _ => .error .noCharacter

def convertText (d : Directive) (t : Text) : Converted :=
  .plain (match d.precision with
    | some n => t.take n
    | none => t)

def asciiOnly (t : Text) : Text := t.flatMap fun c => if c < 0x80 then [c] else Text.numbered c

def isConversion (c : Nat) : Bool := (codes "sradiuoxXeEfFgGc").contains c

def convert (d : Directive) (v : Value) : Except Fault Converted :=
  let is := fun (letters : String) => (codes letters).contains d.conversion
  if is "s" then (write Value.display v).map (convertText d)
  else if is "r" then (write Value.literal v).map (convertText d)
  else if is "a" then (write Value.literal v).map fun t => convertText d (asciiOnly t)
  else if is "diuoxX" then convertInt d v
  else if is "eEfFgG" then convertFloat d v
  else convertChar v

/-! ## Whole messages -/

/-- What a directive writes, given the text after its percent sign, with the text after the
directive and the arguments left. `length` is the length of the whole message. -/
def directive (length : Nat) (t : Text) (a : Arguments) :
    Except Fault (Text × Text × Arguments) := do
  let (t, a) ←
    match t with
    | 0x28 :: rest =>
      match a.members with
      | .none => throw .needsMapping
      | some members => do
        let (key, rest) ← takeKey 0 [] rest
        match members.lookup key with
        | some v => pure (rest, { a with queue := [v] })
        | none => throw (.missingKey key)
    | t => pure (t, a)
  let (flags, t) := takeFlags .none t
  let (flags, width, t, a) ← takeWidth flags t a
  let (precision, t, a) ← takePrecision t a
  match dropSize t with
  | [] => throw .unfinished
  | c :: rest =>
    let (v, a) ← a.next
    if !isConversion c then throw (.unknownDirective c (length - rest.length - 1))
    let d : Directive := ⟨flags, width, precision, c⟩
    let converted ← convert d v
    if roomLimit < width then throw .noRoom
    return (converted.pad d, rest, a)

/-- Writes a message; no directive is empty, so the fuel of one unit a character suffices. -/
def formatFrom (length : Nat) : (fuel : Nat) → Text → Arguments → Except Fault Text
  | 0, _, _ => .ok []
  | fuel + 1, t, a =>
    match t with
    | [] =>
      if a.members.isNone ∧ !a.queue.isEmpty then .error .tooManyArguments else .ok []
    | 0x25 :: 0x25 :: rest => do return 0x25 :: (← formatFrom length fuel rest a)
    | 0x25 :: rest => do
      let (text, rest, a) ← directive length rest a
      return text ++ (← formatFrom length fuel rest a)
    | c :: rest => do return c :: (← formatFrom length fuel rest a)

/-- The message with its arguments put in. Without arguments it is left as it is. -/
def format (message : Text) (args : List Value) : Except Fault Text :=
  if args.isEmpty then .ok message
  else formatFrom message.length (message.length + 1) message (.of args)

end Pictograph.Log
