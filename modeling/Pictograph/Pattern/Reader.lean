import Pictograph.Pattern.Basic

/-!
Reading a pattern from its source text: escapes first, then the brackets of character classes and
the other signs, and last the nesting of groups, with a stack of the groups that are still open.
-/

namespace Pictograph.Pattern

/-- A code value given by number, or a character of the source. -/
inductive Glyph where
  | code (n : Nat)
  | char (c : Char)
  deriving DecidableEq, Repr

def Glyph.value : Glyph → Nat
  | code n => n
  | char c => c.toNat

def hexDigit? (c : Char) : Option Nat :=
  if '0' ≤ c ∧ c ≤ '9' then some (c.toNat - 0x30)
  else if 'a' ≤ c ∧ c ≤ 'f' then some (c.toNat - 0x61 + 10)
  else if 'A' ≤ c ∧ c ≤ 'F' then some (c.toNat - 0x41 + 10)
  else none

def hexValue? (digits : List Char) : Option Nat :=
  digits.foldlM (fun n c => (hexDigit? c).map (n * 16 + ·)) 0

/-- The source with every escape read. A sign after a backslash stands for itself. -/
def glyphs : List Char → Option (List Glyph)
  | [] => some []
  | '\\' :: 'x' :: a :: b :: rest => do
    let n ← hexValue? [a, b]
    return .code n :: (← glyphs rest)
  | '\\' :: 'u' :: a :: b :: c :: d :: rest => do
    let n ← hexValue? [a, b, c, d]
    return .code n :: (← glyphs rest)
  | '\\' :: 'U' :: a :: b :: c :: d :: e :: f :: g :: h :: rest => do
    let n ← hexValue? [a, b, c, d, e, f, g, h]
    if 0x10FFFF < n then none
    return .code n :: (← glyphs rest)
  | '\\' :: c :: rest => do
    if c.isAlphanum then none
    return .code c.toNat :: (← glyphs rest)
  | ['\\'] => none
  | c :: rest => do return .char c :: (← glyphs rest)

inductive Token where
  /-- A literal or a character class. -/
  | atom (p : Pattern)
  | opening (negative : Bool)
  | closing
  | bar
  | question
  deriving DecidableEq, Repr

def Glyph.isSign : Glyph → Bool
  | code _ => false
  | char c => ['(', ')', '[', '|', '?', '*', '+', '.', '^', '$'].contains c

/-- The tokens of a source; the class that is open holds the members read so far, the last one
first. A bracket that would close a class without members is a member itself. -/
def tokens : Option (List ClassItem) → List Glyph → Option (List Token)
  | none, [] => some []
  | none, .char '(' :: .char '?' :: .char ':' :: rest =>
    (tokens none rest).map (.opening false :: ·)
  | none, .char '(' :: .char '?' :: .char '!' :: rest =>
    (tokens none rest).map (.opening true :: ·)
  | none, .char ')' :: rest => (tokens none rest).map (.closing :: ·)
  | none, .char '|' :: rest => (tokens none rest).map (.bar :: ·)
  | none, .char '?' :: rest => (tokens none rest).map (.question :: ·)
  | none, .char '[' :: .char '^' :: _ => none
  | none, .char '[' :: rest => tokens (some []) rest
  | none, g :: rest =>
    if g.isSign then none else (tokens none rest).map (.atom (.symbol g.value) :: ·)
  | some _, [] => none
  | some (item :: items), .char ']' :: rest =>
    (tokens none rest).map (.atom (.oneOf (item :: items).reverse) :: ·)
  | some items, g :: .char '-' :: .char ']' :: rest =>
    (tokens none rest).map (.atom (.oneOf ((.one 0x2D :: .one g.value :: items).reverse)) :: ·)
  | some items, g :: .char '-' :: h :: rest =>
    if g.value ≤ h.value then tokens (some (.range g.value h.value :: items)) rest else none
  | some items, g :: rest => tokens (some (.one g.value :: items)) rest

/-- What stands before a group: its finished alternatives and the parts of the open one, both with
the last first. -/
structure Level where
  alternatives : List Pattern
  parts : List Pattern

namespace Level

def start : Level := ⟨[], []⟩

def close (l : Level) : Pattern := anyOf ((concat l.parts.reverse :: l.alternatives).reverse)

def add (l : Level) (p : Pattern) : Level := { l with parts := p :: l.parts }

end Level

def isQuantifiable : Pattern → Bool
  | symbol _ | oneOf _ | group _ => true
  | _ => false

/-- Reads the tokens on the innermost level, with the levels around it and the kinds of the groups
that they wait for. -/
def assemble : Level → List (Level × Bool) → List Token → Option Pattern
  | level, [], [] => some level.close
  | _, _ :: _, [] => none
  | level, outer, .atom p :: rest => assemble (level.add p) outer rest
  | level, outer, .opening negative :: rest => assemble .start ((level, negative) :: outer) rest
  | level, (above, negative) :: outer, .closing :: rest =>
    assemble (above.add (if negative then notAhead level.close else group level.close)) outer rest
  | _, [], .closing :: _ => none
  | level, outer, .bar :: rest =>
    assemble ⟨concat level.parts.reverse :: level.alternatives, []⟩ outer rest
  | level, outer, .question :: rest =>
    match level.parts with
    | p :: parts =>
      if p.isQuantifiable then assemble { level with parts := opt p :: parts } outer rest else none
    | [] => none

def read (source : List Char) : Option Pattern := do
  assemble .start [] (← tokens none (← glyphs source))

end Pictograph.Pattern
