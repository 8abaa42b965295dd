import Pictograph.Value.Basic
import Pictograph.Decimal.Shortest

/-!
JSON text of a value on one line. Only the quotation mark, the backslash and the control
characters are escaped; a comma and a colon are followed by a space.
-/

namespace Pictograph.Value

def jsonChar (c : Nat) : Text :=
  if c = 0x22 then codes "\\\""
  else if c = 0x5C then codes "\\\\"
  else if c = 0x0A then codes "\\n"
  else if c = 0x0D then codes "\\r"
  else if c = 0x09 then codes "\\t"
  else if c = 0x0C then codes "\\f"
  else if c = 0x08 then codes "\\b"
  else if c < 0x20 then codes "\\u" ++ Text.padZeros 4 (Text.hex c)
  else [c]

def jsonString (t : Text) : Text := codes "\"" ++ t.flatMap jsonChar ++ codes "\""

/-- The shortest digits; the numbers beyond all digits by their names. -/
def jsonFloat (x : Float) : Text :=
  match Decimal.Exact.ofFloat x with
  | .nan => codes "NaN"
  | .infinite negative => codes (if negative then "-Infinity" else "Infinity")
  | .finite .. => Decimal.text x

mutual

def json : Value → Text
  | null => codes "null"
  | bool true => codes "true"
  | bool false => codes "false"
  | int n => Text.ofInt n
  | float x => jsonFloat x
  | text t => jsonString t
  | list items => codes "[" ++ jsonItems items ++ codes "]"
  | object members => codes "\x7b" ++ jsonMembers members ++ codes "\x7d"

def jsonItems : List Value → Text
  | [] => []
  | [v] => json v
  | v :: rest => json v ++ codes ", " ++ jsonItems rest

def jsonMembers : List (Text × Value) → Text
  | [] => []
  | [(name, v)] => jsonString name ++ codes ": " ++ json v
  | (name, v) :: rest =>
    jsonString name ++ codes ": " ++ json v ++ codes ", " ++ jsonMembers rest

end

theorem jsonChar_of_control : ∀ c < 0x20, ∀ d ∈ jsonChar c, 0x20 ≤ d := by decide

/-- No control character is left, so a JSON string stays on its line. -/
theorem le_of_mem_jsonChar {c d : Nat} (h : d ∈ jsonChar c) : 0x20 ≤ d := by
  by_cases hc : c < 0x20
  · exact jsonChar_of_control c hc d h
  · unfold jsonChar at h
    split at h
    · revert h; revert d; decide
    split at h
    · revert h; revert d; decide
    repeat' (split at h; · omega)
    simp at h
    omega

end Pictograph.Value
