import Pictograph.Text.Printable

/-!
Texts that cannot be written as bytes: lone surrogates have none, unless the writer lets some pass.
-/

namespace Pictograph.Text

/-- A run of lone surrogates in a text, from one place to another; the first of them is `code`. -/
structure Unwritable where
  code : Nat
  first : Nat
  last : Nat
  deriving DecidableEq, Repr

/-- Where a text cannot be written, if some surrogates pass. -/
def unwritable? (passes : Nat → Bool) (t : Text) : Option Unwritable :=
  let fits := fun c => !isSurrogate c || passes c
  match t.dropWhile fits with
  | [] => none
  | c :: rest =>
    let first := (t.takeWhile fits).length
    some ⟨c, first, first + (rest.takeWhile isSurrogate).length⟩

namespace Unwritable

def message (u : Unwritable) : Text :=
  codes "'utf-8' codec can't encode character" ++
    (if u.first = u.last then codes " '" ++ numbered u.code ++ codes "' in position "
      else codes "s in position ") ++
    decimal u.first ++ (if u.first = u.last then [] else codes "-" ++ decimal u.last) ++
    codes ": surrogates not allowed"

end Unwritable

example : unwritable? (fun _ => false) (codes "a") = none := by decide
example : unwritable? (fun _ => false) [0x61, 0xD800, 0xDC00, 0x62] = some ⟨0xD800, 1, 2⟩ := by
  decide
example : unwritable? (· == 0xDC80) [0xDC80, 0xD800] = some ⟨0xD800, 1, 1⟩ := by decide

end Pictograph.Text
