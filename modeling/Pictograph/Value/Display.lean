import Pictograph.Decimal.Shortest
import Pictograph.Fault
import Pictograph.Value.Basic

/-!
The texts of a value: as itself, where a text stands unquoted, and as a literal, where it is
quoted. Inside lists and objects everything is a literal. No text has a number of more digits than
may be written, so a value that holds one has none.
-/

namespace Pictograph.Value

mutual

def literal : Value → Text
  | null => codes "None"
  | bool true => codes "True"
  | bool false => codes "False"
  | int n => Text.ofInt n
  | float x => Decimal.text x
  | text t => Text.quoted t
  | list items => codes "[" ++ literalItems items ++ codes "]"
  | object members => codes "\x7b" ++ literalMembers members ++ codes "\x7d"

def literalItems : List Value → Text
  | [] => []
  | [v] => literal v
  | v :: rest => literal v ++ codes ", " ++ literalItems rest

def literalMembers : List (Text × Value) → Text
  | [] => []
  | [(name, v)] => Text.quoted name ++ codes ": " ++ literal v
  | (name, v) :: rest =>
    Text.quoted name ++ codes ": " ++ literal v ++ codes ", " ++ literalMembers rest

end

def display : Value → Text
  | text t => t
  | v => literal v

mutual

/-- Has every number in the value few enough digits to be written? -/
def writable : Value → Bool
  | int n => (Nat.toDigits 10 n.natAbs).length ≤ digitLimit
  | list items => writableItems items
  | object members => writableMembers members
  | _ => true

def writableItems : List Value → Bool
  | [] => true
  | v :: rest => writable v && writableItems rest

def writableMembers : List (Text × Value) → Bool
  | [] => true
  | (_, v) :: rest => writable v && writableMembers rest

end

/-- The text that a form gives a value. All texts of values are made here. -/
def write (form : Value → Text) (v : Value) : Except Fault Text :=
  if v.writable then .ok (form v) else .error .longNumber

theorem write_of_writable {v : Value} (h : v.writable = true) (form : Value → Text) :
    v.write form = .ok (form v) := if_pos h

@[simp] theorem write_text (t : Text) (form : Value → Text) :
    (text t).write form = .ok (form (text t)) := rfl

theorem eq_of_write {form : Value → Text} {v : Value} {t : Text} (h : v.write form = .ok t) :
    t = form v := by
  unfold write at h
  split at h
  · exact (Except.ok.inj h).symm
  · cases h

theorem write_eq_error_iff {form : Value → Text} {v : Value} {f : Fault} :
    v.write form = .error f ↔ v.writable = false ∧ f = .longNumber := by
  unfold write
  cases v.writable <;> simp [eq_comm]

/-- Only numbers far from zero cannot be written, and so no value that counts as false. -/
theorem truthy_of_not_writable {v : Value} (h : v.writable = false) : v.truthy = true := by
  cases v with
  | int n =>
    rw [truthy, bne_iff_ne]
    rintro rfl
    cases h
  | list items =>
    cases items with
    | nil => cases h
    | cons _ _ => rfl
  | object members =>
    cases members with
    | nil => cases h
    | cons _ _ => rfl
  | _ => cases h

theorem mapM_write (form : Value → Text) (items : List Value) :
    items.mapM (·.write form) =
      if writableItems items then .ok (items.map form) else .error .longNumber := by
  induction items with
  | nil => rfl
  | cons v rest ih =>
    rw [List.mapM_cons, ih, write, writableItems]
    cases v.writable with
    | false => rfl
    | true => cases writableItems rest <;> rfl

theorem writableItems_iff {items : List Value} :
    writableItems items = true ↔ ∀ v ∈ items, v.writable = true := by
  induction items with
  | nil => simp [writableItems]
  | cons v rest ih => simp [writableItems, ih]

theorem writableMembers_iff {members : List (Text × Value)} :
    writableMembers members = true ↔ ∀ m ∈ members, m.2.writable = true := by
  induction members with
  | nil => simp [writableMembers]
  | cons m rest ih => simp [writableMembers, ih]

end Pictograph.Value
