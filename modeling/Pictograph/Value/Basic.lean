import Pictograph.Text.Basic

/-!
Loose values: the cells of a table row, the answers of a callback, the extra fields of a log line.
An object keeps its members in order.
-/

namespace Pictograph

inductive Value where
  | null
  | bool (b : Bool)
  | int (n : Int)
  | float (x : Float)
  | text (t : Text)
  | list (items : List Value)
  | object (members : List (Text × Value))
  deriving Inhabited

namespace Value

def typeName : Value → Text
  | null => codes "NoneType"
  | bool _ => codes "bool"
  | int _ => codes "int"
  | float _ => codes "float"
  | text _ => codes "str"
  | list _ => codes "list"
  | object _ => codes "dict"

def truthy : Value → Bool
  | null => false
  | bool b => b
  | int n => n != 0
  | float x => !(x == 0.0)
  | text t => !t.isEmpty
  | list items => !items.isEmpty
  | object members => !members.isEmpty

/-- The member of an object with a name; a missing one is null. -/
def member (name : Text) (members : List (Text × Value)) : Value :=
  (members.lookup name).getD null

/-- What a loop over the value sees, if it can be looped over: the characters of a text, the names
of an object. -/
def elements? : Value → Option (List Value)
  | list items => some items
  | text t => some (t.map fun c => text [c])
  | object members => some (members.map fun m => text m.1)
  | _ => none

end Value

/-- Sets a member: a name that is already there keeps its place. -/
def setMember (members : List (Text × α)) (name : Text) (value : α) : List (Text × α) :=
  match members with
  | [] => [(name, value)]
  | (n, v) :: rest =>
    if n = name then (n, value) :: rest else (n, v) :: setMember rest name value

/-- The members of a list of pairs: the first place and the last value of each name. -/
def membersOf (pairs : List (Text × α)) : List (Text × α) :=
  pairs.foldl (fun members p => setMember members p.1 p.2) []

theorem names_setMember (members : List (Text × α)) (name : Text) (value : α) :
    (setMember members name value).map (·.1) =
      if name ∈ members.map (·.1) then members.map (·.1) else members.map (·.1) ++ [name] := by
  induction members with
  | nil => rfl
  | cons m rest ih =>
    obtain ⟨n, v⟩ := m
    by_cases here : n = name
    · simp [setMember, here]
    · have there : name ∈ ((n, v) :: rest).map (·.1) ↔ name ∈ rest.map (·.1) := by
        rw [List.map_cons, List.mem_cons, or_iff_right (Ne.symm here)]
      rw [setMember, if_neg here, List.map_cons, ih, apply_ite (n :: ·)]
      simp only [there]
      rfl

theorem mem_names_setMember {members : List (Text × α)} {name n : Text} {value : α} :
    n ∈ (setMember members name value).map (·.1) ↔ n ∈ members.map (·.1) ∨ n = name := by
  rw [names_setMember]
  split
  case isTrue there =>
    exact ⟨.inl, fun h => h.elim id fun same => same ▸ there⟩
  case isFalse => rw [List.mem_append, List.mem_singleton]

theorem nodup_names_setMember {members : List (Text × α)} (once : (members.map (·.1)).Nodup)
    (name : Text) (value : α) : ((setMember members name value).map (·.1)).Nodup := by
  rw [names_setMember]
  split
  case isTrue => exact once
  case isFalse new =>
    rw [List.nodup_append]
    refine ⟨once, List.pairwise_singleton _ _, ?_⟩
    intro n here m last
    rw [List.mem_singleton] at last
    exact fun same => new (last ▸ same ▸ here)

theorem lookup_setMember_self (members : List (Text × α)) (name : Text) (value : α) :
    (setMember members name value).lookup name = some value := by
  induction members with
  | nil => simp [setMember]
  | cons m rest ih =>
    obtain ⟨n, v⟩ := m
    by_cases h : n = name
    · simp [setMember, h]
    · have h' : (name == n) = false := by simpa using fun e => h e.symm
      simp [setMember, h, List.lookup_cons, h', ih]

theorem lookup_setMember_of_ne (members : List (Text × α)) {name other : Text} (value : α)
    (h : other ≠ name) : (setMember members name value).lookup other = members.lookup other := by
  have hb : (other == name) = false := by simpa using h
  induction members with
  | nil => simp [setMember, List.lookup_cons, hb]
  | cons m rest ih =>
    obtain ⟨n, v⟩ := m
    by_cases hn : n = name
    · subst hn
      simp [setMember, List.lookup_cons, hb]
    · simp only [setMember, hn, if_false, List.lookup_cons]
      cases other == n <;> simp [ih]

end Pictograph
