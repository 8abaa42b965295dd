import Mathlib.Data.List.Basic
import Mathlib.Tactic.IntervalCases
import Pictograph.Decimal.Reading
import Pictograph.Proofs.Json.Numeral
import Pictograph.Value.Json

/-!
JSON texts read back. The reader looks at one character after the other and keeps the lists and
objects that are still open on a stack. What is written for a value is read as the value, with every
number as its numeral, so nothing in a name or a text stands out of its place.
-/

namespace Pictograph

/-- What a JSON text says. The members of an object keep their order, and repeated names. -/
inductive Json where
  | null
  | bool (b : Bool)
  | number (numeral : Text)
  | text (t : Text)
  | list (items : List Json)
  | object (members : List (Text × Json))

namespace Json

/-! ## The reader -/

inductive Token where
  | listStart
  | listEnd
  | objectStart
  | objectEnd
  | comma
  | colon
  | text (t : Text)
  | word (w : Text)

def sign? (c : Nat) : Option Token :=
  if c = 0x5B then some .listStart
  else if c = 0x5D then some .listEnd
  else if c = 0x7B then some .objectStart
  else if c = 0x7D then some .objectEnd
  else if c = 0x2C then some .comma
  else if c = 0x3A then some .colon
  else none

def isBlank (c : Nat) : Bool := c == 0x20 || c == 0x09 || c == 0x0A || c == 0x0D

def isPlain (c : Nat) : Bool := !isBlank c && (sign? c).isNone && c != 0x22

/-- A word is one of three names or a numeral. -/
def word? (w : Text) : Option Json :=
  if w = codes "null" then some .null
  else if w = codes "true" then some (.bool true)
  else if w = codes "false" then some (.bool false)
  else if isNumeral w then some (.number w)
  else none

/-- A list or an object that is still open, with what it holds so far, the last first. An object
waits for the value of a member. -/
inductive Frame where
  | list (items : List Json)
  | member (members : List (Text × Json)) (name : Text)

/-- What comes next: a value, or the end of a list that has nothing in it yet; the name of a member,
or the end of an object that has none yet; the colon behind a name; or what follows a value. -/
inductive Next where
  | value (orEnd : Bool)
  | name (members : List (Text × Json)) (orEnd : Bool)
  | colon (members : List (Text × Json)) (name : Text)
  | behind (v : Json)

structure State where
  next : Next
  frames : List Frame

def State.take : State → Token → Option State
  | ⟨.value _, frames⟩, .word w => (word? w).map fun v => ⟨.behind v, frames⟩
  | ⟨.value _, frames⟩, .text t => some ⟨.behind (.text t), frames⟩
  | ⟨.value _, frames⟩, .listStart => some ⟨.value true, .list [] :: frames⟩
  | ⟨.value _, frames⟩, .objectStart => some ⟨.name [] true, frames⟩
  | ⟨.value true, .list items :: frames⟩, .listEnd =>
    some ⟨.behind (.list items.reverse), frames⟩
  | ⟨.name members _, frames⟩, .text t => some ⟨.colon members t, frames⟩
  | ⟨.name members true, frames⟩, .objectEnd => some ⟨.behind (.object members.reverse), frames⟩
  | ⟨.colon members name, frames⟩, .colon => some ⟨.value false, .member members name :: frames⟩
  | ⟨.behind v, .list items :: frames⟩, .comma => some ⟨.value false, .list (v :: items) :: frames⟩
  | ⟨.behind v, .list items :: frames⟩, .listEnd =>
    some ⟨.behind (.list (v :: items).reverse), frames⟩
  | ⟨.behind v, .member members name :: frames⟩, .comma =>
    some ⟨.name ((name, v) :: members) false, frames⟩
  | ⟨.behind v, .member members name :: frames⟩, .objectEnd =>
    some ⟨.behind (.object ((name, v) :: members).reverse), frames⟩
  | _, _ => none

def State.pass (s : State) (c : Nat) : Option State :=
  if isBlank c then some s else (sign? c).bind s.take

def escapes : List (Nat × Nat) :=
  [(0x22, 0x22), (0x5C, 0x5C), (0x2F, 0x2F), (0x62, 0x08), (0x66, 0x0C), (0x6E, 0x0A),
    (0x72, 0x0D), (0x74, 0x09)]

/-- Where the reader is: between tokens, in a word, in a text, or in an escape of a text. -/
inductive Place where
  | between
  | inWord (w : Text)
  | inText (t : Text)
  | escape (t : Text)
  /-- In an escape by number, with the digits that are still to come and the number so far. -/
  | number (t : Text) (digits n : Nat)

def Place.escaped (t : Text) (c : Nat) : Option Place :=
  if c = 0x75 then some (.number t 4 0)
  else (escapes.lookup c).map fun d => .inText (t ++ [d])

/-- The place after a digit of an escape by number. Halves of pairs have no such escape. -/
def Place.numbered (t : Text) (digits n c : Nat) : Option Place := do
  let m := n * 16 + (← Decimal.digit? 16 c)
  if 1 < digits then return .number t (digits - 1) m
  if Text.isSurrogate m then none
  return .inText (t ++ [m])

def readFrom : Place → State → Text → Option State
  | .between, s, [] => some s
  | .inWord w, s, [] => s.take (.word w)
  | _, _, [] => none
  | .between, s, c :: rest =>
    if isPlain c then readFrom (.inWord [c]) s rest
    else if c = 0x22 then readFrom (.inText []) s rest
    else (s.pass c).bind fun s => readFrom .between s rest
  | .inWord w, s, c :: rest =>
    if isPlain c then readFrom (.inWord (w ++ [c])) s rest
    else if c = 0x22 then none
    else ((s.take (.word w)).bind (·.pass c)).bind fun s => readFrom .between s rest
  | .inText t, s, c :: rest =>
    if c = 0x22 then (s.take (.text t)).bind fun s => readFrom .between s rest
    else if c = 0x5C then readFrom (.escape t) s rest
    else if c < 0x20 then none
    else readFrom (.inText (t ++ [c])) s rest
  | .escape t, s, c :: rest => (Place.escaped t c).bind fun p => readFrom p s rest
  | .number t digits n, s, c :: rest =>
    (Place.numbered t digits n c).bind fun p => readFrom p s rest

def read (t : Text) : Option Json :=
  match readFrom .between ⟨.value false, []⟩ t with
  | some ⟨.behind v, []⟩ => some v
  | _ => none

end Json

/-! ## What a value says -/

namespace Value

mutual

def toJson : Value → Json
  | null => .null
  | bool b => .bool b
  | int n => .number (Text.ofInt n)
  | float x => .number (Decimal.text x)
  | text t => .text t
  | list items => .list (toJsonItems items)
  | object members => .object (toJsonMembers members)

def toJsonItems : List Value → List Json
  | [] => []
  | v :: rest => toJson v :: toJsonItems rest

def toJsonMembers : List (Text × Value) → List (Text × Json)
  | [] => []
  | (name, v) :: rest => (name, toJson v) :: toJsonMembers rest

end

mutual

/-- Can the value stand in a JSON text? All numbers in it must be finite. -/
def IsJson : Value → Prop
  | float x => ∃ negative mantissa exponent,
      Decimal.Exact.ofFloat x = .finite negative mantissa exponent
  | list items => IsJsonItems items
  | object members => IsJsonMembers members
  | _ => True

def IsJsonItems : List Value → Prop
  | [] => True
  | v :: rest => IsJson v ∧ IsJsonItems rest

def IsJsonMembers : List (Text × Value) → Prop
  | [] => True
  | (_, v) :: rest => IsJson v ∧ IsJsonMembers rest

end

end Value

namespace Json

variable {s : State} {w t rest : Text}

/-! ## Words -/

theorem isPlain_of_isNumeral (h : isNumeral w = true) : ∀ c ∈ w, isPlain c = true := by
  have plain : ∀ c ∈ alphabet, isPlain c = true := by decide
  exact fun c hc => plain c (mem_alphabet h c hc)

theorem word?_of_isNumeral (h : isNumeral w = true) : word? w = some (.number w) := by
  have names : ∀ name ∈ [codes "null", codes "true", codes "false"], isNumeral name = false := by
    decide
  have other : ∀ name ∈ [codes "null", codes "true", codes "false"], w ≠ name := by
    rintro name known rfl
    rw [names w known] at h
    cases h
  unfold word?
  rw [if_neg (other _ (by simp)), if_neg (other _ (by simp)), if_neg (other _ (by simp)), if_pos h]

def Ends (rest : Text) : Prop := ∀ c ∈ rest.head?, isPlain c = false ∧ c ≠ 0x22

theorem readFrom_pass {c : Nat} (h : isPlain c = false ∧ c ≠ 0x22) :
    readFrom .between s (c :: rest) = (s.pass c).bind fun s => readFrom .between s rest := by
  simp [readFrom, h]

theorem readFrom_inWord {u : Text} (plain : ∀ c ∈ u, isPlain c = true) :
    readFrom (.inWord w) s (u ++ rest) = readFrom (.inWord (w ++ u)) s rest := by
  induction u generalizing w with
  | nil => rw [List.append_nil]; rfl
  | cons c u ih =>
    obtain ⟨first, later⟩ := List.forall_mem_cons.1 plain
    have step : readFrom (.inWord w) s (c :: (u ++ rest)) =
        readFrom (.inWord (w ++ [c])) s (u ++ rest) := if_pos first
    rw [List.cons_append, step, ih later, List.append_assoc]
    rfl

theorem readFrom_word (plain : ∀ c ∈ w, isPlain c = true) (ne : w ≠ []) (ends : Ends rest) :
    readFrom .between s (w ++ rest) =
      (s.take (.word w)).bind fun s => readFrom .between s rest := by
  cases w with
  | nil => exact absurd rfl ne
  | cons c w =>
    obtain ⟨first, later⟩ := List.forall_mem_cons.1 plain
    have step : readFrom .between s (c :: (w ++ rest)) = readFrom (.inWord [c]) s (w ++ rest) :=
      if_pos first
    rw [List.cons_append, step, readFrom_inWord later]
    show readFrom (.inWord (c :: w)) s rest = _
    cases rest with
    | nil =>
      show s.take (.word (c :: w)) = (s.take (.word (c :: w))).bind some
      rw [Option.bind_fun_some]
    | cons d rest =>
      have stop := ends d rfl
      have behind : ∀ s' : State, readFrom .between s' (d :: rest) = _ := fun s' =>
        readFrom_pass stop
      simp only [behind, ← Option.bind_assoc]
      simp [readFrom, stop]

/-! ## Texts -/

theorem readFrom_jsonChar (t : Text) (s : State) (c : Nat) (rest : Text) :
    readFrom (.inText t) s (Value.jsonChar c ++ rest) = readFrom (.inText (t ++ [c])) s rest := by
  by_cases control : c < 0x20
  · interval_cases c <;> rfl
  · by_cases quote : c = 0x22
    · rw [quote]
      rfl
    · by_cases backslash : c = 0x5C
      · rw [backslash]
        rfl
      · have same : Value.jsonChar c = [c] := by
          unfold Value.jsonChar
          iterate 8 rw [if_neg (by omega)]
        rw [same, List.singleton_append, readFrom, if_neg quote, if_neg backslash, if_neg control]

theorem readFrom_inText (t u : Text) (s : State) (rest : Text) :
    readFrom (.inText t) s (u.flatMap Value.jsonChar ++ rest) =
      readFrom (.inText (t ++ u)) s rest := by
  induction u generalizing t with
  | nil => rw [List.append_nil]; rfl
  | cons c u ih =>
    rw [List.flatMap_cons, List.append_assoc, readFrom_jsonChar, ih, List.append_assoc]
    rfl

theorem readFrom_jsonString (t : Text) (s : State) (rest : Text) :
    readFrom .between s (Value.jsonString t ++ rest) =
      (s.take (.text t)).bind fun s => readFrom .between s rest := by
  rw [Value.jsonString, List.append_assoc, List.append_assoc]
  show readFrom (.inText []) s (t.flatMap Value.jsonChar ++ 0x22 :: rest) = _
  rw [readFrom_inText]
  rfl

/-! ## Values -/

theorem ends_cons {c : Nat} (h : isPlain c = false ∧ c ≠ 0x22) : Ends (c :: rest) := by
  intro d hd
  cases hd
  exact h

theorem readFrom_scalar {v : Json} {orEnd : Bool} {frames : List Frame} (word : word? w = some v)
    (plain : ∀ c ∈ w, isPlain c = true) (ne : w ≠ []) (ends : Ends rest) :
    readFrom .between ⟨.value orEnd, frames⟩ (w ++ rest) =
      readFrom .between ⟨.behind v, frames⟩ rest := by
  have taken : State.take ⟨.value orEnd, frames⟩ (.word w) = some ⟨.behind v, frames⟩ := by
    rw [State.take, word]
    rfl
  rw [readFrom_word plain ne ends, taken]
  rfl

theorem readFrom_numeral {orEnd : Bool} {frames : List Frame} (h : isNumeral w = true)
    (ends : Ends rest) : readFrom .between ⟨.value orEnd, frames⟩ (w ++ rest) =
      readFrom .between ⟨.behind (.number w), frames⟩ rest := by
  refine readFrom_scalar (word?_of_isNumeral h) (isPlain_of_isNumeral h) ?_ ends
  rintro rfl
  cases h

theorem jsonFloat_of_finite {x : Float} {negative : Bool} {mantissa : Nat} {exponent : Int}
    (finite : Decimal.Exact.ofFloat x = .finite negative mantissa exponent) :
    Value.jsonFloat x = Decimal.text x := by
  rw [Value.jsonFloat, finite]

theorem ends_comma (rest : Text) : Ends (codes ", " ++ rest) := ends_cons (by decide)

theorem readFrom_listComma (v : Json) (before : List Json) (frames : List Frame) (rest : Text) :
    readFrom .between ⟨.behind v, .list before :: frames⟩ (codes ", " ++ rest) =
      readFrom .between ⟨.value false, .list (v :: before) :: frames⟩ rest := rfl

theorem readFrom_listEnd (v : Json) (before : List Json) (frames : List Frame) (rest : Text) :
    readFrom .between ⟨.behind v, .list before :: frames⟩ (0x5D :: rest) =
      readFrom .between ⟨.behind (.list (before.reverse ++ [v])), frames⟩ rest := by
  rw [← List.reverse_cons]
  rfl

theorem readFrom_memberComma (v : Json) (before : List (Text × Json)) (name : Text)
    (frames : List Frame) (rest : Text) :
    readFrom .between ⟨.behind v, .member before name :: frames⟩ (codes ", " ++ rest) =
      readFrom .between ⟨.name ((name, v) :: before) false, frames⟩ rest := rfl

theorem readFrom_objectEnd (v : Json) (before : List (Text × Json)) (name : Text)
    (frames : List Frame) (rest : Text) :
    readFrom .between ⟨.behind v, .member before name :: frames⟩ (0x7D :: rest) =
      readFrom .between ⟨.behind (.object (before.reverse ++ [(name, v)])), frames⟩ rest := by
  rw [← List.reverse_cons]
  rfl

theorem readFrom_name (before : List (Text × Json)) (orEnd : Bool) (name : Text)
    (frames : List Frame) (rest : Text) :
    readFrom .between ⟨.name before orEnd, frames⟩
        (Value.jsonString name ++ (codes ": " ++ rest)) =
      readFrom .between ⟨.value false, .member before name :: frames⟩ rest := by
  rw [readFrom_jsonString]
  cases orEnd <;> rfl

open Value

mutual

theorem readFrom_json : ∀ v : Value, v.IsJson →
    ∀ (orEnd : Bool) (frames : List Frame) (rest : Text), Ends rest →
    readFrom .between ⟨.value orEnd, frames⟩ (v.json ++ rest) =
      readFrom .between ⟨.behind v.toJson, frames⟩ rest
  | .null, _, _, _, _, ends => readFrom_scalar (w := codes "null") rfl (by decide) (by decide) ends
  | .bool true, _, _, _, _, ends =>
    readFrom_scalar (w := codes "true") rfl (by decide) (by decide) ends
  | .bool false, _, _, _, _, ends =>
    readFrom_scalar (w := codes "false") rfl (by decide) (by decide) ends
  | .int n, _, _, _, _, ends => readFrom_numeral (isNumeral_ofInt n) ends
  | .float x, ⟨_, _, _, finite⟩, _, _, _, ends => by
    rw [json, jsonFloat_of_finite finite]
    exact readFrom_numeral (isNumeral_text finite) ends
  | .text t, _, _, _, rest, _ => readFrom_jsonString t _ rest
  | .list [], _, _, _, _, _ => rfl
  | .list (v :: items), h, _, frames, rest, _ => by
    rw [json, List.append_assoc, List.append_assoc]
    exact readFrom_jsonItems (v :: items) (List.cons_ne_nil _ _) h true [] frames rest
  | .object [], _, _, _, _, _ => rfl
  | .object (m :: members), h, _, frames, rest, _ => by
    rw [json, List.append_assoc, List.append_assoc]
    exact readFrom_jsonMembers (m :: members) (List.cons_ne_nil _ _) h true [] frames rest

theorem readFrom_jsonItems : ∀ items : List Value, items ≠ [] → IsJsonItems items →
    ∀ (orEnd : Bool) (before : List Json) (frames : List Frame) (rest : Text),
    readFrom .between ⟨.value orEnd, .list before :: frames⟩ (jsonItems items ++ 0x5D :: rest) =
      readFrom .between ⟨.behind (.list (before.reverse ++ toJsonItems items)), frames⟩ rest
  | [], ne, _, _, _, _, _ => absurd rfl ne
  | [v], _, h, _, before, frames, rest => by
    rw [jsonItems, readFrom_json v h.1 _ _ _ (ends_cons (by decide)), readFrom_listEnd]
    rfl
  | v :: w :: items, _, h, _, before, frames, rest => by
    rw [jsonItems, List.append_assoc, List.append_assoc,
      readFrom_json v h.1 _ _ _ (ends_comma _), readFrom_listComma,
      readFrom_jsonItems (w :: items) (List.cons_ne_nil _ _) h.2, List.reverse_cons,
      List.append_assoc]
    · rfl
    · exact List.cons_ne_nil w items

theorem readFrom_jsonMembers : ∀ members : List (Text × Value), members ≠ [] →
    IsJsonMembers members →
    ∀ (orEnd : Bool) (before : List (Text × Json)) (frames : List Frame) (rest : Text),
    readFrom .between ⟨.name before orEnd, frames⟩ (jsonMembers members ++ 0x7D :: rest) =
      readFrom .between ⟨.behind (.object (before.reverse ++ toJsonMembers members)), frames⟩ rest
  | [], ne, _, _, _, _, _ => absurd rfl ne
  | [(name, v)], _, h, _, before, frames, rest => by
    rw [jsonMembers, List.append_assoc, List.append_assoc, readFrom_name,
      readFrom_json v h.1 _ _ _ (ends_cons (by decide)), readFrom_objectEnd]
    rfl
  | (name, v) :: m :: members, _, h, _, before, frames, rest => by
    rw [jsonMembers, List.append_assoc, List.append_assoc, List.append_assoc, List.append_assoc,
      readFrom_name, readFrom_json v h.1 _ _ _ (ends_comma _), readFrom_memberComma,
      readFrom_jsonMembers (m :: members) (List.cons_ne_nil _ _) h.2, List.reverse_cons,
      List.append_assoc]
    · rfl
    · exact List.cons_ne_nil m members

end

/-- The JSON text of a value is read as the value. -/
theorem read_json {v : Value} (h : v.IsJson) : read v.json = some v.toJson := by
  have whole := readFrom_json v h false [] [] (by simp [Ends])
  rw [List.append_nil] at whole
  rw [read, whole]
  rfl

/-! Texts that no value is written as: one that is read as a text all the same, and two that are not
JSON. -/

example : read (codes " [\"\\u0041\\/\" ] ") = some (.list [.text (codes "A/")]) := rfl
example : read (codes "[null,]") = none := rfl
example : read (codes "[01]") = none := rfl

end Json

end Pictograph
