import Pictograph.Text.Basic

/-!
Patterns over code values and what they match. A pattern relates a text to the rests it can leave,
in the order in which a backtracking search tries them: alternatives from left to right, an
optional part first with and then without. A search goes through the rests in this order up to the
first that is accepted.
-/

namespace Pictograph

inductive ClassItem where
  | one (c : Nat)
  | range (first last : Nat)
  deriving DecidableEq, Repr

inductive Pattern where
  | empty
  | symbol (c : Nat)
  | oneOf (items : List ClassItem)
  | seq (first second : Pattern)
  | alt (first second : Pattern)
  | group (body : Pattern)
  | opt (body : Pattern)
  | notAhead (body : Pattern)
  deriving DecidableEq, Repr

namespace ClassItem

def has : ClassItem → Nat → Bool
  | one c, d => c == d
  | range first last, d => first ≤ d && d ≤ last

end ClassItem

namespace Pattern

def concat : List Pattern → Pattern
  | [] => empty
  | [p] => p
  | p :: rest => seq p (concat rest)

def anyOf : List Pattern → Pattern
  | [] => empty
  | [p] => p
  | p :: rest => alt p (anyOf rest)

/-- The rests that the pattern can leave of a text, the preferred one first. -/
def rests : Pattern → Text → List Text
  | empty, t => [t]
  | symbol c, d :: t => if c = d then [t] else []
  | symbol _, [] => []
  | oneOf items, d :: t => if items.any (·.has d) then [t] else []
  | oneOf _, [] => []
  | seq p q, t => (p.rests t).flatMap q.rests
  | alt p q, t => p.rests t ++ q.rests t
  | group p, t => p.rests t
  | opt p, t => p.rests t ++ [t]
  | notAhead p, t => if (p.rests t).isEmpty then [t] else []

/-- The first way of matching that is accepted, in the order of preference; none is looked at after
it. `accept` is given how many characters are used and the rest. -/
def search : Pattern → (accept : Nat → Text → Option Nat) → (used : Nat) → Text → Option Nat
  | empty, accept, n, t => accept n t
  | symbol c, accept, n, d :: t => if c = d then accept (n + 1) t else none
  | symbol _, _, _, [] => none
  | oneOf items, accept, n, d :: t => if items.any (·.has d) then accept (n + 1) t else none
  | oneOf _, _, _, [] => none
  | seq p q, accept, n, t => p.search (q.search accept) n t
  | alt p q, accept, n, t => (p.search accept n t).orElse fun _ => q.search accept n t
  | group p, accept, n, t => p.search accept n t
  | opt p, accept, n, t => (p.search accept n t).orElse fun _ => accept n t
  | notAhead p, accept, n, t =>
    if (p.search (fun m _ => some m) n t).isNone then accept n t else none

def fullMatches (p : Pattern) (t : Text) : Bool :=
  (p.search (fun n r => if r.isEmpty then some n else none) 0 t).isSome

theorem suffix_of_mem_rests {p : Pattern} {t r : Text} (h : r ∈ p.rests t) : r <:+ t := by
  induction p generalizing t r with
  | empty => simp_all [rests]
  | symbol c =>
    cases t with
    | nil => simp [rests] at h
    | cons d t =>
      simp only [rests] at h
      split at h
      · rw [List.mem_singleton.1 h]
        exact List.suffix_cons d t
      · simp at h
  | oneOf items =>
    cases t with
    | nil => simp [rests] at h
    | cons d t =>
      simp only [rests] at h
      split at h
      · rw [List.mem_singleton.1 h]
        exact List.suffix_cons d t
      · simp at h
  | seq p q hp hq =>
    obtain ⟨m, hm, hr⟩ := List.mem_flatMap.1 h
    exact (hq hr).trans (hp hm)
  | alt p q hp hq =>
    rcases List.mem_append.1 h with h | h
    · exact hp h
    · exact hq h
  | group p hp => exact hp h
  | opt p hp =>
    rcases List.mem_append.1 h with h | h
    · exact hp h
    · exact List.mem_singleton.1 h ▸ List.suffix_rfl
  | notAhead p hp =>
    simp only [rests] at h
    split at h
    · exact List.mem_singleton.1 h ▸ List.suffix_rfl
    · simp at h

theorem length_le_of_mem_rests {p : Pattern} {t r : Text} (h : r ∈ p.rests t) :
    r.length ≤ t.length :=
  (suffix_of_mem_rests h).length_le

theorem findSome?_eq_of_mem {f g : Text → Option Nat} {l : List Text}
    (h : ∀ r ∈ l, f r = g r) : l.findSome? f = l.findSome? g := by
  induction l with
  | nil => rfl
  | cons r l ih =>
    simp only [List.findSome?_cons, h r List.mem_cons_self,
      ih fun r' h' => h r' (List.mem_cons_of_mem r h')]

theorem findSome?_flatMap (f : Text → Option Nat) (g : Text → List Text) (l : List Text) :
    (l.flatMap g).findSome? f = l.findSome? fun m => (g m).findSome? f := by
  induction l with
  | nil => rfl
  | cons m l ih =>
    rw [List.flatMap_cons, List.findSome?_append, ih, List.findSome?_cons]
    cases (g m).findSome? f <;> rfl

/-- The search gives what is accepted of the first rest of which anything is. -/
theorem search_eq (p : Pattern) (accept : Nat → Text → Option Nat) (n : Nat) (t : Text) :
    p.search accept n t =
      (p.rests t).findSome? fun r => accept (n + (t.length - r.length)) r := by
  induction p generalizing accept n t with
  | empty => simp [search, rests]
  | symbol c =>
    cases t with
    | nil => simp [search, rests]
    | cons d t =>
      by_cases h : c = d <;> simp [search, rests, h]
  | oneOf items =>
    cases t with
    | nil => simp [search, rests]
    | cons d t =>
      cases h : items.any (·.has d) <;> simp [search, rests, h]
  | seq p q hp hq =>
    rw [search, hp, rests, findSome?_flatMap]
    refine findSome?_eq_of_mem fun m hm => ?_
    rw [hq]
    refine findSome?_eq_of_mem fun r hr => ?_
    have h₁ := length_le_of_mem_rests hm
    have h₂ := length_le_of_mem_rests hr
    congr 1
    omega
  | alt p q hp hq => simp [search, rests, hp, hq, List.findSome?_append, Option.orElse_eq_or]
  | group p hp => simp [search, rests, hp]
  | opt p hp => simp [search, rests, hp, List.findSome?_append, Option.orElse_eq_or]
  | notAhead p hp =>
    rw [search, hp]
    cases h : p.rests t <;> simp [rests, h]

theorem fullMatches_iff {p : Pattern} {t : Text} : p.fullMatches t = true ↔ [] ∈ p.rests t := by
  rw [fullMatches, search_eq, List.findSome?_isSome_iff]
  constructor
  · rintro ⟨r, hr, h⟩
    cases r with
    | nil => exact hr
    | cons c r => simp at h
  · intro h
    exact ⟨[], h, by simp⟩

end Pattern

end Pictograph
