import Pictograph.Pattern.Basic

/-!
Searching a text for a pattern. Matches do not overlap. An empty match may stand anywhere, also
right after a match that is not empty, but no two matches are at one place; where an empty match is
preferred, the search goes on with the next way of matching that uses something.
-/

namespace Pictograph

structure Found where
  text : Text
  start : Nat
  deriving DecidableEq, Repr

def Found.stop (f : Found) : Nat := f.start + f.text.length

namespace Pattern

def prefersEmpty (p : Pattern) (t : Text) : Bool :=
  p.search (fun n _ => some n) 0 t == some 0

/-- One less than the length of the first match at the front of a text that is not empty. -/
def advance? (p : Pattern) (t : Text) : Option Nat :=
  p.search (fun n _ => if n = 0 then none else some (n - 1)) 0 t

def fitsAt (p : Pattern) (t : Text) : Bool := (p.search (fun n _ => some n) 0 t).isSome

theorem prefersEmpty_eq (p : Pattern) (t : Text) :
    p.prefersEmpty t = ((p.rests t).head?.any fun r => r.length == t.length) := by
  rw [prefersEmpty, search_eq]
  cases h : p.rests t with
  | nil => rfl
  | cons r rest =>
    have := length_le_of_mem_rests (h ▸ List.mem_cons_self : r ∈ p.rests t)
    rw [Bool.eq_iff_iff]
    simp
    omega

theorem fitsAt_eq (p : Pattern) (t : Text) : p.fitsAt t = !(p.rests t).isEmpty := by
  rw [fitsAt, search_eq]
  cases p.rests t <;> simp

def emptyAt (p : Pattern) (place : Nat) (t : Text) : List Found :=
  if p.prefersEmpty t then [⟨[], place⟩] else []

/-- The matches in the rest of a text from a place on, after the given number of characters that
belong to the match before. -/
def findFrom (p : Pattern) : (place skip : Nat) → Text → List Found
  | _, _ + 1, [] => []
  | place, skip + 1, _ :: rest => findFrom p (place + 1) skip rest
  | place, 0, [] => p.emptyAt place []
  | place, 0, c :: rest =>
    p.emptyAt place (c :: rest) ++
      match p.advance? (c :: rest) with
      | some n => ⟨c :: rest.take n, place⟩ :: findFrom p (place + 1) n rest
      | none => findFrom p (place + 1) 0 rest

def find (p : Pattern) (t : Text) : List Found := p.findFrom 0 0 t

/-- A text cut at its matches: a gap before each match, and the rest after the last one. -/
structure Cut where
  parts : List (Text × Text)
  rest : Text
  deriving DecidableEq, Repr

def cutAt (place : Nat) (t : Text) : List Found → Cut
  | [] => ⟨[], t⟩
  | f :: more =>
    let gap := f.start - place
    let after := cutAt f.stop (t.drop (gap + f.text.length)) more
    ⟨(t.take gap, f.text) :: after.parts, after.rest⟩

def cut (p : Pattern) (t : Text) : Cut := cutAt 0 t (p.find t)

def test (p : Pattern) : Text → Bool
  | [] => p.fitsAt []
  | c :: rest => p.fitsAt (c :: rest) || test p rest

/-- The rest of a text with every match replaced, after the given number of characters that belong
to the match before. -/
def replaceFrom [Monad m] (p : Pattern) (f : Text → m Text) : (skip : Nat) → Text → m Text
  | _ + 1, [] => pure []
  | skip + 1, _ :: rest => replaceFrom p f skip rest
  | 0, [] => if p.prefersEmpty [] then f [] else pure []
  | 0, c :: rest => do
    let front ← if p.prefersEmpty (c :: rest) then f [] else pure []
    match p.advance? (c :: rest) with
    | some n =>
      let middle ← f (c :: rest.take n)
      return front ++ middle ++ (← replaceFrom p f n rest)
    | none => return front ++ c :: (← replaceFrom p f 0 rest)

def replaceM [Monad m] (p : Pattern) (f : Text → m Text) (t : Text) : m Text :=
  p.replaceFrom f 0 t

def replace (p : Pattern) (f : Text → Text) (t : Text) : Text := p.replaceM (m := Id) f t

end Pattern

end Pictograph
