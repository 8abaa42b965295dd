import Pictograph.Proofs.Pattern.Replaced

/-!
Searches for matches, by whatever means: to find all matches of a text, to test for one, and to
replace them are one search, whose matches stand where they are found. A pattern is such a search.
-/

namespace Pictograph

open Pattern

structure Matcher where
  find : Text → List Found
  test : Text → Bool
  replaceM {m : Type → Type} [Monad m] (f : Text → m Text) (t : Text) : m Text
  standing_find (t : Text) : Standing t (find t)
  test_iff_find {t : Text} : test t = true ↔ find t ≠ []
  replaceM_eq {m : Type → Type} [Monad m] [LawfulMonad m] (f : Text → m Text) (t : Text) :
    replaceM f t = (cutAt 0 t (find t)).fillM f

def Pattern.matcher (p : Pattern) : Matcher where
  find := p.find
  test := p.test
  replaceM := p.replaceM
  standing_find := p.standing_find
  test_iff_find := Pattern.test_iff_find
  replaceM_eq := p.replaceM_eq

namespace Matcher

variable (p : Matcher)

def cut (t : Text) : Cut := cutAt 0 t (p.find t)

def replace (f : Text → Text) (t : Text) : Text := p.replaceM (m := Id) f t

theorem joined_cut (t : Text) : joined (p.cut t).parts (p.cut t).rest = t :=
  (p.standing_find t).joined_cutAt fun f _ => Nat.zero_le f.start

theorem located_cut (t : Text) : located 0 (p.cut t).parts = p.find t :=
  (p.standing_find t).located_cutAt fun f _ => Nat.zero_le f.start

theorem matches_cut (t : Text) : (p.cut t).parts.map (·.2) = (p.find t).map (·.text) :=
  matches_cutAt (p.find t) 0 t

theorem text_eq_nil_of_mem_find {f : Found} (h : f ∈ p.find []) : f.text = [] := by
  obtain ⟨-, there⟩ := (p.standing_find []).there f h
  rw [List.drop_nil] at there
  exact List.prefix_nil.1 there

end Matcher

end Pictograph
