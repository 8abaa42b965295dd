import Mathlib.Data.List.Basic
import Pictograph.Classify.Gender

/-!
The shapes of gendered sequences. A sequence is led by a person, or it ends in a sign after a
selector or in a bare sign; each shape says which siblings it needs and, for one member of a family,
what is left without the gender.
-/

namespace Pictograph

def people : List Char := [man, woman, person]

def signs : List Char := [femaleSign, maleSign]

namespace Shape

/-- Do a person and a joiner stand first? -/
def Led (p : List Char) : Prop := ∃ g ∈ people, ∃ r, p = g :: zwj :: r

theorem led_cons (a : Char) (p : List Char) : Led (a :: p) ↔ a ∈ people ∧ p.head? = some zwj := by
  unfold Led
  cases p with
  | nil => simp
  | cons b r =>
    constructor
    · intro h
      obtain ⟨g, hg, r', e⟩ := h
      simp only [List.cons.injEq] at e
      obtain ⟨rfl, rfl, -⟩ := e
      exact ⟨hg, rfl⟩
    · intro h
      obtain ⟨ha, hb⟩ := h
      refine ⟨a, ha, r, ?_⟩
      rw [Option.some.inj hb]

theorem led_append_sign (x : List Char) (s s' : Char) :
    Led (x ++ [zwj, s, vs16]) ↔ Led (x ++ [zwj, s', vs16]) := by
  match x with
  | [] =>
    have joiner : zwj ∉ people := by decide
    simp only [List.nil_append, led_cons, joiner, false_and]
  | [a] => simp only [List.cons_append, List.nil_append, led_cons, List.head?_cons]
  | a :: b :: x => simp only [List.cons_append, led_cons, List.head?_cons]

theorem led_append_variant_sign (x : List Char) (s s' : Char) :
    Led (x ++ [vs16, zwj, s, vs16]) ↔ Led (x ++ [vs16, zwj, s', vs16]) := by
  have h := led_append_sign (x ++ [vs16]) s s'
  simpa only [List.append_assoc, List.singleton_append] using h

theorem of?_man (r : List Char) :
    of? (man :: zwj :: r) = some ⟨[woman :: zwj :: r, person :: zwj :: r], none⟩ := by
  simp [of?, List.isPrefixOf, withHead]

theorem of?_woman (r : List Char) :
    of? (woman :: zwj :: r) = some ⟨[man :: zwj :: r, person :: zwj :: r], none⟩ := by
  have other : (man == woman) = false := by decide
  simp [of?, List.isPrefixOf, withHead, other]

theorem of?_person (r : List Char) :
    of? (person :: zwj :: r) =
      some ⟨[man :: zwj :: r, woman :: zwj :: r], some (.leading, r)⟩ := by
  have other : (man == person) = false := by decide
  have other' : (woman == person) = false := by decide
  simp [of?, List.isPrefixOf, withHead, other, other']

private theorem isPrefixOf_eq_false {p : List Char} (h : ¬ Led p) {g : Char} (hg : g ∈ people) :
    [g, zwj].isPrefixOf p = false := by
  rw [Bool.eq_false_iff]
  intro first
  obtain ⟨r, rfl⟩ := List.isPrefixOf_iff_prefix.1 first
  exact h ⟨g, hg, r, rfl⟩

theorem of?_eq_of_not_led {p : List Char} (h : ¬ Led p) :
    of? p =
      if [vs16, zwj, maleSign, vs16].isSuffixOf p then
        some ⟨[withSign femaleSign p], some (.trailingWithVariant, dropLast 4 p)⟩
      else if [vs16, zwj, femaleSign, vs16].isSuffixOf p then
        some ⟨[withSign maleSign p], none⟩
      else if [zwj, maleSign, vs16].isSuffixOf p then
        some ⟨[withSign femaleSign p], some (.trailing, dropLast 3 p)⟩
      else if [zwj, femaleSign, vs16].isSuffixOf p then some ⟨[withSign maleSign p], none⟩
      else none := by
  have first := isPrefixOf_eq_false h (g := man) (by decide)
  have second := isPrefixOf_eq_false h (g := woman) (by decide)
  have third := isPrefixOf_eq_false h (g := person) (by decide)
  unfold of?
  simp only [first, second, third, Bool.false_eq_true, ↓reduceIte]

private theorem isSuffixOf_eq_false {x a b : List Char} (length : a.length = b.length)
    (ne : a ≠ b) : a.isSuffixOf (x ++ b) = false := by
  rw [Bool.eq_false_iff]
  intro last
  have suffix := List.suffix_of_suffix_length_le (List.isSuffixOf_iff_suffix.1 last)
    (List.suffix_append x b) (by omega)
  exact ne (suffix.eq_of_length length)

private theorem isSuffixOf_append (x b : List Char) : b.isSuffixOf (x ++ b) = true :=
  List.isSuffixOf_iff_suffix.2 (List.suffix_append x b)

private theorem withSign_append (x : List Char) (s s' : Char) :
    withSign s' (x ++ [s, vs16]) = x ++ [s', vs16] := by
  have length : (x ++ [s, vs16]).length - 2 = x.length := by simp
  rw [withSign, length, List.take_left]

private theorem withSign_variant (x : List Char) (s s' : Char) :
    withSign s' (x ++ [vs16, zwj, s, vs16]) = x ++ [vs16, zwj, s', vs16] := by
  have h := withSign_append (x ++ [vs16, zwj]) s s'
  simpa only [List.append_assoc, List.cons_append, List.nil_append] using h

private theorem withSign_bare (x : List Char) (s s' : Char) :
    withSign s' (x ++ [zwj, s, vs16]) = x ++ [zwj, s', vs16] := by
  have h := withSign_append (x ++ [zwj]) s s'
  simpa only [List.append_assoc, List.cons_append, List.nil_append] using h

theorem of?_variant_male {x : List Char} (h : ¬ Led (x ++ [vs16, zwj, maleSign, vs16])) :
    of? (x ++ [vs16, zwj, maleSign, vs16]) =
      some ⟨[x ++ [vs16, zwj, femaleSign, vs16]], some (.trailingWithVariant, x)⟩ := by
  rw [of?_eq_of_not_led h, if_pos (isSuffixOf_append _ _), withSign_variant]
  simp [dropLast]

theorem of?_variant_female {x : List Char} (h : ¬ Led (x ++ [vs16, zwj, femaleSign, vs16])) :
    of? (x ++ [vs16, zwj, femaleSign, vs16]) =
      some ⟨[x ++ [vs16, zwj, maleSign, vs16]], none⟩ := by
  have male := isSuffixOf_eq_false (x := x) (a := [vs16, zwj, maleSign, vs16])
    (b := [vs16, zwj, femaleSign, vs16]) rfl (by decide)
  rw [of?_eq_of_not_led h, male, if_neg (by decide), if_pos (isSuffixOf_append _ _),
    withSign_variant]

private theorem isSuffixOf_variant_eq_false {x : List Char} (bare : x.getLast? ≠ some vs16)
    (s s' : Char) : [vs16, zwj, s, vs16].isSuffixOf (x ++ [zwj, s', vs16]) = false := by
  rw [Bool.eq_false_iff]
  intro last
  obtain ⟨y, e⟩ := List.isSuffixOf_iff_suffix.1 last
  have split : (y ++ [vs16]) ++ [zwj, s, vs16] = x ++ [zwj, s', vs16] := by simpa using e
  rw [← (List.append_inj' split rfl).1] at bare
  simp at bare

theorem of?_male {x : List Char} (h : ¬ Led (x ++ [zwj, maleSign, vs16]))
    (bare : x.getLast? ≠ some vs16) :
    of? (x ++ [zwj, maleSign, vs16]) =
      some ⟨[x ++ [zwj, femaleSign, vs16]], some (.trailing, x)⟩ := by
  rw [of?_eq_of_not_led h, isSuffixOf_variant_eq_false bare, isSuffixOf_variant_eq_false bare,
    if_neg (by decide), if_neg (by decide), if_pos (isSuffixOf_append _ _), withSign_bare]
  simp [dropLast]

theorem of?_female {x : List Char} (h : ¬ Led (x ++ [zwj, femaleSign, vs16]))
    (bare : x.getLast? ≠ some vs16) :
    of? (x ++ [zwj, femaleSign, vs16]) = some ⟨[x ++ [zwj, maleSign, vs16]], none⟩ := by
  have male := isSuffixOf_eq_false (x := x) (a := [zwj, maleSign, vs16])
    (b := [zwj, femaleSign, vs16]) rfl (by decide)
  rw [of?_eq_of_not_led h, isSuffixOf_variant_eq_false bare, isSuffixOf_variant_eq_false bare,
    male, if_neg (by decide), if_neg (by decide), if_neg (by decide),
    if_pos (isSuffixOf_append _ _), withSign_bare]

/-- The seven shapes of gendered sequences. A person in front counts before a sign at the end, and a
sign after a selector before a bare one. -/
inductive Fits : List Char → Shape → Prop where
  | man (r : List Char) :
      Fits (man :: zwj :: r) ⟨[woman :: zwj :: r, person :: zwj :: r], none⟩
  | woman (r : List Char) :
      Fits (woman :: zwj :: r) ⟨[Pictograph.man :: zwj :: r, person :: zwj :: r], none⟩
  | person (r : List Char) :
      Fits (person :: zwj :: r)
        ⟨[Pictograph.man :: zwj :: r, Pictograph.woman :: zwj :: r], some (.leading, r)⟩
  | variantMale (x : List Char) (h : ¬ Led (x ++ [vs16, zwj, maleSign, vs16])) :
      Fits (x ++ [vs16, zwj, maleSign, vs16])
        ⟨[x ++ [vs16, zwj, femaleSign, vs16]], some (.trailingWithVariant, x)⟩
  | variantFemale (x : List Char) (h : ¬ Led (x ++ [vs16, zwj, femaleSign, vs16])) :
      Fits (x ++ [vs16, zwj, femaleSign, vs16]) ⟨[x ++ [vs16, zwj, maleSign, vs16]], none⟩
  | male (x : List Char) (h : ¬ Led (x ++ [zwj, maleSign, vs16]))
      (bare : x.getLast? ≠ some vs16) :
      Fits (x ++ [zwj, maleSign, vs16]) ⟨[x ++ [zwj, femaleSign, vs16]], some (.trailing, x)⟩
  | female (x : List Char) (h : ¬ Led (x ++ [zwj, femaleSign, vs16]))
      (bare : x.getLast? ≠ some vs16) :
      Fits (x ++ [zwj, femaleSign, vs16]) ⟨[x ++ [zwj, maleSign, vs16]], none⟩

theorem Fits.of?_eq {p : List Char} {shape : Shape} (h : Fits p shape) : of? p = some shape := by
  cases h with
  | man r => exact of?_man r
  | woman r => exact of?_woman r
  | person r => exact of?_person r
  | variantMale x h => exact of?_variant_male h
  | variantFemale x h => exact of?_variant_female h
  | male x h bare => exact of?_male h bare
  | female x h bare => exact of?_female h bare

theorem exists_fits_of_sign {p : List Char} (led : ¬ Led p) {s : Char} (hs : s ∈ signs)
    (last : [zwj, s, vs16] <:+ p) : ∃ shape, Fits p shape := by
  obtain ⟨x, rfl⟩ := last
  have sign : s = femaleSign ∨ s = maleSign := by simpa [signs] using hs
  by_cases variant : x.getLast? = some vs16
  · obtain ⟨y, rfl⟩ := List.getLast?_eq_some_iff.1 variant
    rw [List.append_assoc, List.singleton_append] at led ⊢
    rcases sign with rfl | rfl
    · exact ⟨_, .variantFemale y led⟩
    · exact ⟨_, .variantMale y led⟩
  · rcases sign with rfl | rfl
    · exact ⟨_, .female x led variant⟩
    · exact ⟨_, .male x led variant⟩

theorem exists_fits_of_of? {p : List Char} {shape : Shape} (h : of? p = some shape) :
    ∃ shape, Fits p shape := by
  by_cases led : Led p
  · obtain ⟨g, hg, r, rfl⟩ := led
    simp only [people, List.mem_cons, List.not_mem_nil, or_false] at hg
    rcases hg with rfl | rfl | rfl
    · exact ⟨_, .man r⟩
    · exact ⟨_, .woman r⟩
    · exact ⟨_, .person r⟩
  · have sign := fun {s : Char} (hs : s ∈ signs) (last : [zwj, s, vs16].isSuffixOf p = true) =>
      exists_fits_of_sign led hs (List.isSuffixOf_iff_suffix.1 last)
    have variant : ∀ {s : Char}, s ∈ signs → [vs16, zwj, s, vs16].isSuffixOf p = true →
        ∃ shape, Fits p shape := by
      intro s hs last
      have suffix := List.isSuffixOf_iff_suffix.1 last
      exact exists_fits_of_sign led hs ((List.suffix_cons vs16 _).trans suffix)
    rw [of?_eq_of_not_led led] at h
    split at h
    · next last => exact variant (by decide) last
    · split at h
      · next last => exact variant (by decide) last
      · split at h
        · next last => exact sign (by decide) last
        · split at h
          · next last => exact sign (by decide) last
          · cases h

theorem of?_eq_some_iff {p : List Char} {shape : Shape} : of? p = some shape ↔ Fits p shape := by
  constructor
  · intro h
    obtain ⟨shape', fits⟩ := exists_fits_of_of? h
    rw [fits.of?_eq] at h
    rwa [← Option.some.inj h]
  · exact Fits.of?_eq

end Shape

end Pictograph
