import Mathlib.Computability.Language
import Pictograph.Proofs.Classify.Gender

/-!
What a table recognises. Every class has its own words, made of its sequences and of what may stand
around them; a table recognises the words of all its classes.
-/

namespace Pictograph

def anyChar (cs : List Char) : Language Char := {w | ∃ c ∈ cs, w = [c]}

@[simp] theorem mem_anyChar {cs : List Char} {w : List Char} :
    w ∈ anyChar cs ↔ ∃ c ∈ cs, w = [c] := Iff.rfl

theorem nil_mem_mul {K L : Language Char} : [] ∈ K * L ↔ [] ∈ K ∧ [] ∈ L := by
  simp [Language.mem_mul]

namespace Class

def rank (c : Class) : Nat := all.idxOf c

def words (c : Class) (sequences : Language Char) : Language Char :=
  let tone := anyChar skinTones
  let selector := anyChar [vs16]
  let toneOrSelector := anyChar (vs16 :: skinTones)
  let joiner := anyChar [zwj]
  let sign := anyChar [femaleSign, maleSign]
  match c with
  | multiDiversity | joined | normal => sequences
  | leadingGender => anyChar [man, woman, person] * (tone + 1) * joiner * sequences
  | trailingGenderWithVariant => sequences * (toneOrSelector + 1) * joiner * sign * (selector + 1)
  | trailingGender => sequences * (tone + 1) * joiner * sign * (selector + 1)
  | keycap => sequences * (selector + 1) * anyChar [Pictograph.keycap]
  | variantDiversity => sequences * (toneOrSelector + 1)
  | diversity => sequences * (tone + 1)
  | textDefault => sequences * selector
  | variant => sequences * (selector + 1)

/-- The words that count in front of a rest: where the plain picture is asked for, a variant needs
its own selector. -/
def wordsBefore (c : Class) (sequences : Language Char) (rest : Text) : Language Char :=
  if c = variant ∧ rest.head? = some vs15.toNat then sequences * anyChar [vs16]
  else c.words sequences

@[simp] theorem wordsBefore_nil (c : Class) (sequences : Language Char) :
    c.wordsBefore sequences [] = c.words sequences := by
  simp [wordsBefore]

theorem wordsBefore_congr (c : Class) (sequences : Language Char) {rest rest' : Text}
    (same : rest.head? = rest'.head?) :
    c.wordsBefore sequences rest = c.wordsBefore sequences rest' := by
  unfold wordsBefore
  rw [same]

theorem wordsBefore_of_head?_ne (c : Class) (sequences : Language Char) {rest : Text}
    (other : rest.head? ≠ some vs15.toNat) : c.wordsBefore sequences rest = c.words sequences := by
  unfold wordsBefore
  rw [if_neg fun h => other h.2]

theorem wordsBefore_zero (c : Class) (rest : Text) : c.wordsBefore 0 rest = 0 := by
  unfold wordsBefore
  split
  · rw [zero_mul]
  · cases c <;> simp [words]

theorem nil_mem_of_mem_words {c : Class} {sequences : Language Char} (h : [] ∈ c.words sequences) :
    [] ∈ sequences := by
  cases c with
  | multiDiversity => exact h
  | joined => exact h
  | normal => exact h
  | leadingGender => exact (nil_mem_mul.1 h).2
  | trailingGenderWithVariant =>
    exact (nil_mem_mul.1 (nil_mem_mul.1 (nil_mem_mul.1 (nil_mem_mul.1 h).1).1).1).1
  | trailingGender =>
    exact (nil_mem_mul.1 (nil_mem_mul.1 (nil_mem_mul.1 (nil_mem_mul.1 h).1).1).1).1
  | keycap => exact (nil_mem_mul.1 (nil_mem_mul.1 h).1).1
  | variantDiversity => exact (nil_mem_mul.1 h).1
  | diversity => exact (nil_mem_mul.1 h).1
  | textDefault => exact (nil_mem_mul.1 h).1
  | variant => exact (nil_mem_mul.1 h).1

theorem nil_mem_of_mem_wordsBefore {c : Class} {sequences : Language Char} {rest : Text}
    (h : [] ∈ c.wordsBefore sequences rest) : [] ∈ sequences := by
  unfold wordsBefore at h
  split at h
  · exact (nil_mem_mul.1 h).1
  · exact nil_mem_of_mem_words h

theorem exists_of_mem_words {c : Class} {sequences : Language Char} {w : List Char}
    (h : w ∈ c.words sequences) : ∃ x, x ∈ sequences := by
  by_contra none
  have empty : sequences = 0 := by
    ext x
    exact iff_of_false (fun hx => none ⟨x, hx⟩) (Language.notMem_zero x)
  rw [empty, ← wordsBefore_nil, wordsBefore_zero] at h
  exact Language.notMem_zero w h

end Class

def contents (placed : List Placed) (c : Class) : Language Char := pointsOf placed c

theorem mem_contents {placed : List Placed} {c : Class} {p : List Char} :
    p ∈ contents placed c ↔ ∃ s ∈ sequencesOf placed c, s.points = p := Iff.rfl

/-- The words of all classes of a table. -/
def recognised (placed : List Placed) : Language Char :=
  {w | ∃ c : Class, w ∈ c.words (contents placed c)}

def recognisedBefore (placed : List Placed) (rest : Text) : Language Char :=
  {w | ∃ c : Class, w ∈ c.wordsBefore (contents placed c) rest}

@[simp] theorem recognisedBefore_nil (placed : List Placed) :
    recognisedBefore placed [] = recognised placed := by
  ext w
  exact exists_congr fun c => by rw [Class.wordsBefore_nil]

theorem mem_mul_anyChar {K : Language Char} {cs w : List Char} :
    w ∈ K * anyChar cs ↔ ∃ x ∈ K, ∃ c ∈ cs, w = x ++ [c] := by
  rw [Language.mem_mul]
  constructor
  · intro h
    obtain ⟨x, hx, _, ⟨c, hc, rfl⟩, rfl⟩ := h
    exact ⟨x, hx, c, hc, rfl⟩
  · intro h
    obtain ⟨x, hx, c, hc, rfl⟩ := h
    exact ⟨x, hx, [c], ⟨c, hc, rfl⟩, rfl⟩

theorem mem_mul_anyChar_add_one {K : Language Char} {cs w : List Char} :
    w ∈ K * (anyChar cs + 1) ↔ w ∈ K ∨ ∃ x ∈ K, ∃ c ∈ cs, w = x ++ [c] := by
  rw [mul_add, mul_one, Language.mem_add, mem_mul_anyChar, or_comm]

theorem mem_words_leadingGender {K : Language Char} {w : List Char} :
    w ∈ Class.leadingGender.words K ↔ ∃ g ∈ people, ∃ r ∈ K,
      w = g :: zwj :: r ∨ ∃ t ∈ skinTones, w = g :: t :: zwj :: r := by
  have front : ∀ {v}, v ∈ anyChar people * (anyChar skinTones + 1) * anyChar [zwj] ↔
      ∃ g ∈ people, v = [g, zwj] ∨ ∃ t ∈ skinTones, v = [g, t, zwj] := by
    intro v
    simp only [mem_mul_anyChar, mem_mul_anyChar_add_one]
    constructor
    · intro h
      obtain ⟨_, ⟨g, hg, rfl⟩ | ⟨_, ⟨g, hg, rfl⟩, t, ht, rfl⟩, j, hj, rfl⟩ := h
      · exact ⟨g, hg, .inl (by simpa using hj)⟩
      · exact ⟨g, hg, .inr ⟨t, ht, by simpa using hj⟩⟩
    · intro h
      obtain ⟨g, hg, rfl | ⟨t, ht, rfl⟩⟩ := h
      · exact ⟨[g], .inl ⟨g, hg, rfl⟩, zwj, by simp, rfl⟩
      · exact ⟨[g, t], .inr ⟨[g], ⟨g, hg, rfl⟩, t, ht, rfl⟩, zwj, by simp, rfl⟩
  have whole : w ∈ Class.leadingGender.words K ↔
      ∃ v ∈ anyChar people * (anyChar skinTones + 1) * anyChar [zwj], ∃ r ∈ K, v ++ r = w :=
    Language.mem_mul
  rw [whole]
  simp only [front]
  constructor
  · intro h
    obtain ⟨_, ⟨g, hg, rfl | ⟨t, ht, rfl⟩⟩, r, hr, rfl⟩ := h
    · exact ⟨g, hg, r, hr, .inl rfl⟩
    · exact ⟨g, hg, r, hr, .inr ⟨t, ht, rfl⟩⟩
  · intro h
    obtain ⟨g, hg, r, hr, rfl | ⟨t, ht, rfl⟩⟩ := h
    · exact ⟨_, ⟨g, hg, .inl rfl⟩, r, hr, rfl⟩
    · exact ⟨_, ⟨g, hg, .inr ⟨t, ht, rfl⟩⟩, r, hr, rfl⟩

theorem mem_signed {K : Language Char} {cs w : List Char} :
    w ∈ K * (anyChar cs + 1) * anyChar [zwj] * anyChar [femaleSign, maleSign] *
      (anyChar [vs16] + 1) ↔ ∃ x ∈ K, ∃ u, (u = [] ∨ ∃ c ∈ cs, u = [c]) ∧ ∃ s ∈ signs,
        w = x ++ u ++ [zwj, s] ∨ w = x ++ u ++ [zwj, s, vs16] := by
  have front : ∀ {v}, v ∈ K * (anyChar cs + 1) * anyChar [zwj] * anyChar [femaleSign, maleSign] ↔
      ∃ x ∈ K, ∃ u, (u = [] ∨ ∃ c ∈ cs, u = [c]) ∧ ∃ s ∈ signs, v = x ++ u ++ [zwj, s] := by
    intro v
    rw [mem_mul_anyChar]
    constructor
    · intro h
      obtain ⟨y, hy, s, hs, rfl⟩ := h
      obtain ⟨z, hz, j, hj, rfl⟩ := mem_mul_anyChar.1 hy
      rw [List.mem_singleton.1 hj]
      rcases mem_mul_anyChar_add_one.1 hz with hz | ⟨x, hx, c, hc, rfl⟩
      · exact ⟨z, hz, [], .inl rfl, s, hs, by simp⟩
      · exact ⟨x, hx, [c], .inr ⟨c, hc, rfl⟩, s, hs, by simp⟩
    · intro h
      obtain ⟨x, hx, u, hu, s, hs, rfl⟩ := h
      have start : x ++ u ∈ K * (anyChar cs + 1) := by
        rw [mem_mul_anyChar_add_one]
        rcases hu with rfl | ⟨c, hc, rfl⟩
        · exact .inl (by simpa using hx)
        · exact .inr ⟨x, hx, c, hc, rfl⟩
      exact ⟨_, mem_mul_anyChar.2 ⟨_, start, zwj, by simp, rfl⟩, s, hs, by simp⟩
  rw [mem_mul_anyChar_add_one]
  simp only [front]
  constructor
  · intro h
    rcases h with ⟨x, hx, u, hu, s, hs, e⟩ | ⟨_, ⟨x, hx, u, hu, s, hs, rfl⟩, c, hc, rfl⟩
    · exact ⟨x, hx, u, hu, s, hs, .inl e⟩
    · rw [List.mem_singleton.1 hc]
      exact ⟨x, hx, u, hu, s, hs, .inr (by simp)⟩
  · intro h
    obtain ⟨x, hx, u, hu, s, hs, e | e⟩ := h
    · exact .inl ⟨x, hx, u, hu, s, hs, e⟩
    · exact .inr ⟨_, ⟨x, hx, u, hu, s, hs, rfl⟩, vs16, by simp, by simp [e]⟩

end Pictograph
