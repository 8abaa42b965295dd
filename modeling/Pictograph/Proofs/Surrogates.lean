import Pictograph.Proofs.Hexadecimal
import Pictograph.Sequence

/-!
Texts of UTF-16 units, of characters, and of both. The key of a text is the row of the values that
its units stand for: a high half and a low one directly after it are one character, and everything
else stands for itself. No unit is lost, and a character has one key in either form.
-/

namespace Pictograph

namespace Text

def Meets (c : Nat) (t : Text) : Prop := isHigh c = true ∧ ∃ d ∈ t.head?, isLow d = true

/-- What the units of a text stand for, from left to right. -/
inductive Decodes : Text → Text → Prop where
  | nil : Decodes [] []
  | joined {h l : Nat} {t u : Text} (high : isHigh h = true) (low : isLow l = true)
      (rest : Decodes t u) : Decodes (h :: l :: t) (pair h l :: u)
  | apart {c : Nat} {t u : Text} (alone : ¬ Meets c t) (rest : Decodes t u) :
      Decodes (c :: t) (c :: u)

variable {c h l : Nat} {t u : Text}

theorem joinPairs_joined (high : isHigh h = true) (low : isLow l = true) (t : Text) :
    joinPairs (h :: l :: t) = pair h l :: joinPairs t := by
  rw [joinPairs, high, low]
  rfl

theorem joinPairs_apart (alone : ¬ Meets c t) : joinPairs (c :: t) = c :: joinPairs t := by
  cases t with
  | nil => rfl
  | cons d t =>
    have none : (isHigh c && isLow d) = false := by simpa [Meets] using alone
    rw [joinPairs, none]
    rfl

theorem Decodes.eq_joinPairs (h : Decodes t u) : u = joinPairs t := by
  induction h with
  | nil => rfl
  | joined high low rest ih => rw [joinPairs_joined high low, ← ih]
  | apart alone rest ih => rw [joinPairs_apart alone, ← ih]

theorem decodes_joinPairs (t : Text) : Decodes t (joinPairs t) := by
  induction t using joinPairs.induct with
  | case1 => exact .nil
  | case2 c => exact .apart (by simp [Meets]) .nil
  | case3 c d t halves ih =>
    rw [Bool.and_eq_true] at halves
    rw [joinPairs_joined halves.1 halves.2]
    exact .joined halves.1 halves.2 ih
  | case4 c d t others ih =>
    have alone : ¬ Meets c (d :: t) := by simpa [Meets] using others
    rw [joinPairs_apart alone]
    exact .apart alone ih

theorem decodes_iff : Decodes t u ↔ u = joinPairs t :=
  ⟨Decodes.eq_joinPairs, fun same => same ▸ decodes_joinPairs t⟩

/-! Splitting again what was joined -/

theorem splitPairs_cons (c : Nat) (t : Text) : splitPairs (c :: t) = units c ++ splitPairs t := rfl

theorem splitPairs_eq_self (small : ∀ c ∈ t, c < 0x10000) : splitPairs t = t := by
  induction t with
  | nil => rfl
  | cons c t ih =>
    rw [List.forall_mem_cons] at small
    rw [splitPairs_cons, units_of_lt small.1, ih small.2]
    rfl

theorem lt_of_isHigh (high : isHigh c = true) : c < 0x10000 := by
  simp only [isHigh, Bool.and_eq_true, decide_eq_true_eq] at high
  omega

theorem lt_of_isLow (low : isLow c = true) : c < 0x10000 := by
  simp only [isLow, Bool.and_eq_true, decide_eq_true_eq] at low
  omega

theorem Decodes.splitPairs_eq (h : Decodes t u) : splitPairs u = splitPairs t := by
  induction h with
  | nil => rfl
  | joined high low rest ih =>
    rw [splitPairs_cons, splitPairs_cons, splitPairs_cons, units_pair high low,
      units_of_lt (lt_of_isHigh high), units_of_lt (lt_of_isLow low), ih]
    rfl
  | apart alone rest ih => rw [splitPairs_cons, splitPairs_cons, ih]

/-! Characters, whole and in units -/

theorem not_isHigh_char (c : Char) : isHigh c.toNat = false := by
  have range := toNat_range c
  simp only [isHigh, Bool.and_eq_false_iff, decide_eq_false_iff_not]
  omega

theorem not_meets_char (c : Char) (t : Text) : ¬ Meets c.toNat t := by
  simp [Meets, not_isHigh_char]

theorem decodes_ofChars (cs : List Char) : Decodes (ofChars cs) (ofChars cs) := by
  induction cs with
  | nil => exact .nil
  | cons c cs ih => exact .apart (not_meets_char c _) ih

theorem halves_of_far (c : Char) (far : ¬ c.toNat < 0x10000) :
    isHigh (0xD800 + (c.toNat - 0x10000) / 0x400) = true ∧
      isLow (0xDC00 + (c.toNat - 0x10000) % 0x400) = true := by
  have range := toNat_range c
  simp only [isHigh, isLow, Bool.and_eq_true, decide_eq_true_eq]
  omega

theorem decodes_splitPairs (cs : List Char) : Decodes (splitPairs (ofChars cs)) (ofChars cs) := by
  induction cs with
  | nil => exact .nil
  | cons c cs ih =>
    have first : ofChars (c :: cs) = c.toNat :: ofChars cs := rfl
    rw [first, splitPairs_cons]
    by_cases near : c.toNat < 0x10000
    · rw [units_of_lt near]
      exact .apart (not_meets_char c _) ih
    · obtain ⟨high, low⟩ := halves_of_far c near
      have joined := Decodes.joined high low ih
      rw [pair_units (by omega)] at joined
      rw [units, if_neg near]
      exact joined

/-! Keys -/

theorem codePoints_eq_dashed (t : Text) : codePoints (codes "-") t = dashed (joinPairs t) := rfl

theorem codePoints_of_decodes (h : Decodes t u) : codePoints (codes "-") t = dashed u := by
  rw [codePoints_eq_dashed, h.eq_joinPairs]

theorem joinPairs_eq_nil_iff : joinPairs t = [] ↔ t = [] := by
  constructor
  · intro none
    have decoded := decodes_joinPairs t
    rw [none] at decoded
    cases decoded
    rfl
  · rintro rfl
    rfl

end Text

theorem Value.mapM_toScalar (cs : List Char) :
    (cs.map fun c => Value.int c.toNat).mapM Value.toScalar = .ok cs := by
  rw [Traversal.mapM_eq_ok_iff, List.forall₂_map_left_iff, List.forall₂_same]
  exact fun c _ => scalar_toNat _ c

theorem Sequence.key_eq_dashed (s : Sequence) : s.key = Text.dashed s.text := rfl

namespace Text

/-- The key of a text holds exactly what its units stand for. It is split at its dashes and read as
these values, whose units are those of the text. So no two texts of units have the same key, and
the key of characters is the same from their units, from the text, and from the sequence. -/
theorem codePoints_lossless :
    (∀ t : Text, ∃ u : Text, (∀ v, Decodes t v ↔ v = u) ∧
      (fields 0x2D (codePoints (codes "-") t)).mapM (Decimal.readInt 16) =
        .ok (u.map fun n : Nat => (n : Int)) ∧
      (t ≠ [] → split 0x2D (codePoints (codes "-") t) = fields 0x2D (codePoints (codes "-") t)) ∧
      splitPairs u = splitPairs t) ∧
    (∀ t v : Text, (∀ c ∈ t, c < 0x10000) → (∀ c ∈ v, c < 0x10000) →
      codePoints (codes "-") t = codePoints (codes "-") v → t = v) ∧
    ∀ cs : List Char, ∃ (s : Sequence) (units : Text),
      Sequence.ofValues (cs.map fun c => .int c.toNat) = .ok s ∧ s.points = cs ∧
      Value.toUnits (cs.map fun c => .int c.toNat) = .ok units ∧
      codePoints (codes "-") units = s.key ∧ codePoints (codes "-") s.text = s.key := by
  refine ⟨fun t => ?_, fun t v units units' same => ?_, fun cs => ?_⟩
  · refine ⟨joinPairs t, fun v => decodes_iff, mapM_readInt_fields_dashed _, fun some => ?_,
      (decodes_joinPairs t).splitPairs_eq⟩
    rw [codePoints_eq_dashed, fields_dashed, split_dashed (mt joinPairs_eq_nil_iff.1 some)]
  · have decoded : joinPairs t = joinPairs v := dashed_injective same
    calc
      t = splitPairs t := (splitPairs_eq_self units).symm
      _ = splitPairs (joinPairs t) := (decodes_joinPairs t).splitPairs_eq.symm
      _ = splitPairs (joinPairs v) := by rw [decoded]
      _ = splitPairs v := (decodes_joinPairs v).splitPairs_eq
      _ = v := splitPairs_eq_self units'
  · refine ⟨⟨cs, true⟩, splitPairs (ofChars cs), ?_, rfl, ?_,
      codePoints_of_decodes (decodes_splitPairs cs), codePoints_of_decodes (decodes_ofChars cs)⟩
    · rw [Sequence.ofValues, Value.mapM_toScalar]
      rfl
    · rw [Value.toUnits, Value.mapM_toScalar]
      rfl

/-- A high half before a pair, a whole character, a low half and a high one at the end. -/
theorem codePoints_lossless_lone :
    let t : Text := [0xD83D, 0xD83D, 0xDCA9, 0x1F4A9, 0xDCA9, 0xD83D]
    let swapped : Text := [0xDCA9, 0xD83D]
    codePoints (codes "-") t = codes "d83d-1f4a9-1f4a9-dca9-d83d" ∧
      (∀ v, Decodes t v ↔ v = [0xD83D, 0x1F4A9, 0x1F4A9, 0xDCA9, 0xD83D]) ∧
      (∀ c ∈ swapped, c < 0x10000) ∧ (∀ c ∈ swapped.reverse, c < 0x10000) ∧
      codePoints (codes "-") swapped ≠ codePoints (codes "-") swapped.reverse := by
  intro t swapped
  refine ⟨by decide, ?_, by decide, by decide, fun same => ?_⟩
  · obtain ⟨u, decodes, -⟩ := codePoints_lossless.1 t
    have here : u = [0xD83D, 0x1F4A9, 0x1F4A9, 0xDCA9, 0xD83D] :=
      ((decodes u).2 rfl).eq_joinPairs.trans (by decide)
    exact here ▸ decodes
  · exact absurd (codePoints_lossless.2.1 swapped swapped.reverse (by decide) (by decide) same)
      (by decide)

end Text

end Pictograph
