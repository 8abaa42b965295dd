import Mathlib.Data.List.Lex
import Mathlib.Data.List.Pairwise
import Mathlib.Data.List.Sort
import Pictograph.Group
import Pictograph.Proofs.Spans
import Pictograph.Proofs.Traversal

/-!
Grouping loses nothing. The groups of a collection of words hold exactly these words, with the
longest stems first and no stem twice; so the pattern over the groups spells the words and tries the
longer ones before the shorter ones.
-/

namespace Pictograph

/-- The code values that a text is made of where a flavor runs. -/
def Flavor.encode (flavor : Flavor) (t : Text) : Text :=
  if flavor = .utf16 then Text.splitPairs t else t

@[simp] theorem Flavor.encode_points (t : Text) : Flavor.points.encode t = t := rfl

theorem Text.units_ne_nil (c : Nat) : units c ≠ [] := by
  unfold units
  split <;> simp

theorem Flavor.encode_ne_nil {flavor : Flavor} {t : Text} (h : t ≠ []) : flavor.encode t ≠ [] := by
  unfold encode
  split
  · obtain ⟨c, hc⟩ := List.exists_mem_of_ne_nil t h
    obtain ⟨u, hu⟩ := List.exists_mem_of_ne_nil _ (Text.units_ne_nil c)
    exact List.ne_nil_of_mem (List.mem_flatMap.2 ⟨c, hc, hu⟩)
  · exact h

theorem Sequence.encode_text_ne_nil (flavor : Flavor) {s : Sequence} (h : s.points ≠ []) :
    flavor.encode s.text ≠ [] := by
  apply Flavor.encode_ne_nil
  simpa [Sequence.text, Text.ofChars] using h

theorem canWrite_of_mem_units {c u : Nat} (h : c ≤ 0x10FFFF) (hu : u ∈ Text.units c) :
    Flavor.utf16.CanWrite u := by
  unfold Text.units at hu
  split at hu
  · simp only [List.mem_singleton] at hu
    exact ⟨by omega, fun _ => by omega⟩
  · simp only [List.mem_cons, List.not_mem_nil, or_false] at hu
    exact ⟨by omega, fun _ => by omega⟩

theorem Sequence.le_of_mem_text {s : Sequence} {c : Nat} (h : c ∈ s.text) : c ≤ 0x10FFFF := by
  obtain ⟨ch, -, rfl⟩ := List.mem_map.1 h
  have range := toNat_range ch
  omega

theorem canWrite_of_mem_encode {flavor : Flavor} {s : Sequence} {u : Nat}
    (h : u ∈ flavor.encode s.text) : flavor.CanWrite u := by
  unfold Flavor.encode at h
  split at h
  · next utf16 =>
    obtain ⟨c, hc, hu⟩ := List.mem_flatMap.1 h
    rw [utf16]
    exact canWrite_of_mem_units (Sequence.le_of_mem_text hc) hu
  · next bare =>
    exact ⟨Sequence.le_of_mem_text h, fun utf16 => absurd utf16 bare⟩

namespace Group

theorem units_numbers (flavor : Flavor) (s : Sequence) :
    units flavor s.numbers = .ok ((flavor.encode s.text).map Int.ofNat) := by
  unfold units Flavor.encode
  split
  · have numbers : s.numbers = s.points.map fun c => (c.toNat : Int) := by
      simp [Sequence.numbers, Sequence.text, Text.ofChars]
    rw [numbers, scalars_ofChars]
    rfl
  · rfl

def cutWord (w : Text) : List Int × Int :=
  ((w.map Int.ofNat).dropLast, (w.map Int.ofNat).getLastD 0)

theorem cutWord_append {w : Text} (h : w ≠ []) :
    (cutWord w).1 ++ [(cutWord w).2] = w.map Int.ofNat := by
  have ne : w.map Int.ofNat ≠ [] := by simpa using h
  rw [cutWord, List.getLastD_eq_getLast?, List.getLast?_eq_some_getLast ne, Option.getD_some,
    List.dropLast_append_getLast]

theorem cut_numbers {flavor : Flavor} {s : Sequence} (h : s.points ≠ []) :
    cut flavor s.numbers = .ok (cutWord (flavor.encode s.text)) := by
  have ne := s.encode_text_ne_nil flavor h
  have ne' : (flavor.encode s.text).map Int.ofNat ≠ [] := by simpa using ne
  rw [cut, units_numbers]
  simp only [bind, Except.bind, List.getLast?_eq_some_getLast ne', cutWord,
    List.getLastD_eq_getLast?, Option.getD_some]
  rfl

theorem cut_numbers_nil {flavor : Flavor} {s : Sequence} (h : s.points = []) :
    cut flavor s.numbers = .error .emptySequence := by
  have nil : flavor.encode s.text = [] := by
    simp [Sequence.text, Text.ofChars, h, Flavor.encode, Text.splitPairs]
  rw [cut, units_numbers, nil]
  rfl

def Has (groups : List Group) (stem : List Int) (ending : Int) : Prop :=
  ∃ g ∈ groups, g.stem = stem ∧ ending ∈ g.endings

theorem has_add {groups : List Group} {stem stem' : List Int} {ending ending' : Int} :
    Has (add groups stem ending) stem' ending' ↔
      (stem' = stem ∧ ending' = ending) ∨ Has groups stem' ending' := by
  induction groups with
  | nil => simp [Has, add, eq_comm]
  | cons g groups ih =>
    unfold Has at ih ⊢
    simp only [add]
    split
    · next same =>
      simp only [List.mem_cons, exists_eq_or_imp, Span.mem_insert_int]
      grind
    · split
      · simp only [List.mem_cons, exists_eq_or_imp]
        grind
      · simp only [List.mem_cons, exists_eq_or_imp, ih]
        grind

theorem has_foldl {cuts : List (List Int × Int)} {groups : List Group} {stem : List Int}
    {ending : Int} :
    Has (cuts.foldl (fun groups c => add groups c.1 c.2) groups) stem ending ↔
      (stem, ending) ∈ cuts ∨ Has groups stem ending := by
  induction cuts generalizing groups with
  | nil => simp
  | cons c cuts ih =>
    rw [List.foldl_cons, ih, has_add, List.mem_cons, Prod.ext_iff]
    tauto

theorem before_trans {a b c : List Int} (h : before a b = true) (h' : before b c = true) :
    before a c = true := by
  simp only [before, Bool.or_eq_true, Bool.and_eq_true, decide_eq_true_eq, beq_iff_eq] at h h' ⊢
  rcases h with longer | ⟨same, less⟩
  · left
    omega
  · rcases h' with longer | ⟨same', less'⟩
    · left
      omega
    · exact .inr ⟨same.trans same', lt_trans less less'⟩

theorem before_total {a b : List Int} (ne : a ≠ b) (h : before a b = false) :
    before b a = true := by
  simp only [before, Bool.or_eq_false_iff, Bool.and_eq_false_iff, decide_eq_false_iff_not,
    beq_eq_false_iff_ne] at h
  simp only [before, Bool.or_eq_true, Bool.and_eq_true, decide_eq_true_eq, beq_iff_eq]
  obtain ⟨short, other | notLess⟩ := h
  · left
    omega
  · by_cases same : a.length = b.length
    · refine .inr ⟨same.symm, ?_⟩
      rcases lt_trichotomy a b with less | eq | more
      · exact absurd less notLess
      · exact absurd eq ne
      · exact more
    · left
      omega

/-- Groups in the order of their stems, no stem twice, with ascending endings and not without. -/
structure Canonical (groups : List Group) : Prop where
  ordered : groups.Pairwise fun g h => before g.stem h.stem = true
  ascending : ∀ g ∈ groups, g.endings.Pairwise fun a b => decide (a < b) = true
  filled : ∀ g ∈ groups, g.endings ≠ []

theorem canonical_nil : Canonical [] where
  ordered := .nil
  ascending := by simp
  filled := by simp

theorem canonical_cons {g : Group} {groups : List Group} :
    Canonical (g :: groups) ↔ (∀ h ∈ groups, before g.stem h.stem = true) ∧
      g.endings.Pairwise (fun a b => decide (a < b) = true) ∧ g.endings ≠ [] ∧
        Canonical groups := by
  constructor
  · rintro ⟨ordered, ascending, filled⟩
    rw [List.pairwise_cons] at ordered
    rw [List.forall_mem_cons] at ascending filled
    exact ⟨ordered.1, ascending.1, filled.1, ordered.2, ascending.2, filled.2⟩
  · rintro ⟨first, ascending, filled, rest⟩
    exact ⟨List.pairwise_cons.2 ⟨first, rest.ordered⟩,
      List.forall_mem_cons.2 ⟨ascending, rest.ascending⟩,
      List.forall_mem_cons.2 ⟨filled, rest.filled⟩⟩

theorem stem_of_mem_add {groups : List Group} {stem : List Int} {ending : Int} {g : Group}
    (h : g ∈ add groups stem ending) : g.stem = stem ∨ ∃ g' ∈ groups, g'.stem = g.stem := by
  induction groups with
  | nil =>
    rw [add, List.mem_singleton] at h
    exact .inl (by rw [h])
  | cons g' groups ih =>
    simp only [add] at h
    split at h
    · next same =>
      rcases List.mem_cons.1 h with rfl | h
      · exact .inl rfl
      · exact .inr ⟨g, List.mem_cons_of_mem g' h, rfl⟩
    · split at h
      · rcases List.mem_cons.1 h with rfl | h
        · exact .inl rfl
        · exact .inr ⟨g, h, rfl⟩
      · rcases List.mem_cons.1 h with rfl | h
        · exact .inr ⟨g, List.mem_cons_self, rfl⟩
        · rcases ih h with new | ⟨old, hold, same⟩
          · exact .inl new
          · exact .inr ⟨old, List.mem_cons_of_mem g' hold, same⟩

theorem Canonical.add {groups : List Group} (h : Canonical groups) (stem : List Int)
    (ending : Int) : Canonical (add groups stem ending) := by
  induction groups with
  | nil => exact canonical_cons.2 ⟨by simp, by simp, by simp, canonical_nil⟩
  | cons g groups ih =>
    obtain ⟨first, ascending, filled, rest⟩ := canonical_cons.1 h
    simp only [Group.add]
    split
    · next same =>
      refine canonical_cons.2 ⟨?_, ?_, ?_, rest⟩
      · rw [← same]
        exact first
      · exact Span.pairwise_insert_int ending ascending
      · exact List.ne_nil_of_mem (Span.mem_insert_int.2 (.inl rfl))
    · next other =>
      split
      · next front =>
        refine canonical_cons.2 ⟨?_, by simp, by simp, h⟩
        intro g' hg'
        rcases List.mem_cons.1 hg' with rfl | hg'
        · exact front
        · exact before_trans front (first g' hg')
      · next back =>
        refine canonical_cons.2 ⟨?_, ascending, filled, ih rest⟩
        intro g' hg'
        rcases stem_of_mem_add hg' with new | ⟨old, hold, same⟩
        · rw [new]
          exact before_total (Ne.symm other) (by simpa using back)
        · rw [← same]
          exact first old hold

def ofCuts (cuts : List (List Int × Int)) : List Group :=
  cuts.foldl (fun groups c => add groups c.1 c.2) []

theorem canonical_ofCuts (cuts : List (List Int × Int)) : Canonical (ofCuts cuts) := by
  suffices h : ∀ groups, Canonical groups →
      Canonical (cuts.foldl (fun groups c => Group.add groups c.1 c.2) groups) from
    h [] canonical_nil
  intro groups h
  induction cuts generalizing groups with
  | nil => exact h
  | cons c cuts ih => exact ih _ (h.add c.1 c.2)

theorem has_ofCuts {cuts : List (List Int × Int)} {stem : List Int} {ending : Int} :
    Has (ofCuts cuts) stem ending ↔ (stem, ending) ∈ cuts := by
  have none : ¬ Has [] stem ending := by simp [Has]
  rw [ofCuts, has_foldl]
  exact or_iff_left none

theorem before_irrefl (a : List Int) : before a a = false := by
  simp [before]

theorem Canonical.eq_of_stem_eq {groups : List Group} (h : Canonical groups) {g g' : Group}
    (hg : g ∈ groups) (hg' : g' ∈ groups) (same : g.stem = g'.stem) : g = g' := by
  have apart : groups.Pairwise fun g h => g.stem ≠ h.stem := by
    refine h.ordered.imp fun {g h} first => ?_
    intro equal
    rw [equal, before_irrefl] at first
    cases first
  have symm : Std.Symm fun g h : Group => g.stem ≠ h.stem := ⟨fun _ _ => Ne.symm⟩
  by_contra other
  exact apart.forall hg hg' other same

theorem Canonical.ext {groups groups' : List Group} (h : Canonical groups)
    (h' : Canonical groups') (same : ∀ stem ending, Has groups stem ending ↔
      Has groups' stem ending) : groups = groups' := by
  have sub : ∀ {l l' : List Group}, Canonical l → Canonical l' →
      (∀ stem ending, Has l stem ending ↔ Has l' stem ending) → ∀ g ∈ l, g ∈ l' := by
    intro l l' hl hl' same g hg
    obtain ⟨n, hn⟩ := List.exists_mem_of_ne_nil _ (hl.filled g hg)
    obtain ⟨g', hg', stem, -⟩ := (same g.stem n).1 ⟨g, hg, rfl, hn⟩
    have endings : ∀ m, m ∈ g.endings ↔ m ∈ g'.endings := by
      intro m
      constructor
      · intro hm
        obtain ⟨k, hk, stem', hm⟩ := (same g.stem m).1 ⟨g, hg, rfl, hm⟩
        rwa [hl'.eq_of_stem_eq hg' hk (stem.trans stem'.symm)]
      · intro hm
        obtain ⟨k, hk, stem', hm⟩ := (same g.stem m).2 ⟨g', hg', stem, hm⟩
        rwa [hl.eq_of_stem_eq hg hk stem'.symm]
    have equal : g.endings = g'.endings :=
      Span.eq_of_mem_iff_int (hl.ascending g hg) (hl'.ascending g' hg') endings
    have whole : g = g' := by
      cases g
      cases g'
      simp only at stem equal
      rw [stem, equal]
    rwa [whole]
  have irrefl : Std.Irrefl fun g h : Group => before g.stem h.stem = true :=
    ⟨fun g => by simp [before_irrefl]⟩
  have antisymm : Std.Antisymm fun g h : Group => before g.stem h.stem = true := by
    refine ⟨fun g h first second => ?_⟩
    have loop := before_trans first second
    rw [before_irrefl] at loop
    cases loop
  refine h.ordered.eq_of_mem_iff h'.ordered fun g => ⟨sub h h' same g, sub h' h ?_ g⟩
  exact fun stem ending => (same stem ending).symm

end Group

end Pictograph
