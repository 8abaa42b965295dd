import Pictograph.Proofs.Classify.Smallest

/-!
Skin tones. An entry that takes them is rendered as its base and as one form for each tone. Before
the first joiner a tone takes the place of the selectors; where there is no joiner it comes last,
and the selectors in front of it stay.
-/

namespace Pictograph

/-- The place of a tone: before the first joiner of a base, or at its end if there is none. -/
structure ToneSpot (base before after : List Char) : Prop where
  split : base = before ++ after
  free : zwj ∉ before
  joiner : after ≠ [] → after.head? = some zwj

/-- The form is the base with the tone in its place, instead of the selectors that end there. -/
def ReplacesSelectors (base : List Char) (tone : Char) (form : List Char) : Prop :=
  ∃ kept n after, ToneSpot base (kept ++ List.replicate n vs16) after ∧
    kept.getLast? ≠ some vs16 ∧ form = kept ++ tone :: after

variable {base before after : List Char} {t t' : Char}

theorem ToneSpot.of_joined {x : List Char} (h : zwj ∉ x) (r : List Char) :
    ToneSpot (x ++ zwj :: r) x (zwj :: r) := ⟨rfl, h, fun _ => rfl⟩

theorem ToneSpot.of_free (h : zwj ∉ base) : ToneSpot base base [] :=
  ⟨(List.append_nil base).symm, h, fun some => absurd rfl some⟩

theorem ToneSpot.eq_of_free (spot : ToneSpot base before after) (h : zwj ∉ base) :
    before = base ∧ after = [] := by
  have last : after = [] := by
    by_contra some
    obtain ⟨r, rfl⟩ := List.head?_eq_some_iff.1 (spot.joiner some)
    rw [spot.split] at h
    simp at h
  have split := spot.split
  rw [last, List.append_nil] at split
  exact ⟨split.symm, last⟩

namespace Entry

theorem getLast?_dropSelectors (x : List Char) : (dropSelectors x).getLast? ≠ some vs16 := by
  intro last
  obtain ⟨y, e⟩ := List.getLast?_eq_some_iff.1 last
  have again : dropSelectors (dropSelectors x) = dropSelectors x := List.rdropWhile_idempotent _ x
  rw [e, dropSelectors_append_vs16] at again
  have short : (dropSelectors y).length ≤ y.length := (List.rdropWhile_prefix _ y).length_le
  have length := congrArg List.length again
  simp only [List.length_append, List.length_singleton] at length
  omega

theorem replacesSelectors_joined {x : List Char} (h : zwj ∉ x) (r : List Char) (t : Char) :
    ReplacesSelectors (x ++ zwj :: r) t (withTone (x ++ zwj :: r) t) := by
  obtain ⟨n, whole⟩ := exists_dropSelectors x
  refine ⟨dropSelectors x, n, zwj :: r, ?_, getLast?_dropSelectors x, withTone_joined h r t⟩
  rw [← whole]
  exact .of_joined h r

theorem replacesSelectors_withTone_iff (base : List Char) (t : Char) :
    ReplacesSelectors base t (withTone base t) ↔ zwj ∈ base ∨ base.getLast? ≠ some vs16 := by
  by_cases joined : zwj ∈ base
  · obtain ⟨x, r, rfl, first⟩ := List.eq_append_cons_of_mem joined
    exact iff_of_true (replacesSelectors_joined first r t) (.inl joined)
  · rw [withTone_plain joined, or_iff_right joined]
    constructor
    · intro h
      obtain ⟨kept, n, after, spot, bare, form⟩ := h
      obtain ⟨-, rfl⟩ := spot.eq_of_free joined
      rwa [(List.append_inj' form rfl).1]
    · intro bare
      exact ⟨base, 0, [], by simpa using ToneSpot.of_free joined, bare, rfl⟩

theorem withTone_ne (base : List Char) (ht : t ∈ skinTones) : withTone base t ≠ base := by
  by_cases joined : zwj ∈ base
  · obtain ⟨x, r, rfl, first⟩ := List.eq_append_cons_of_mem joined
    rw [withTone_joined first, List.append_cons]
    intro same
    exact ne_dropSelectors_append_tone ht x (List.append_cancel_right same).symm
  · rw [withTone_plain joined]
    intro same
    simpa using congrArg List.length same

theorem withTone_injective (base : List Char) : Function.Injective (withTone base) := by
  intro t t' same
  by_cases joined : zwj ∈ base
  · obtain ⟨x, r, rfl, first⟩ := List.eq_append_cons_of_mem joined
    rw [withTone_joined first, withTone_joined first] at same
    exact (List.cons.inj (List.append_cancel_left same)).1
  · rw [withTone_plain joined, withTone_plain joined] at same
    exact List.singleton_inj.1 (List.append_cancel_left same)

theorem nodup_forms (base : List Char) : (base :: skinTones.map (withTone base)).Nodup := by
  rw [List.nodup_cons, List.mem_map]
  refine ⟨?_, List.Nodup.map (withTone_injective base) (by decide)⟩
  intro h
  obtain ⟨t, ht, same⟩ := h
  exact withTone_ne base ht same

end Entry

/-- An entry with skin tones is rendered as its base and as five forms, all different, and the tones
replace the selectors exactly if the base has a joiner or does not end in a selector. Without a
joiner, a tone is put after all of the base. -/
theorem tones_replace_selectors_iff {e : Entry}
    (kind : e.kind = .diversity ∨ e.kind = .variantDiversity) :
    ∃ forms : List Sequence, e.renderings = .ok (e.base :: forms) ∧ forms.length = 5 ∧
      ((e.base :: forms).map (·.points)).Nodup ∧
      (List.Forall₂ (fun t s => ReplacesSelectors e.base.points t s.points) skinTones forms ↔
        zwj ∈ e.base.points ∨ e.base.points.getLast? ≠ some vs16) ∧
      (zwj ∉ e.base.points →
        forms.map (·.points) = skinTones.map fun t => e.base.points ++ [t]) := by
  refine ⟨_, Entry.renderings_toned kind, rfl, ?_, ?_, ?_⟩
  · rw [List.map_cons, List.map_map]
    exact Entry.nodup_forms e.base.points
  · rw [List.forall₂_map_right_iff, List.forall₂_same]
    simp only [Entry.replacesSelectors_withTone_iff]
    exact ⟨fun h => h '🏻' (by decide), fun h _ _ => h⟩
  · intro free
    rw [List.map_map]
    exact List.map_congr_left fun t _ => Entry.withTone_plain free t

/-- A finger that points up keeps its selector in front of every tone. -/
theorem pointing_keeps_selector :
    (Entry.bare ['☝', vs16] .diversity).kind = .diversity ∧
    ∃ forms : List Sequence, (Entry.bare ['☝', vs16] .diversity).renderings =
        .ok ((Entry.bare ['☝', vs16] .diversity).base :: forms) ∧
      ¬ List.Forall₂ (fun t s => ReplacesSelectors ['☝', vs16] t s.points) skinTones forms ∧
      forms.map (·.points) = skinTones.map fun t => ['☝', vs16, t] := by
  obtain ⟨forms, rendered, -, -, replaces, plain⟩ :=
    tones_replace_selectors_iff (e := .bare ['☝', vs16] .diversity) (.inl rfl)
  refine ⟨rfl, forms, rendered, fun all => ?_, plain (by decide)⟩
  exact absurd (replaces.1 all) (by decide)

end Pictograph
