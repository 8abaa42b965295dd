import Pictograph.Proofs.Fragment

/-!
Groups as a form of a set of sequences. Putting the endings back behind their stems gives every
sequence that was grouped, once and nothing else, and no other groups in order do so; hence the
groups are the same for every order and repetition of the sequences.
-/

namespace Pictograph

namespace Group

variable {groups groups' : List Group} {stem w : List Int} {ending : Int}
  {sequences : List Sequence}

/-- The unit sequences that groups stand for: every ending behind its stem. -/
def spelled (groups : List Group) : List (List Int) :=
  groups.flatMap fun g => g.endings.map fun n => g.stem ++ [n]

theorem mem_spelled : w ∈ spelled groups ↔ ∃ g ∈ groups, ∃ n ∈ g.endings, g.stem ++ [n] = w := by
  simp only [spelled, List.mem_flatMap, List.mem_map]

/-- A sequence is cut in one way only, so it says which stem and ending it comes from. -/
theorem append_mem_spelled : stem ++ [ending] ∈ spelled groups ↔ Has groups stem ending := by
  rw [mem_spelled]
  constructor
  · rintro ⟨g, hg, n, hn, same⟩
    obtain ⟨stems, endings⟩ := List.append_inj' same rfl
    cases endings
    exact ⟨g, hg, stems, hn⟩
  · rintro ⟨g, hg, rfl, hn⟩
    exact ⟨g, hg, ending, hn, rfl⟩

theorem Canonical.nodup_stems (h : Canonical groups) : (groups.map (·.stem)).Nodup := by
  refine List.pairwise_map.2 (h.ordered.imp fun {g k} first same => ?_)
  rw [same, before_irrefl] at first
  cases first

theorem Canonical.nodup_spelled (h : Canonical groups) : (spelled groups).Nodup := by
  rw [spelled, List.nodup_flatMap]
  constructor
  · intro g hg
    refine List.pairwise_map.2 ((h.ascending g hg).imp fun {m n} less same => ?_)
    have equal : m = n := List.singleton_injective (List.append_cancel_left same)
    exact absurd (of_decide_eq_true less) (equal ▸ lt_irrefl m)
  · refine (List.pairwise_map.1 h.nodup_stems).imp fun {g k} apart w hg hk => ?_
    obtain ⟨m, -, rfl⟩ := List.mem_map.1 hg
    obtain ⟨n, -, same⟩ := List.mem_map.1 hk
    exact apart (List.append_inj' same rfl).1.symm

theorem Canonical.eq_of_mem_spelled_iff (h : Canonical groups) (h' : Canonical groups')
    (same : ∀ w, w ∈ spelled groups ↔ w ∈ spelled groups') : groups = groups' := by
  refine h.ext h' fun stem ending => ?_
  rw [← append_mem_spelled, ← append_mem_spelled]
  exact same _

theorem mem_spelled_ofCuts {cuts : List (List Int × Int)} :
    w ∈ spelled (ofCuts cuts) ↔ ∃ c ∈ cuts, c.1 ++ [c.2] = w := by
  constructor
  · intro h
    obtain ⟨g, hg, n, hn, rfl⟩ := mem_spelled.1 h
    exact ⟨(g.stem, n), has_ofCuts.1 ⟨g, hg, rfl, hn⟩, rfl⟩
  · rintro ⟨c, hc, rfl⟩
    exact append_mem_spelled.2 (has_ofCuts.2 hc)

theorem mem_spelled_sequences (flavor : Flavor) (full : ∀ s ∈ sequences, s.points ≠ []) :
    w ∈ spelled (ofCuts (sequences.map fun s => cutWord (flavor.encode s.text))) ↔
      ∃ s ∈ sequences, (flavor.encode s.text).map Int.ofNat = w := by
  rw [mem_spelled_ofCuts]
  simp only [List.mem_map, exists_exists_and_eq_and]
  refine exists_congr fun s => and_congr_right fun hs => ?_
  rw [cutWord_append (s.encode_text_ne_nil flavor (full s hs))]

/-- Grouping sequences, none of them empty, gives groups in order, with no stem twice and with
ascending endings, that stand for what the flavor writes for the sequences, each once. No other
groups in order do, so order and repetition of the sequences make no difference. -/
theorem ofSequences_lossless (flavor : Flavor) {sequences : List Sequence}
    (full : ∀ s ∈ sequences, s.points ≠ []) :
    ∃ groups, ofSequences flavor (sequences.map (·.numbers)) = .ok groups ∧
      Canonical groups ∧ (groups.map (·.stem)).Nodup ∧ (spelled groups).Nodup ∧
      (∀ w, w ∈ spelled groups ↔ ∃ s ∈ sequences, (flavor.encode s.text).map Int.ofNat = w) ∧
      (∀ groups', Canonical groups' → (∀ w, w ∈ spelled groups' ↔
        ∃ s ∈ sequences, (flavor.encode s.text).map Int.ofNat = w) → groups' = groups) ∧
      ∀ sequences' : List Sequence,
        (∀ cs, cs ∈ sequences'.map (·.points) ↔ cs ∈ sequences.map (·.points)) →
        ofSequences flavor (sequences'.map (·.numbers)) = .ok groups := by
  have canonical := canonical_ofCuts (sequences.map fun s => cutWord (flavor.encode s.text))
  have lossless : ∀ w, _ := fun w => mem_spelled_sequences (w := w) flavor full
  refine ⟨_, ofSequences_numbers full, canonical, canonical.nodup_stems, canonical.nodup_spelled,
    lossless, ?_, ?_⟩
  · intro groups' canonical' lossless'
    exact canonical'.eq_of_mem_spelled_iff canonical fun w =>
      (lossless' w).trans (lossless w).symm
  · intro sequences' same
    have full' : ∀ s ∈ sequences', s.points ≠ [] := by
      intro s hs
      obtain ⟨s', hs', points⟩ := List.mem_map.1 ((same s.points).1 (List.mem_map_of_mem hs))
      exact points ▸ full s' hs'
    rw [ofSequences_congr flavor full' full fun cs => by simpa only [List.mem_map] using same cs,
      ofSequences_numbers full]

/-- A flag, its first letter and a letter of one unit, in two orders: the cut goes through a pair. -/
theorem ofSequences_lossless_flag :
    let sequences : List Sequence := [⟨['🇺', '🇸'], true⟩, ⟨['a'], true⟩, ⟨['🇺'], true⟩]
    let again : List Sequence :=
      [⟨['🇺'], true⟩, ⟨['🇺', '🇸'], false⟩, ⟨['a'], true⟩, ⟨['🇺'], false⟩]
    let groups : List Group :=
      [⟨[0xD83C, 0xDDFA, 0xD83C], [0xDDF8]⟩, ⟨[0xD83C], [0xDDFA]⟩, ⟨[], [0x61]⟩]
    (∀ s ∈ sequences, s.points ≠ []) ∧
      ofSequences .utf16 (sequences.map (·.numbers)) = .ok groups ∧ (spelled groups).Nodup ∧
      ofSequences .utf16 (again.map (·.numbers)) = .ok groups := by
  intro sequences again groups
  have full : ∀ s ∈ sequences, s.points ≠ [] := by decide
  obtain ⟨groups', made, -, -, once, -, -, alike⟩ := ofSequences_lossless .utf16 full
  have computed : ofSequences .utf16 (sequences.map (·.numbers)) = .ok groups := by rfl
  obtain rfl : groups' = groups := Except.ok.inj (made.symm.trans computed)
  exact ⟨full, computed, once, alike again (by simp [again, sequences])⟩

end Group

end Pictograph
