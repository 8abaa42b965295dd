import Pictograph.Proofs.Compile.Longest

/-!
Matches of something. The pattern of a table with an entry uses something up wherever it fits; the
pattern of a table without one has no alternatives, fits everywhere and uses up nothing.
-/

namespace Pictograph

/-- No way of matching uses nothing up, in whatever form the pattern is asked; and a text passes the
test only where there is a word in it that is not empty. -/
structure Consuming (p : Pattern) (words : Language Char) : Prop where
  ways : ∀ (t : Text) (n : Nat), t.drop n ∉ p.rests (t.drop n)
  whole : p.fullMatches [] = false
  found : ∀ t, ∀ f ∈ p.find t, f.text ≠ []
  tested : ∀ t, p.test t = true →
    ∃ before w after, w ∈ words ∧ w ≠ [] ∧ t = before ++ Text.ofChars w ++ after

variable {placed : List Placed} {a : Auxiliary}

theorem Class.mem_words_of_mem_wordsBefore {c : Class} {sequences : Language Char} {rest : Text}
    {w : List Char} (h : w ∈ c.wordsBefore sequences rest) : w ∈ c.words sequences := by
  unfold wordsBefore at h
  split at h
  · next plain =>
    rw [plain.1]
    apply mem_mul_anyChar_add_one.2
    exact .inr (mem_mul_anyChar.1 h)
  · exact h

theorem recognised_of_recognisedBefore {rest : Text} {w : List Char}
    (h : w ∈ recognisedBefore placed rest) : w ∈ recognised placed := by
  obtain ⟨c, hw⟩ := h
  exact ⟨c, Class.mem_words_of_mem_wordsBefore hw⟩

namespace Compile

theorem consuming_assembled (sound : a.Sound .points) (ne : placed ≠ [])
    (full : ∀ p ∈ placed, p.sequence.points ≠ []) :
    Consuming (assembled .points placed a).pattern (recognised placed) := by
  have used := lt_of_mem_rests sound ne full
  have spells := spells_assembled sound ne full
  refine ⟨?_, ?_, ?_, ?_⟩
  · intro t n same
    exact lt_irrefl _ (used _ _ same)
  · rw [Bool.eq_false_iff]
    intro whole
    exact lt_irrefl _ (used _ _ (Pattern.fullMatches_iff.1 whole))
  · intro t f hf empty
    obtain ⟨r, -, -, takes⟩ := Pattern.mem_find hf
    have less := used _ _ takes.mem_rests
    rw [empty] at less
    exact lt_irrefl _ less
  · intro t passes
    obtain ⟨n, fits⟩ := Pattern.test_iff.1 passes
    obtain ⟨r, hr⟩ := List.exists_mem_of_ne_nil _ fits
    obtain ⟨_, ⟨w, hw, rfl⟩, split⟩ := spells.mem_rests.1 hr
    rw [Flavor.encode_points] at split
    refine ⟨t.take n, w, r, recognised_of_recognisedBefore hw, ?_, ?_⟩
    · rintro rfl
      obtain ⟨c, nothing⟩ := hw
      obtain ⟨s, hs, empty⟩ := Class.nil_mem_of_mem_wordsBefore nothing
      exact full _ (mem_sequencesOf.1 hs) empty
    · rw [List.append_assoc, ← split, List.take_append_drop]

theorem rests_assembled_nil (flavor : Flavor) (a : Auxiliary) (t : Text) :
    (assembled flavor [] a).pattern.rests t = [t] := rfl

end Compile

/-- A compiled pattern uses something up wherever it matches if and only if its table has an entry.
Without one, it finds an empty match at every place. -/
theorem consuming_iff {settings : CompilerSettings} {items : List TableItem} {c : CompiledPattern}
    (h : (compile settings items).result = .ok c) (points : settings.flavor = .points) :
    ∃ entries placed p, tableEntries items = .ok entries ∧ classify entries = .ok placed ∧
      c.executable = .ok p ∧ (Consuming p (recognised placed) ↔ entries ≠ []) ∧
      (entries = [] → ∀ t, p.find t = (List.range (t.length + 1)).map fun n => ⟨[], n⟩) := by
  obtain ⟨entries, placed, a, entriesOk, sorted, auxiliary, -, full, rfl⟩ :=
    Compile.compile_eq_ok_iff.1 h
  rw [points] at auxiliary ⊢
  have sound := Auxiliary.sound_of auxiliary
  refine ⟨entries, placed, _, entriesOk, sorted, Compile.executable_assembled sound, ⟨?_, ?_⟩, ?_⟩
  · rintro consuming rfl
    cases sorted
    exact consuming.ways [] 0 (List.mem_singleton_self _)
  · intro filled
    exact Compile.consuming_assembled sound (placed_ne_nil sorted filled) full
  · rintro rfl t
    cases sorted
    exact Pattern.find_of_rests_eq (Compile.rests_assembled_nil .points a) t

theorem consuming_iff_empty_table : ∃ c p, (compile ⟨.points, false⟩ []).result = .ok c ∧
    c.executable = .ok p ∧ ¬ Consuming p (recognised []) := by
  have nothing : classify [] = .ok [] := rfl
  obtain ⟨c, compiled⟩ := exists_compile nothing (by simp)
  obtain ⟨entries, placed, p, entriesOk, sorted, executable, consuming, -⟩ :=
    consuming_iff compiled rfl
  cases entriesOk
  cases sorted
  exact ⟨c, p, compiled, executable, fun all => consuming.1 all rfl⟩

end Pictograph
