import Pictograph.Proofs.Classify.Given
import Pictograph.Proofs.Compile.Completeness

/-!
Tables put together. Two tables that compile do so as one, and the pattern of both recognises what
the pattern of the one or of the other does: the words of a class are additive in its sequences.
-/

namespace Pictograph

variable {placed placed' merged : List Placed}

theorem Class.words_add (c : Class) (K L : Language Char) :
    c.words (K + L) = c.words K + c.words L := by
  cases c with
  | multiDiversity => rfl
  | joined => rfl
  | normal => rfl
  | leadingGender => exact mul_add _ K L
  | trailingGenderWithVariant => simp only [words, add_mul]
  | trailingGender => simp only [words, add_mul]
  | keycap => simp only [words, add_mul]
  | variantDiversity => simp only [words, add_mul]
  | diversity => simp only [words, add_mul]
  | textDefault => simp only [words, add_mul]
  | variant => simp only [words, add_mul]

theorem recognised_union
    (union : ∀ c x, x ∈ pointsOf merged c ↔ x ∈ pointsOf placed c ∨ x ∈ pointsOf placed' c) :
    recognised merged = recognised placed + recognised placed' := by
  have classes : ∀ c, contents merged c = contents placed c + contents placed' c := by
    intro c
    ext x
    exact union c x
  ext w
  have both : w ∈ recognised merged ↔ ∃ c : Class, w ∈ c.words (contents merged c) := Iff.rfl
  simp only [both, classes, Class.words_add, Language.mem_add, exists_or]
  rfl

theorem tableEntries_append {items items' : List TableItem} {entries entries' : List Entry}
    (h : tableEntries items = .ok entries) (h' : tableEntries items' = .ok entries') :
    tableEntries (items ++ items') = .ok (entries ++ entries') := by
  obtain ⟨lists, each, flat⟩ := Traversal.bind_eq_ok.1 h
  obtain ⟨lists', each', flat'⟩ := Traversal.bind_eq_ok.1 h'
  have both := Traversal.mapM_eq_ok_iff.2 (List.rel_append (Traversal.mapM_eq_ok_iff.1 each)
    (Traversal.mapM_eq_ok_iff.1 each'))
  rw [← Except.ok.inj flat, ← Except.ok.inj flat', ← List.flatten_append]
  exact Traversal.bind_eq_ok.2 ⟨_, both, rfl⟩

/-- Tables that compile do so as one, and the pattern of both matches a text if and only if the
pattern of one of them does. -/
theorem compile_append {all : Bool} {items items' : List TableItem} {c c' : CompiledPattern}
    (h : (compile ⟨.points, all⟩ items).result = .ok c)
    (h' : (compile ⟨.points, all⟩ items').result = .ok c')
    (ne : tableEntries items ≠ .ok []) (ne' : tableEntries items' ≠ .ok []) :
    ∃ d p p' q, (compile ⟨.points, all⟩ (items ++ items')).result = .ok d ∧
      c.executable = .ok p ∧ c'.executable = .ok p' ∧ d.executable = .ok q ∧
      ∀ t, q.fullMatches t = true ↔ p.fullMatches t = true ∨ p'.fullMatches t = true := by
  obtain ⟨entries, placed, a, entriesOk, sorted, auxiliary, required, full, -⟩ :=
    Compile.compile_eq_ok_iff.1 h
  obtain ⟨entries', placed', -, entriesOk', sorted', -, -, full', -⟩ :=
    Compile.compile_eq_ok_iff.1 h'
  have filled : entries ≠ [] := fun empty => ne (empty ▸ entriesOk)
  have filled' : entries' ≠ [] := fun empty => ne' (empty ▸ entriesOk')
  have entriesBoth := tableEntries_append entriesOk entriesOk'
  obtain ⟨merged, sortedBoth⟩ := exists_classify_append ⟨placed, sorted⟩ ⟨placed', sorted'⟩
  have union := fun c x => mem_pointsOf_append (c := c) (x := x) sorted sorted' sortedBoth
  have fullBoth : ∀ p ∈ merged, p.sequence.points ≠ [] := by
    rw [points_ne_nil_iff_pointsOf] at full full' ⊢
    intro c empty
    exact ((union c []).1 empty).elim (full c) (full' c)
  have requiredBoth : all = true → ∀ c, sequencesOf merged c ≠ [] := by
    intro every c
    exact sequencesOf_ne_nil_of_subset (fun x hx => (union c x).2 (.inl hx)) (required every c)
  have compiled : (compile ⟨.points, all⟩ (items ++ items')).result =
      .ok (Compile.assembled .points merged a) :=
    Compile.compile_eq_ok_iff.2
      ⟨_, merged, a, entriesBoth, sortedBoth, auxiliary, requiredBoth, fullBoth, rfl⟩
  obtain ⟨_, p, one, -, executable, spells⟩ := exists_executable h rfl entriesOk filled
  obtain ⟨_, p', two, -, executable', spells'⟩ := exists_executable h' rfl entriesOk' filled'
  obtain ⟨_, q, both, -, executableBoth, spellsBoth⟩ :=
    exists_executable compiled rfl entriesBoth (List.append_ne_nil_of_left_ne_nil filled entries')
  cases sorted.symm.trans one
  cases sorted'.symm.trans two
  cases sortedBoth.symm.trans both
  refine ⟨_, p, p', q, compiled, executable, executable', executableBoth, fun t => ?_⟩
  rw [fullMatches_iff_of_spells spells, fullMatches_iff_of_spells spells',
    fullMatches_iff_of_spells spellsBoth, recognised_union union, Flavor.image_add,
    Language.mem_add]

theorem compile_append_hearts_workers : ∃ c c' d p p' q,
    (compile ⟨.points, false⟩ (hearts.map .entry)).result = .ok c ∧
      (compile ⟨.points, false⟩ (workers.map .entry)).result = .ok c' ∧
      tableEntries (hearts.map .entry) ≠ .ok [] ∧ tableEntries (workers.map .entry) ≠ .ok [] ∧
      (compile ⟨.points, false⟩ (hearts.map .entry ++ workers.map .entry)).result = .ok d ∧
      c.executable = .ok p ∧ c'.executable = .ok p' ∧ d.executable = .ok q ∧
      ∀ t, q.fullMatches t = true ↔ p.fullMatches t = true ∨ p'.fullMatches t = true := by
  have sorted' : classify workers = .ok [⟨.leadingGender, ⟨['💻'], true⟩⟩,
      ⟨.trailingGenderWithVariant, ⟨['🕵'], true⟩⟩, ⟨.trailingGender, ⟨['🏃'], true⟩⟩] := by
    decide
  have filled : tableEntries (hearts.map .entry) ≠ .ok [] := by
    rw [tableEntries_map_entry]
    decide
  have filled' : tableEntries (workers.map .entry) ≠ .ok [] := by
    rw [tableEntries_map_entry]
    decide
  obtain ⟨c, compiled⟩ := exists_compile classify_hearts (by decide)
  obtain ⟨c', compiled'⟩ := exists_compile sorted' (by decide)
  obtain ⟨d, p, p', q, both⟩ := compile_append compiled compiled' filled filled'
  exact ⟨c, c', d, p, p', q, compiled, compiled', filled, filled', both⟩

end Pictograph
