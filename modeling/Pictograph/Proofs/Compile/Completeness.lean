import Pictograph.Proofs.Classify.Smallest
import Pictograph.Proofs.Compile.Language

/-!
Completeness. A compiled pattern recognises every rendering of an entry that puts selectors and
tones where its class does; for any other entry there is a table with it whose pattern misses one.
-/

namespace Pictograph

variable {entries : List Entry} {placed : List Placed} {e : Entry}

theorem exists_compile (sorted : classify entries = .ok placed)
    (full : ∀ p ∈ placed, p.sequence.points ≠ []) :
    ∃ c, (compile ⟨.points, false⟩ (entries.map .entry)).result = .ok c := by
  obtain ⟨a, auxiliary, -⟩ := Auxiliary.exists_of .points
  exact ⟨_, Compile.compile_eq_ok_iff.2
    ⟨entries, placed, a, tableEntries_map_entry entries, sorted, auxiliary, by simp, full, rfl⟩⟩

theorem exists_fullMatches_iff {all : Bool} {items : List TableItem} {c : CompiledPattern}
    (h : (compile ⟨.points, all⟩ items).result = .ok c) (he : tableEntries items = .ok entries)
    (ne : entries ≠ []) :
    ∃ placed p, classify entries = .ok placed ∧ (∀ p ∈ placed, p.sequence.points ≠ []) ∧
      c.executable = .ok p ∧
      ∀ w, p.fullMatches (Text.ofChars w) = true ↔ w ∈ recognised placed := by
  obtain ⟨placed, p, sorted, full, executable, spells⟩ := exists_executable h rfl he ne
  refine ⟨placed, p, sorted, full, executable, fun w => ?_⟩
  rw [fullMatches_iff_of_spells spells, Flavor.ofChars_mem_image]

/-- All tables that compile recognise all renderings of an entry if and only if the entry puts
selectors and tones where its class does. -/
theorem renderings_recognised_iff (shown : e.kind ≠ .keycap ∧ e.kind ≠ .textDefault)
    (occurs : ∃ all items entries c, (compile ⟨.points, all⟩ items).result = .ok c ∧
      tableEntries items = .ok entries ∧ e ∈ entries) :
    (∀ all items entries c, (compile ⟨.points, all⟩ items).result = .ok c →
      tableEntries items = .ok entries → e ∈ entries →
      ∃ p ss, c.executable = .ok p ∧ e.renderings = .ok ss ∧
        ∀ s ∈ ss, p.fullMatches s.text = true) ↔ e.Agrees := by
  constructor
  · intro recognises
    obtain ⟨all, items, entries, c, compiled, he, mem⟩ := occurs
    obtain ⟨placed, -, sorted, full, -⟩ :=
      exists_fullMatches_iff compiled he (List.ne_nil_of_mem mem)
    refine agrees_of_recognised sorted full mem ?_
    intro entries' placed' mem' sorted' full'
    obtain ⟨c', compiled'⟩ := exists_compile sorted' full'
    have he' := tableEntries_map_entry entries'
    obtain ⟨p, ss, executable, hss, whole⟩ := recognises _ _ _ _ compiled' he' mem'
    obtain ⟨placed'', p'', sorted'', -, executable', words⟩ :=
      exists_fullMatches_iff compiled' he' (List.ne_nil_of_mem mem')
    rw [sorted'] at sorted''
    cases sorted''
    rw [executable] at executable'
    cases executable'
    exact ⟨ss, hss, fun s hs => (words s.points).1 (whole s hs)⟩
  · intro agrees all items entries c compiled he mem
    obtain ⟨placed, p, sorted, -, executable, words⟩ :=
      exists_fullMatches_iff compiled he (List.ne_nil_of_mem mem)
    obtain ⟨ss, hss⟩ := exists_renderings sorted mem
    refine ⟨p, ss, executable, hss, fun s hs => ?_⟩
    exact (words s.points).2 (mem_recognised_of_agrees sorted mem shown agrees hss s hs)

/-- A finger that points up takes skin tones, but its class does not keep its selector. -/
def pointing : Entry := .bare ['☝', vs16] .diversity

theorem pointing_not_recognised :
    ¬ ∀ all items entries c, (compile ⟨.points, all⟩ items).result = .ok c →
      tableEntries items = .ok entries → pointing ∈ entries →
      ∃ p ss, c.executable = .ok p ∧ pointing.renderings = .ok ss ∧
        ∀ s ∈ ss, p.fullMatches s.text = true := by
  have sorted : classify [pointing] = .ok [⟨.diversity, ⟨['☝'], true⟩⟩] := by decide
  obtain ⟨c, compiled⟩ := exists_compile sorted (by decide)
  have disagrees : ¬ pointing.Agrees := by
    have selector : ['☝', vs16] ≠ Class.dropLateSelectors ['☝', vs16] := by decide
    have free : zwj ∉ ['☝', vs16] := by decide
    simpa [Entry.Agrees, pointing, Entry.bare, free] using selector
  rwa [renderings_recognised_iff (by decide)
    ⟨false, _, [pointing], c, compiled, tableEntries_map_entry _, List.mem_singleton_self _⟩]

end Pictograph
