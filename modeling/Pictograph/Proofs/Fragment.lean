import Pictograph.Proofs.Groups

/-!
Fragments. The pattern of a collection of sequences spells exactly their encodings in the flavor and
prefers the longest. There is one unless the collection or one of its sequences is empty.
-/

namespace Pictograph

/-- A pattern that can stand anywhere, spells the words and prefers the longest. -/
structure Fragment (flavor : Flavor) (words : Language Nat) (p : Pattern) : Prop where
  part : p.Part flavor
  quantifiable : p.isQuantifiable = true
  spells : p.Spells words
  greedy : p.Greedy

namespace Group

variable {flavor : Flavor} {g : Group} {groups : List Group}

def words (g : Group) : Language Nat := {w | ∃ n ∈ g.endings, w.map Int.ofNat = g.stem ++ [n]}

theorem mem_words {w : Text} :
    w ∈ g.words ↔ ∃ n ∈ g.endings, w.map Int.ofNat = g.stem ++ [n] := Iff.rfl

structure Writable (flavor : Flavor) (g : Group) : Prop where
  stem : ∀ n ∈ g.stem, flavor.CanCode n
  endings : ∀ n ∈ g.endings, flavor.CanCode n
  ne : g.endings ≠ []

private theorem words_eq (h : g.Writable flavor) :
    ({g.stem.map Int.toNat} : Language Nat) * Pattern.letters (fun c => (c : Int) ∈ g.endings) =
      g.words := by
  have back : (g.stem.map Int.toNat).map Int.ofNat = g.stem := by
    rw [List.map_map]
    refine (List.map_congr_left fun n hn => ?_).trans (List.map_id g.stem)
    have pos := (h.stem n hn).1
    simp [pos]
  ext w
  simp only [Language.mem_mul, Pattern.mem_word, Pattern.mem_letters, mem_words, exists_eq_left]
  constructor
  · rintro ⟨_, ⟨c, hc, rfl⟩, rfl⟩
    refine ⟨c, hc, ?_⟩
    rw [List.map_append, back]
    rfl
  · rintro ⟨n, hn, e⟩
    obtain ⟨u, v, rfl, hu, hv⟩ := List.map_eq_append_iff.1 e
    obtain ⟨c, rfl, rfl⟩ := List.map_eq_singleton_iff.1 hv
    refine ⟨[c], ⟨c, hn, rfl⟩, ?_⟩
    rw [← hu, List.map_map]
    simp [Function.comp_def]

theorem toPattern_eq (h : g.Writable flavor) :
    ∃ parts, g.toPattern flavor = .ok (Pattern.concat parts) ∧
      (∀ p ∈ parts, p.Part flavor) ∧ (Pattern.concat parts).Single ∧
      (Pattern.concat parts).Spells g.words ∧
      (g.stem = [] → (Pattern.concat parts).isQuantifiable = true ∧
        (Pattern.concat parts).Part flavor) := by
  obtain ⟨last, lastOk, letter⟩ := Span.toPattern_ofValues h.ne h.endings
  have stemOk : g.stem.mapM (Pattern.codeOf flavor) = .ok (g.stem.map Int.toNat) :=
    Traversal.mapM_eq_ok fun n hn => Pattern.codeOf_eq (h.stem n hn)
  refine ⟨(g.stem.map Int.toNat).map .symbol ++ [last], ?_, ?_, ?_, ?_, ?_⟩
  · rw [toPattern, stemOk, lastOk]
    rfl
  · intro p hp
    rcases List.mem_append.1 hp with hp | hp
    · obtain ⟨c, hc, rfl⟩ := List.mem_map.1 hp
      obtain ⟨n, hn, rfl⟩ := List.mem_map.1 hc
      exact .symbol (h.stem n hn).2
    · rw [List.mem_singleton.1 hp]
      exact letter.part
  · exact Pattern.single_concat_symbols _ letter.single
  · rw [← words_eq h]
    exact Pattern.spells_concat_symbols _ _ letter.spells
  · intro bare
    rw [bare]
    exact ⟨letter.quantifiable, letter.part⟩

/-- Of two groups, the one with the longer stem comes first, and never do two stems of one length
both stand at the front of a text. -/
theorem greedy_groups {pattern : Group → Pattern} (canonical : Canonical groups)
    (single : ∀ g ∈ groups, (pattern g).Single)
    (spells : ∀ g ∈ groups, (pattern g).Spells g.words) :
    ∀ t, (groups.flatMap fun g => (pattern g).rests t).Pairwise
      fun r r' => r.length < r'.length := by
  intro t
  refine List.pairwise_flatMap.2 ⟨fun g hg => (single g hg).greedy t, ?_⟩
  refine List.Pairwise.imp_of_mem ?_ canonical.ordered
  intro g h hg hh first r hr r' hr'
  obtain ⟨w, ⟨n, -, hw⟩, ht⟩ := (spells g hg).mem_rests.1 hr
  obtain ⟨w', ⟨n', -, hw'⟩, ht'⟩ := (spells h hh).mem_rests.1 hr'
  have same : w ++ r = w' ++ r' := ht.symm.trans ht'
  have total := congrArg List.length same
  have length := congrArg List.length hw
  have length' := congrArg List.length hw'
  simp only [List.length_append, List.length_map, List.length_singleton] at total length length'
  simp only [before, Bool.or_eq_true, Bool.and_eq_true, decide_eq_true_eq, beq_iff_eq] at first
  rcases first with longer | ⟨even, less⟩
  · omega
  · -- Two stems of one length at the front of one text are the same, but no stem comes twice.
    exfalso
    have equal : w = w' := (List.append_inj same (by omega)).1
    rw [equal, hw'] at hw
    have stems : h.stem = g.stem := (List.append_inj' hw rfl).1
    rw [stems] at less
    exact lt_irrefl _ less

def allWords (groups : List Group) : Language Nat := {w | ∃ g ∈ groups, w ∈ g.words}

theorem fragment_groups {parts : Group → List Pattern} (ne : groups ≠ [])
    (canonical : Canonical groups) (part : ∀ g ∈ groups, ∀ p ∈ parts g, p.Part flavor)
    (single : ∀ g ∈ groups, (Pattern.concat (parts g)).Single)
    (spells : ∀ g ∈ groups, (Pattern.concat (parts g)).Spells g.words) :
    Fragment flavor (allWords groups)
      (.group (Pattern.anyOf (groups.map fun g => Pattern.concat (parts g)))) := by
  refine ⟨?_, rfl, Pattern.spellsBefore_anyOf ne spells, ?_⟩
  · have branches : Pattern.anyOf (groups.map fun g => Pattern.concat (parts g)) =
        Pattern.choice (groups.map parts) := by
      rw [Pattern.choice, List.map_map]
      rfl
    rw [branches]
    refine .group (by simpa using ne) ?_
    intro b hb
    obtain ⟨g, hg, rfl⟩ := List.mem_map.1 hb
    exact part g hg
  · intro t
    rw [Pattern.rests, Pattern.rests_anyOf (by simpa using ne), List.flatMap_map]
    exact greedy_groups canonical single spells t

theorem patternOf_groups (name : Text) {sequences : List (List Int)}
    (grouped : ofSequences flavor sequences = .ok groups) (ne : groups ≠ [])
    (canonical : Canonical groups) (writable : ∀ g ∈ groups, g.Writable flavor) :
    ∃ p, patternOf flavor name sequences = .ok p ∧ Fragment flavor (allWords groups) p := by
  choose! parts toPattern part single spells bare using
    fun g hg => Group.toPattern_eq (writable g hg)
  have wrapped := fragment_groups ne canonical part single spells
  cases groups with
  | nil => exact absurd rfl ne
  | cons g groups =>
    cases groups with
    | nil =>
      have only := toPattern g List.mem_cons_self
      by_cases stem : g.stem = []
      · refine ⟨Pattern.concat (parts g), ?_, ?_⟩
        · rw [patternOf, grouped]
          simpa [bind, Except.bind, stem] using only
        · obtain ⟨quantifiable, whole⟩ := bare g List.mem_cons_self stem
          exact ⟨whole, quantifiable, wrapped.spells, wrapped.greedy⟩
      · refine ⟨_, ?_, wrapped⟩
        rw [patternOf, grouped]
        simp [bind, Except.bind, pure, Except.pure, stem, only, Pattern.anyOf]
    | cons h groups =>
      refine ⟨_, ?_, wrapped⟩
      have all := Traversal.mapM_eq_ok toPattern
      rw [patternOf, grouped]
      simp only [bind, Except.bind, pure, Except.pure, all]

theorem writable_ofCuts {cuts : List (List Int × Int)}
    (h : ∀ c ∈ cuts, (∀ n ∈ c.1, flavor.CanCode n) ∧ flavor.CanCode c.2) {g : Group}
    (hg : g ∈ ofCuts cuts) : g.Writable flavor := by
  have filled := (canonical_ofCuts cuts).filled g hg
  have known : ∀ n ∈ g.endings, (g.stem, n) ∈ cuts := by
    intro n hn
    exact has_ofCuts.1 ⟨g, hg, rfl, hn⟩
  obtain ⟨n, hn⟩ := List.exists_mem_of_ne_nil _ filled
  exact ⟨(h _ (known n hn)).1, fun n hn => (h _ (known n hn)).2, filled⟩

theorem ofSequences_numbers {sequences : List Sequence} (full : ∀ s ∈ sequences, s.points ≠ []) :
    ofSequences flavor (sequences.map (·.numbers)) =
      .ok (ofCuts (sequences.map fun s => cutWord (flavor.encode s.text))) := by
  have cuts : (sequences.map (·.numbers)).mapM (cut flavor) =
      .ok (sequences.map fun s => cutWord (flavor.encode s.text)) := by
    rw [List.mapM_map]
    exact Traversal.mapM_eq_ok fun s hs => cut_numbers (full s hs)
  rw [ofSequences, cuts]
  rfl

theorem exists_mem_words_ofCuts {sequences : List Sequence} (full : ∀ s ∈ sequences, s.points ≠ [])
    {w : Text} :
    (∃ g ∈ ofCuts (sequences.map fun s => cutWord (flavor.encode s.text)), w ∈ g.words) ↔
      ∃ s ∈ sequences, flavor.encode s.text = w := by
  have ne : ∀ s ∈ sequences, flavor.encode s.text ≠ [] := fun s hs =>
    s.encode_text_ne_nil flavor (full s hs)
  constructor
  · rintro ⟨g, hg, n, hn, e⟩
    obtain ⟨s, hs, cut⟩ := List.mem_map.1 (has_ofCuts.1 ⟨g, hg, rfl, hn⟩)
    have whole := cutWord_append (ne s hs)
    rw [cut, ← e] at whole
    exact ⟨s, hs, (List.map_injective_iff.2 (fun a b h => Int.ofNat.inj h) whole).symm⟩
  · rintro ⟨s, hs, rfl⟩
    have cut : cutWord (flavor.encode s.text) ∈
        sequences.map fun s => cutWord (flavor.encode s.text) := List.mem_map.2 ⟨s, hs, rfl⟩
    obtain ⟨g, hg, stem, hn⟩ := has_ofCuts.2 cut
    refine ⟨g, hg, _, hn, ?_⟩
    rw [stem]
    exact (cutWord_append (ne s hs)).symm

end Group

def encodings (flavor : Flavor) (sequences : List Sequence) : Language Nat :=
  {w | ∃ s ∈ sequences, flavor.encode s.text = w}

theorem mem_encodings {flavor : Flavor} {sequences : List Sequence} {w : Text} :
    w ∈ encodings flavor sequences ↔ ∃ s ∈ sequences, flavor.encode s.text = w := Iff.rfl

theorem patternOf_numbers (flavor : Flavor) (name : Text) {sequences : List Sequence}
    (ne : sequences ≠ []) (full : ∀ s ∈ sequences, s.points ≠ []) :
    ∃ p, patternOf flavor name (sequences.map (·.numbers)) = .ok p ∧
      Fragment flavor (encodings flavor sequences) p := by
  let groups := Group.ofCuts (sequences.map fun s => Group.cutWord (flavor.encode s.text))
  have grouped : Group.ofSequences flavor (sequences.map (·.numbers)) = .ok groups :=
    Group.ofSequences_numbers full
  have writable : ∀ g ∈ groups, g.Writable flavor := by
    intro g hg
    refine Group.writable_ofCuts ?_ hg
    intro c hc
    obtain ⟨s, hs, rfl⟩ := List.mem_map.1 hc
    have whole := Group.cutWord_append (s.encode_text_ne_nil flavor (full s hs))
    have code : ∀ n ∈ (flavor.encode s.text).map Int.ofNat, flavor.CanCode n := by
      intro n hn
      obtain ⟨u, hu, rfl⟩ := List.mem_map.1 hn
      exact ⟨Int.natCast_nonneg u, canWrite_of_mem_encode hu⟩
    rw [← whole] at code
    exact ⟨fun n hn => code n (List.mem_append_left _ hn), code _ (by simp)⟩
  have filled : groups ≠ [] := by
    obtain ⟨s, hs⟩ := List.exists_mem_of_ne_nil _ ne
    obtain ⟨g, hg, -⟩ := (Group.exists_mem_words_ofCuts full).2 ⟨s, hs, rfl⟩
    exact List.ne_nil_of_mem hg
  have words : Group.allWords groups = encodings flavor sequences := by
    ext w
    exact Group.exists_mem_words_ofCuts full
  rw [← words]
  exact Group.patternOf_groups name grouped filled (Group.canonical_ofCuts _) writable

theorem points_ne_nil_of_patternOf {flavor : Flavor} {name : Text} {sequences : List Sequence}
    {p : Pattern} (h : patternOf flavor name (sequences.map (·.numbers)) = .ok p) :
    sequences ≠ [] ∧ ∀ s ∈ sequences, s.points ≠ [] := by
  obtain ⟨groups, grouped, h⟩ := Traversal.bind_eq_ok.1 h
  obtain ⟨cuts, cutOk, h'⟩ := Traversal.bind_eq_ok.1 grouped
  constructor
  · rintro rfl
    cases cutOk
    cases h'
    cases h
  · intro s hs empty
    obtain ⟨c, -, ok⟩ := Traversal.ok_of_mapM_eq_ok cutOk (List.mem_map_of_mem hs)
    rw [Group.cut_numbers_nil empty] at ok
    cases ok

theorem patternOf_numbers_of_nil (flavor : Flavor) (name : Text) {sequences : List Sequence}
    (nothing : ∃ s ∈ sequences, s.points = []) :
    patternOf flavor name (sequences.map (·.numbers)) = .error .emptySequence := by
  obtain ⟨s, hs, empty⟩ := nothing
  have fails : Traversal.FailsWith (· = .emptySequence)
      ((sequences.map (·.numbers)).mapM (Group.cut flavor)) := by
    refine .mapM fun numbers hn => ?_
    obtain ⟨s, -, rfl⟩ := List.mem_map.1 hn
    by_cases points : s.points = []
    · rw [Group.cut_numbers_nil points]
      exact .error rfl
    · rw [Group.cut_numbers points]
      exact .ok _ _
  rw [patternOf, Group.ofSequences]
  cases cuts : (sequences.map (·.numbers)).mapM (Group.cut flavor) with
  | ok out =>
    obtain ⟨c, -, ok⟩ := Traversal.ok_of_mapM_eq_ok cuts (List.mem_map_of_mem hs)
    rw [Group.cut_numbers_nil empty] at ok
    cases ok
  | error f =>
    rw [fails f cuts]
    rfl

theorem Group.ofSequences_congr (flavor : Flavor) {sequences sequences' : List Sequence}
    (full : ∀ s ∈ sequences, s.points ≠ []) (full' : ∀ s ∈ sequences', s.points ≠ [])
    (same : ∀ x, (∃ s ∈ sequences, s.points = x) ↔ ∃ s ∈ sequences', s.points = x) :
    Group.ofSequences flavor (sequences.map (·.numbers)) =
      Group.ofSequences flavor (sequences'.map (·.numbers)) := by
  have sub : ∀ {l l' : List Sequence},
      (∀ x, (∃ s ∈ l, s.points = x) ↔ ∃ s ∈ l', s.points = x) →
      ∀ c ∈ l.map fun s => Group.cutWord (flavor.encode s.text),
        c ∈ l'.map fun s => Group.cutWord (flavor.encode s.text) := by
    intro l l' same c hc
    obtain ⟨s, hs, rfl⟩ := List.mem_map.1 hc
    obtain ⟨s', hs', points⟩ := (same s.points).1 ⟨s, hs, rfl⟩
    refine List.mem_map.2 ⟨s', hs', ?_⟩
    rw [Sequence.text, Sequence.text, points]
  have groups : Group.ofCuts (sequences.map fun s => Group.cutWord (flavor.encode s.text)) =
      Group.ofCuts (sequences'.map fun s => Group.cutWord (flavor.encode s.text)) := by
    refine (Group.canonical_ofCuts _).ext (Group.canonical_ofCuts _) fun stem ending => ?_
    rw [Group.has_ofCuts, Group.has_ofCuts]
    exact ⟨sub same _, sub (fun x => (same x).symm) _⟩
  rw [Group.ofSequences_numbers full, Group.ofSequences_numbers full', groups]

/-- The pattern of sequences is a function of the set of their points. -/
theorem patternOf_congr (flavor : Flavor) (name : Text) {sequences sequences' : List Sequence}
    (full : ∀ s ∈ sequences, s.points ≠ []) (full' : ∀ s ∈ sequences', s.points ≠ [])
    (same : ∀ x, (∃ s ∈ sequences, s.points = x) ↔ ∃ s ∈ sequences', s.points = x) :
    patternOf flavor name (sequences.map (·.numbers)) =
      patternOf flavor name (sequences'.map (·.numbers)) := by
  rw [patternOf, patternOf, Group.ofSequences_congr flavor full full' same]

end Pictograph
