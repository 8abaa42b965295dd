import Pictograph.Proofs.Compile.Completeness
import Pictograph.Proofs.Pattern.Longest

/-!
The longest match. Within a class the longest rendering is preferred; between classes the first one
that fits wins, so a longer rendering is found exactly if no earlier class has a part of it that it
starts with.
-/

namespace Pictograph

def IsCode (cs : List Char) (n : Nat) : Prop := ∃ c ∈ cs, n = c.toNat

theorem not_isCode {cs ds : List Char} (other : (cs.all fun c => c ∉ ds) = true) :
    ∀ n, IsCode cs n → ¬ IsCode ds n := by
  intro n hc hd
  obtain ⟨c, hc, rfl⟩ := hc
  obtain ⟨d, hd, e⟩ := hd
  rw [Char.toNat_inj] at e
  exact forall_mem_of_all other c hc (e ▸ hd)

theorem image_anyChar (cs : List Char) :
    Flavor.points.image (anyChar cs) = Pattern.letters (IsCode cs) := by
  ext w
  rw [Flavor.mem_image_points, Pattern.mem_letters]
  constructor
  · intro h
    obtain ⟨_, ⟨c, hc, rfl⟩, rfl⟩ := h
    exact ⟨c.toNat, ⟨c, hc, rfl⟩, rfl⟩
  · intro h
    obtain ⟨_, ⟨c, hc, rfl⟩, rfl⟩ := h
    exact ⟨[c], ⟨c, hc, rfl⟩, rfl⟩

theorem Flavor.exists_of_longer {L : Language Char} {v : List Char} {rest w r : Text}
    (same : Text.ofChars v ++ rest = w ++ r) (longer : (Text.ofChars v).length < w.length)
    (hw : w ∈ Flavor.points.image L) :
    ∃ u, u ≠ [] ∧ w = Text.ofChars (v ++ u) ∧ rest = Text.ofChars u ++ r ∧ v ++ u ∈ L := by
  rcases List.append_eq_append_iff.1 same with ⟨x, rfl, follows⟩ | ⟨x, e, -⟩
  · obtain ⟨u, rfl, hu⟩ := exists_append_of_mem_image hw
    refine ⟨u, ?_, List.map_append.symm, follows, hu⟩
    intro none
    simp [none, Text.ofChars] at longer
  · rw [e, List.length_append] at longer
    omega

namespace Pattern

variable {p : Pattern} {cs : List Char}

theorem spells_letters (h : Fragment .points (Flavor.points.image (anyChar cs)) p) :
    p.Spells (letters (IsCode cs)) := by
  rw [← image_anyChar]
  exact h.spells

theorem single_of_fragment (h : Fragment .points (Flavor.points.image (anyChar cs)) p) :
    p.Single :=
  h.greedy.single_letters (spells_letters h)

variable {a : Auxiliary} {b : Pattern} {c : Class} {K : Language Nat}

theorem prefersLongest_concat_opt (h : Fragment .points (Flavor.points.image (anyChar cs)) p)
    (greedy : b.Greedy) : (concat [b, opt p]).PrefersLongest := by
  have spells := spells_letters h
  have tail : (concat [opt p]).Greedy := h.greedy.opt spells.lt_letters
  refine greedy.prefersLongest_concat_cons tail.prefersLongest (patient_of_used 0 ?_)
  intro t r hr
  rcases List.mem_append.1 hr with hr | hr
  · have used := spells.used_letters hr
    omega
  · rw [List.mem_singleton.1 hr]
    omega

theorem prefersLongest_around (sound : a.Sound .points) (h : Fragment .points K b) :
    (concat (around a c b)).PrefersLongest := by
  have single := fun {cs : List Char} {p : Pattern}
    (h : Fragment .points (Flavor.points.image (anyChar cs)) p) => single_of_fragment h
  have signs : ∀ {cs : List Char} {p : Pattern},
      Fragment .points (Flavor.points.image (anyChar cs)) p →
      (cs.all fun c => c ∉ [femaleSign, maleSign]) = true → (cs.all fun c => c ∉ [zwj]) = true →
      (concat (b :: [opt p, a.zwj, a.genderSign, opt a.vs16])).PrefersLongest := by
    intro cs p hp noSign noJoiner
    have greedy := greedy_tail (spells_letters hp) (spells_letters sound.zwj)
      (spells_letters sound.vs16) (single hp) (single sound.zwj) (single sound.genderSign)
      (single sound.vs16) (not_isCode noJoiner)
    have patient := patient_tail (spells_letters hp) (spells_letters sound.zwj)
      (spells_letters sound.genderSign) (spells_letters sound.vs16) (not_isCode noSign)
      (not_isCode (by decide))
    exact h.greedy.prefersLongest_concat_cons greedy.prefersLongest patient
  cases c with
  | multiDiversity => exact h.greedy.prefersLongest
  | joined => exact h.greedy.prefersLongest
  | normal => exact h.greedy.prefersLongest
  | leadingGender =>
    have joiner := single_opt_concat (spells_letters sound.skinTone) (spells_letters sound.zwj)
      (single sound.skinTone) (single sound.zwj) (not_isCode (by decide))
    have front : (concat [a.manWomanPerson, opt a.skinTone, a.zwj]).Single :=
      (single sound.manWomanPerson).concat_cons joiner
    have body : (concat [b]).Greedy := h.greedy
    have whole : (concat (around a .leadingGender b)).Greedy := front.greedy_concat_append body
    exact whole.prefersLongest
  | trailingGenderWithVariant => exact signs sound.skinToneOrVs16 (by decide) (by decide)
  | trailingGender => exact signs sound.skinTone (by decide) (by decide)
  | keycap =>
    have tail := single_opt_concat (spells_letters sound.vs16) (spells_letters sound.keycap)
      (single sound.vs16) (single sound.keycap) (not_isCode (by decide))
    refine h.greedy.prefersLongest_concat_cons tail.greedy.prefersLongest (patient_of_used 1 ?_)
    intro t r hr
    obtain ⟨m, hm, hr⟩ := List.mem_flatMap.1 hr
    have used := (spells_letters sound.keycap).used_letters hr
    rcases List.mem_append.1 hm with hm | hm
    · have used' := (spells_letters sound.vs16).used_letters hm
      omega
    · rw [List.mem_singleton.1 hm] at used
      omega
  | variantDiversity => exact prefersLongest_concat_opt sound.skinToneOrVs16 h.greedy
  | diversity => exact prefersLongest_concat_opt sound.skinTone h.greedy
  | textDefault =>
    have tail : (concat [a.vs16]).Single := single sound.vs16
    refine h.greedy.prefersLongest_concat_cons tail.greedy.prefersLongest (patient_of_used 1 ?_)
    intro t r hr
    have used := (spells_letters sound.vs16).used_letters hr
    omega
  | variant =>
    have spells := spells_letters sound.vs16
    have tail : (concat [group (alt a.vs16 (notAhead a.vs15))]).Greedy :=
      sound.vs16.greedy.alt_notAhead spells.lt_letters
    refine h.greedy.prefersLongest_concat_cons tail.prefersLongest (patient_of_used 0 ?_)
    intro t r hr
    rcases List.mem_append.1 hr with hr | hr
    · have used := spells.used_letters hr
      omega
    · rw [eq_of_mem_rests_notAhead hr]
      omega

end Pattern

theorem exists_of_head?_flatMap {α β : Type} [BEq α] [LawfulBEq α] {f : α → List β} {l : List α}
    {b : β} (h : (l.flatMap f).head? = some b) :
    ∃ x ∈ l, (f x).head? = some b ∧ ∀ y, l.idxOf y < l.idxOf x → f y = [] := by
  induction l with
  | nil => simp at h
  | cons a l ih =>
    rw [List.flatMap_cons] at h
    by_cases empty : f a = []
    · rw [empty, List.nil_append] at h
      obtain ⟨x, hx, first, earlier⟩ := ih h
      have other : a ≠ x := by
        rintro rfl
        rw [empty] at first
        cases first
      refine ⟨x, List.mem_cons_of_mem a hx, first, ?_⟩
      intro y less
      by_cases same : a = y
      · rw [← same, empty]
      · rw [List.idxOf_cons_ne l same, List.idxOf_cons_ne l other] at less
        exact earlier y (Nat.lt_of_succ_lt_succ less)
    · rw [List.head?_append_of_ne_nil _ empty] at h
      refine ⟨a, List.mem_cons_self, h, ?_⟩
      intro y less
      rw [List.idxOf_cons_self] at less
      omega

namespace Compile

variable {placed : List Placed} {a : Auxiliary}

theorem prefersLongest_restsOf (sound : a.Sound .points) {c : Class} {t r : Text}
    (first : (restsOf .points placed a c t).head? = some r) :
    ∀ r' ∈ restsOf .points placed a c t, r.length ≤ r'.length := by
  unfold restsOf alternative at first ⊢
  cases e : body .points placed c with
  | none =>
    rw [e] at first
    cases first
  | some b =>
    rw [e] at first
    exact Pattern.prefersLongest_around sound (fragment_body e).2 t r first

theorem exists_of_head?_rests (sound : a.Sound .points) (ne : placed ≠ [])
    (full : ∀ p ∈ placed, p.sequence.points ≠ []) {t r : Text}
    (first : ((assembled .points placed a).pattern.rests t).head? = some r) :
    ∃ c : Class, r ∈ restsOf .points placed a c t ∧
      (∀ r' ∈ restsOf .points placed a c t, r.length ≤ r'.length) ∧
      ∀ d, d.rank < c.rank → restsOf .points placed a d t = [] := by
  rw [rests_assembled ne full] at first
  obtain ⟨c, -, here, earlier⟩ := exists_of_head?_flatMap first
  exact ⟨c, List.mem_of_head? here, prefersLongest_restsOf sound here, earlier⟩

theorem lt_of_mem_rests (sound : a.Sound .points) (ne : placed ≠ [])
    (full : ∀ p ∈ placed, p.sequence.points ≠ []) (t : Text) :
    ∀ r ∈ (assembled .points placed a).pattern.rests t, r.length < t.length := by
  intro r hr
  obtain ⟨w, some, rfl⟩ := exists_of_mem_rests sound ne full hr
  have pos := List.length_pos_iff.2 some
  simp only [Flavor.encode_points, Text.ofChars, List.length_append, List.length_map]
  omega

end Compile

/-- Does no class stop short of a word that only later classes have? -/
def NeverCut (placed : List Placed) : Prop :=
  ∀ (c : Class) (v r : List Char), r ≠ [] →
    v ∈ c.wordsBefore (contents placed c) (Text.ofChars r) → v ++ r ∈ recognised placed →
    ∃ d : Class, d.rank ≤ c.rank ∧ v ++ r ∈ d.words (contents placed d)

/-- Is no match that a search finds the start of a longer one, unless after this the plain picture
is asked for? -/
def FindsLongest (p : Pattern) : Prop :=
  ∀ (t : Text), ∀ m ∈ p.find t, ∀ w r, t.drop m.start = w ++ r → m.text.length < w.length →
    p.fullMatches w = true → r.head? = some vs15.toNat

namespace Compile

variable {placed : List Placed} {a : Auxiliary}

theorem findsLongest_of_neverCut (sound : a.Sound .points) (ne : placed ≠ [])
    (full : ∀ p ∈ placed, p.sequence.points ≠ []) (never : NeverCut placed) :
    FindsLongest (assembled .points placed a).pattern := by
  have spells := spells_assembled sound ne full
  intro t m hm w r split longer whole
  by_contra plain
  obtain ⟨rest, -, found, takes⟩ := Pattern.mem_find hm
  have first := takes.head? (lt_of_mem_rests sound ne full _)
  obtain ⟨c, hc, longest, earlier⟩ := exists_of_head?_rests sound ne full first
  obtain ⟨v, hv, text⟩ := (mem_restsOf sound full).1 hc
  have same : m.text ++ rest = w ++ r := found.symm.trans split
  rw [fullMatches_iff_of_spells spells] at whole
  rw [Flavor.encode_points] at text
  rw [← text] at longer longest earlier same
  -- The longer word is the match with something after it.
  obtain ⟨u, some, word, follows, hu⟩ := Flavor.exists_of_longer same longer whole
  have next : rest.head? = (Text.ofChars u).head? := by
    rw [follows]
    exact List.head?_append_of_ne_nil _ (by simpa [Text.ofChars] using some)
  rw [Class.wordsBefore_congr c _ next] at hv
  obtain ⟨d, before, hd⟩ := never c v u some hv hu
  have fits : r ∈ restsOf .points placed a d (Text.ofChars v ++ rest) := by
    rw [same, mem_restsOf sound full, Class.wordsBefore_of_head?_ne d _ plain]
    exact ⟨v ++ u, hd, word.symm⟩
  have equal : d = c := by
    have last : ¬ d.rank < c.rank := by
      intro less
      rw [earlier d less] at fits
      simp at fits
    exact (List.idxOf_inj (Class.mem_all d)).1 (le_antisymm before (not_lt.1 last))
  rw [equal] at fits
  have short := longest r fits
  have pos := List.length_pos_iff.2 some
  simp only [follows, Text.ofChars, List.length_append, List.length_map] at short
  omega

theorem neverCut_of_findsLongest (sound : a.Sound .points) (ne : placed ≠ [])
    (full : ∀ p ∈ placed, p.sequence.points ≠ [])
    (longest : FindsLongest (assembled .points placed a).pattern) : NeverCut placed := by
  have spells := spells_assembled sound ne full
  have used := lt_of_mem_rests sound ne full
  intro c v r some hv hw
  let t := Text.ofChars (v ++ r)
  have split : t = Text.ofChars v ++ Text.ofChars r := List.map_append
  have fits : Text.ofChars r ∈ restsOf .points placed a c t := by
    rw [split, mem_restsOf sound full]
    exact ⟨v, hv, rfl⟩
  have whole : (assembled .points placed a).pattern.fullMatches t = true := by
    rw [fullMatches_iff_of_spells spells, Flavor.ofChars_mem_image]
    exact hw
  have somewhere : Text.ofChars r ∈ (assembled .points placed a).pattern.rests t := by
    rw [rests_assembled ne full, List.mem_flatMap]
    exact ⟨c, Class.mem_all c, fits⟩
  obtain ⟨m, hm, start, -⟩ := Pattern.exists_mem_find ⟨_, somewhere, used t _ somewhere⟩
  obtain ⟨rest, -, found, takes⟩ := Pattern.mem_find hm
  rw [start, List.drop_zero] at found
  have all : rest = [] := by
    by_contra left
    have longer : m.text.length < t.length := by
      rw [found, List.length_append]
      exact Nat.lt_add_of_pos_right (List.length_pos_iff.2 left)
    have plain := longest t m hm t [] (by rw [start]; simp) longer whole
    cases plain
  rw [all] at found takes
  have first := takes.head? (used _)
  rw [← found] at first
  obtain ⟨d, hd, -, earlier⟩ := exists_of_head?_rests sound ne full first
  refine ⟨d, ?_, ?_⟩
  · by_contra later
    rw [earlier c (not_le.1 later)] at fits
    simp at fits
  · rw [← List.append_nil t, mem_restsOf sound full, Class.wordsBefore_nil,
      Flavor.ofChars_mem_image] at hd
    exact hd

theorem findsLongest_nil : FindsLongest (assembled .points [] a).pattern := by
  have none : Class.all.filterMap (alternative .points [] a) = [] := rfl
  intro t m hm w r split longer whole
  rw [Pattern.fullMatches_iff, assembled, none] at whole
  have empty : w = [] := (List.mem_singleton.1 whole).symm
  rw [empty] at longer
  simp at longer

end Compile

/-- The matches that a search finds are the longest ones if and only if no class stops short of a
word that only later classes have. -/
theorem findsLongest_iff {settings : CompilerSettings} {items : List TableItem}
    {c : CompiledPattern} (h : (compile settings items).result = .ok c)
    (points : settings.flavor = .points) :
    ∃ entries placed p, tableEntries items = .ok entries ∧ classify entries = .ok placed ∧
      c.executable = .ok p ∧ (FindsLongest p ↔ NeverCut placed) := by
  obtain ⟨entries, placed, a, entriesOk, sorted, auxiliary, -, full, rfl⟩ :=
    Compile.compile_eq_ok_iff.1 h
  rw [points] at auxiliary ⊢
  have sound := Auxiliary.sound_of auxiliary
  refine ⟨entries, placed, _, entriesOk, sorted, Compile.executable_assembled sound, ?_⟩
  by_cases empty : placed = []
  · rw [empty]
    refine iff_of_true Compile.findsLongest_nil ?_
    intro c v r _ _ hw
    obtain ⟨d, hw⟩ := hw
    obtain ⟨_, s, hs, -⟩ := Class.exists_of_mem_words hw
    cases hs
  · exact ⟨Compile.neverCut_of_findsLongest sound empty full,
      Compile.findsLongest_of_neverCut sound empty full⟩

/-- A heart and a heart on fire that is not joined: the class of the heart comes first. -/
def burning : List Entry := [.bare ['❤'] .variant, .bare ['❤', '🔥'] .normal]

theorem burning_cut : ∃ c p, (compile ⟨.points, false⟩ (burning.map .entry)).result = .ok c ∧
    c.executable = .ok p ∧ ¬ FindsLongest p := by
  have sorted : classify burning =
      .ok [⟨.variant, ⟨['❤'], true⟩⟩, ⟨.normal, ⟨['❤', '🔥'], true⟩⟩] := by decide
  obtain ⟨c, compiled⟩ := exists_compile sorted (by decide)
  obtain ⟨entries, placed, p, entriesOk, sorted', executable, longest⟩ :=
    findsLongest_iff compiled rfl
  refine ⟨c, p, compiled, executable, ?_⟩
  rw [tableEntries_map_entry] at entriesOk
  cases entriesOk
  rw [sorted] at sorted'
  cases sorted'
  rw [longest]
  intro never
  obtain ⟨d, before, hd⟩ := never .variant ['❤'] ['🔥'] (by decide)
    (mem_mul_anyChar_add_one.2 (.inl ⟨_, List.mem_singleton_self _, rfl⟩))
    ⟨.normal, _, List.mem_singleton_self _, rfl⟩
  obtain ⟨_, s, hs, -⟩ := Class.exists_of_mem_words hd
  have cls : d = .variant ∨ d = .normal := by
    simpa using List.mem_map_of_mem (f := Placed.cls) (mem_sequencesOf.1 hs)
  rcases cls with rfl | rfl
  · rcases mem_mul_anyChar_add_one.1 hd with ⟨s, hs, e⟩ | ⟨x, -, c, hc, e⟩
    · rw [List.mem_singleton.1 hs] at e
      cases e
    · have split : ['❤'] ++ ['🔥'] = x ++ [c] := e
      have last := (List.append_inj' split rfl).2
      rw [List.mem_singleton.1 hc] at last
      exact absurd last (by decide)
  · exact absurd before (by decide)

end Pictograph
