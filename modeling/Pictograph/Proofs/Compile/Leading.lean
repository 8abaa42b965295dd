import Pictograph.Proofs.Compile.Completeness

/-!
The alternative of the families that a person leads. It is put together from four fragments, the
last of which has one residual for each family; what it accepts are the renderings of all members
of these families and nothing else.
-/

namespace Pictograph

theorem Class.name_injective : Function.Injective Class.name := by
  intro c d same
  have distinct : (all.map name).Nodup := by decide
  exact List.inj_on_of_nodup_map distinct (mem_all c) (mem_all d) same

namespace Auxiliary

def names : List Text :=
  ["zwj", "vs15", "vs16", "keycap", "skin_tone", "skin_tone_or_vs16", "gender_sign",
    "man_woman_person"].map codes

theorem map_fst_fragments (a : Auxiliary) : a.fragments.map Prod.fst = names := rfl

theorem name_notMem_names (c : Class) : c.name ∉ names := by
  cases c <;> decide

end Auxiliary

namespace CompiledPattern

def fragment? (c : CompiledPattern) (name : Text) : Option Pattern := c.fragments.lookup name

/-- The source of the alternative: a person, a tone or none, a joiner, and what is left of a family
without the person. -/
def leadingSource? (c : CompiledPattern) : Option Source := do
  let head ← c.fragment? (codes "man_woman_person")
  let tone ← c.fragment? (codes "skin_tone")
  let joiner ← c.fragment? (codes "zwj")
  let left ← c.fragment? (codes "zwj_leading_gender")
  return head.source c.flavor ++ (tone.source c.flavor ++ ['?']) ++ joiner.source c.flavor ++
    left.source c.flavor

end CompiledPattern

namespace Pattern

theorem source_infix_anyOf (flavor : Flavor) {p : Pattern} {ps : List Pattern} (h : p ∈ ps) :
    p.source flavor <:+: (anyOf ps).source flavor := by
  induction ps with
  | nil => simp at h
  | cons q ps ih =>
    cases ps with
    | nil =>
      rw [List.mem_singleton.1 h]
      exact List.infix_rfl
    | cons q' ps =>
      have step : anyOf (q :: q' :: ps) = alt q (anyOf (q' :: ps)) := rfl
      rw [step, source]
      rcases List.mem_cons.1 h with rfl | h
      · exact (List.prefix_append _ _).isInfix
      · apply (ih h).trans
        apply List.IsSuffix.isInfix
        exact (List.suffix_cons _ _).trans (List.suffix_append _ _)

theorem read_source_around {flavor : Flavor} {a : Auxiliary} {b : Pattern} {L : Language Char}
    (sound : a.Sound flavor) (h : Fragment flavor (flavor.image L) b) (c : Class) :
    read ((concat (around a c b)).source flavor) = some (concat (around a c b)) := by
  have parts : ∀ branch ∈ [around a c b], ∀ p ∈ branch, p.Part flavor := by
    rw [List.forall_mem_singleton]
    exact part_around sound h
  exact read_source (by simp) parts

end Pattern

namespace Compile

variable {flavor : Flavor} {placed : List Placed} {a : Auxiliary}

theorem fragment?_class (flavor : Flavor) (placed : List Placed) (a : Auxiliary) (c : Class) :
    (assembled flavor placed a).fragment? c.name = body flavor placed c := by
  have other : a.fragments.lookup c.name = none := by
    rw [List.lookup_eq_none_iff]
    intro p hp
    rw [bne_iff_ne]
    intro same
    apply Auxiliary.name_notMem_names c
    rw [same, ← a.map_fst_fragments]
    exact List.mem_map_of_mem hp
  rw [CompiledPattern.fragment?, assembled, List.lookup_append,
    lookup_filterMap Class.name_injective, if_pos (Class.mem_all c), other, Option.or_none]

theorem fragment?_shared (flavor : Flavor) (placed : List Placed) (a : Auxiliary) {name : Text}
    (shared : name ∈ Auxiliary.names) :
    (assembled flavor placed a).fragment? name = a.fragments.lookup name := by
  have other : (Class.all.filterMap fun c => (body flavor placed c).map
      fun b => (c.name, b)).lookup name = none := by
    rw [List.lookup_eq_none_iff]
    intro p hp
    obtain ⟨c, -, made⟩ := List.mem_filterMap.1 hp
    obtain ⟨b, -, rfl⟩ := Option.map_eq_some_iff.1 made
    rw [bne_iff_ne]
    rintro rfl
    exact Auxiliary.name_notMem_names c shared
  rw [CompiledPattern.fragment?, assembled, List.lookup_append, other, Option.none_or]

theorem leadingSource?_assembled (flavor : Flavor) (placed : List Placed) (a : Auxiliary) :
    (assembled flavor placed a).leadingSource? =
      (alternative flavor placed a .leadingGender).map (·.source flavor) := by
  have head : (assembled flavor placed a).fragment? (codes "man_woman_person") =
      some a.manWomanPerson := by
    rw [fragment?_shared flavor placed a (by decide)]
    rfl
  have tone : (assembled flavor placed a).fragment? (codes "skin_tone") = some a.skinTone := by
    rw [fragment?_shared flavor placed a (by decide)]
    rfl
  have joiner : (assembled flavor placed a).fragment? (codes "zwj") = some a.zwj := by
    rw [fragment?_shared flavor placed a (by decide)]
    rfl
  have left := fragment?_class flavor placed a .leadingGender
  rw [CompiledPattern.leadingSource?, head, tone, joiner, alternative]
  change (do
    let left ← (assembled flavor placed a).fragment? Class.leadingGender.name
    return _) = _
  rw [left]
  cases body flavor placed .leadingGender with
  | none => rfl
  | some b =>
    simp [Pattern.around, Pattern.source_concat, Pattern.source, assembled]

end Compile

/-- Does the entry take skin tones and start with a person and a joiner? -/
def Entry.Leads (e : Entry) : Prop := e.kind = .diversity ∧ Shape.Led e.base.points

variable {entries : List Entry} {placed : List Placed}

theorem exists_leads_iff {p : List Char} (led : Shape.Led p) :
    (∃ e ∈ entries, e.Leads ∧ e.base.points = p) ↔ p ∈ gendered entries := by
  have joined : zwj ∈ p := by
    obtain ⟨g, -, r, rfl⟩ := led
    simp
  rw [mem_gendered]
  constructor
  · intro h
    obtain ⟨e, he, leads, rfl⟩ := h
    exact ⟨e, he, leads.1, joined, rfl⟩
  · intro h
    obtain ⟨e, he, kind, -, rfl⟩ := h
    exact ⟨e, he, ⟨kind, led⟩, rfl⟩

theorem mem_contents_leading (h : classify entries = .ok placed) {g : Char} (hg : g ∈ people)
    {r : List Char} : r ∈ contents placed .leadingGender ↔
      ∃ e ∈ entries, e.Leads ∧ e.base.points = g :: zwj :: r := by
  have residual : r ∈ contents placed (Class.ofAxis .leading) ↔ _ := mem_contents_ofAxis h
  rw [exists_leads_iff ⟨g, hg, r, rfl⟩, (closed_gendered h).mem_led hg, ← residual_leading]
  exact residual

theorem mem_words_leading (h : classify entries = .ok placed) {w : List Char} :
    w ∈ Class.leadingGender.words (contents placed .leadingGender) ↔
      ∃ e ∈ entries, e.Leads ∧ ∃ ss, e.renderings = .ok ss ∧ ∃ s ∈ ss, s.points = w := by
  rw [mem_words_leadingGender]
  constructor
  · intro hw
    obtain ⟨g, hg, r, hr, form⟩ := hw
    obtain ⟨e, he, leads, base⟩ := (mem_contents_leading h hg).1 hr
    refine ⟨e, he, leads, _, Entry.renderings_toned (.inl leads.1), ?_⟩
    rcases form with rfl | ⟨t, ht, rfl⟩
    · exact ⟨e.base, List.mem_cons_self, base⟩
    · refine ⟨_, List.mem_cons_of_mem _ (List.mem_map_of_mem ht), ?_⟩
      rw [base]
      exact Entry.withTone_led hg r t
  · intro hw
    obtain ⟨e, he, leads, ss, hss, s, hs, rfl⟩ := hw
    obtain ⟨g, hg, r, base⟩ := leads.2
    have content := (mem_contents_leading h hg).2 ⟨e, he, leads, base⟩
    rw [Entry.renderings_toned (.inl leads.1), Except.ok.injEq] at hss
    rw [← hss, List.mem_cons, List.mem_map] at hs
    refine ⟨g, hg, r, content, ?_⟩
    rcases hs with rfl | ⟨t, ht, rfl⟩
    · exact .inl base
    · right
      refine ⟨t, ht, ?_⟩
      rw [base]
      exact Entry.withTone_led hg r t

theorem sequencesOf_leading_ne_nil_iff (h : classify entries = .ok placed) :
    sequencesOf placed .leadingGender ≠ [] ↔ ∃ e ∈ entries, e.Leads := by
  constructor
  · intro filled
    obtain ⟨s, hs⟩ := List.exists_mem_of_ne_nil _ filled
    have content : s.points ∈ contents placed .leadingGender := ⟨s, hs, rfl⟩
    obtain ⟨e, he, leads, -⟩ :=
      (mem_contents_leading h (List.mem_cons_self : man ∈ people)).1 content
    exact ⟨e, he, leads⟩
  · intro some
    obtain ⟨e, he, leads⟩ := some
    obtain ⟨g, hg, r, base⟩ := leads.2
    obtain ⟨s, hs, -⟩ := (mem_contents_leading h hg).2 ⟨e, he, leads, base⟩
    exact List.ne_nil_of_mem hs

theorem fullMatches_leading {a : Auxiliary} {b : Pattern} (h : classify entries = .ok placed)
    (sound : a.Sound .points)
    (fragment : Fragment .points (Flavor.points.image (contents placed .leadingGender)) b)
    {t : Text} : (Pattern.concat (Pattern.around a .leadingGender b)).fullMatches t = true ↔
      ∃ e ∈ entries, e.Leads ∧ ∃ ss, e.renderings = .ok ss ∧ ∃ s ∈ ss, t = s.text := by
  have spells := Pattern.spells_around (c := .leadingGender) sound fragment t []
  simp only [List.append_nil, Class.wordsBefore_nil, Flavor.mem_image_points] at spells
  rw [Pattern.fullMatches_iff]
  apply spells.trans
  simp only [mem_words_leading h]
  constructor
  · intro ht
    obtain ⟨_, ⟨e, he, leads, ss, hss, s, hs, rfl⟩, rfl⟩ := ht
    exact ⟨e, he, leads, ss, hss, s, hs, rfl⟩
  · intro ht
    obtain ⟨e, he, leads, ss, hss, s, hs, rfl⟩ := ht
    exact ⟨_, ⟨e, he, leads, ss, hss, s, hs, rfl⟩, rfl⟩

/-- The alternative for the families that a person leads is there if an entry leads. It is a part of
the source of the pattern; read on its own, it accepts exactly the renderings of all such
entries. -/
theorem leading_alternative_exact {settings : CompilerSettings} {items : List TableItem}
    {c : CompiledPattern} (h : (compile settings items).result = .ok c)
    (points : settings.flavor = .points) :
    ∃ entries, tableEntries items = .ok entries ∧
      ((∃ source, c.leadingSource? = some source) ↔ ∃ e ∈ entries, e.Leads) ∧
      ∀ source, c.leadingSource? = some source →
        source <:+: c.source ∧ ∃ p, Pattern.read source = some p ∧
          ∀ t, p.fullMatches t = true ↔
            ∃ e ∈ entries, e.Leads ∧ ∃ ss, e.renderings = .ok ss ∧ ∃ s ∈ ss, t = s.text := by
  obtain ⟨entries, placed, a, entriesOk, sorted, auxiliary, -, full, rfl⟩ :=
    Compile.compile_eq_ok_iff.1 h
  rw [points] at auxiliary ⊢
  have sound := Auxiliary.sound_of auxiliary
  refine ⟨entries, entriesOk, ?_, ?_⟩
  · rw [← sequencesOf_leading_ne_nil_iff sorted, ← Option.isSome_iff_exists,
      Compile.leadingSource?_assembled, Option.isSome_map, Compile.alternative, Option.isSome_map]
    constructor
    · intro some
      obtain ⟨b, made⟩ := Option.isSome_iff_exists.1 some
      exact (Compile.fragment_body made).1
    · intro filled
      exact Compile.body_isSome .points filled (Compile.points_ne_nil_iff.2 full _)
  · intro source made
    rw [Compile.leadingSource?_assembled, Option.map_eq_some_iff] at made
    obtain ⟨p, present, rfl⟩ := made
    obtain ⟨b, bodyOk, rfl⟩ := Option.map_eq_some_iff.1 present
    have fragment := (Compile.fragment_body bodyOk).2
    rw [← Flavor.image_contents] at fragment
    refine ⟨?_, _, Pattern.read_source_around sound fragment .leadingGender, ?_⟩
    · have member := List.mem_filterMap.2 ⟨_, Class.mem_all .leadingGender, present⟩
      apply (Pattern.source_infix_anyOf .points member).trans
      exact ⟨['(', '?', ':'], [')'], rfl⟩
    · exact fun t => fullMatches_leading sorted sound fragment

theorem leading_alternative_exact_workers : ∃ c source p,
    (compile ⟨.points, false⟩ (workers.map .entry)).result = .ok c ∧
      c.leadingSource? = some source ∧ Pattern.read source = some p ∧
      ∀ t, p.fullMatches t = true ↔
        ∃ e ∈ workers, e.Leads ∧ ∃ ss, e.renderings = .ok ss ∧ ∃ s ∈ ss, t = s.text := by
  have sorted : classify workers = .ok [⟨.leadingGender, ⟨['💻'], true⟩⟩,
      ⟨.trailingGenderWithVariant, ⟨['🕵'], true⟩⟩, ⟨.trailingGender, ⟨['🏃'], true⟩⟩] := by
    decide
  obtain ⟨c, compiled⟩ := exists_compile sorted (by decide)
  obtain ⟨entries, entriesOk, present, exact⟩ := leading_alternative_exact compiled rfl
  rw [tableEntries_map_entry] at entriesOk
  cases entriesOk
  have leads : ∃ e ∈ workers, e.Leads :=
    ⟨.bare [man, zwj, '💻'] .diversity, List.mem_cons_self, rfl, man, by decide, ['💻'], rfl⟩
  obtain ⟨source, made⟩ := present.2 leads
  obtain ⟨-, p, read, accepts⟩ := exact source made
  exact ⟨c, source, p, compiled, made, read, accepts⟩

end Pictograph
