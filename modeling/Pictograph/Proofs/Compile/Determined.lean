import Pictograph.Proofs.Classify.Given
import Pictograph.Proofs.Compile.Language
import Pictograph.Proofs.Templates

/-!
What a table is compiled to depends on which entries it has. Their order, how often they come, the
chapters they stand in and what is said of them to readers and pickers do not matter: the classes
are sets of points, and grouping puts every such set into one order.
-/

namespace Pictograph

variable {entries entries' : List Entry} {placed placed' : List Placed} {a b : Entry} {c : Class}
  {x : List Char}

/-- Do two entries have the same points, the same kind and templates of the same numbers? -/
structure Entry.Alike (a b : Entry) : Prop where
  points : a.base.points = b.base.points
  kind : a.kind = b.kind
  sameTone : a.sameTone.map Template.codes = b.sameTone.map Template.codes
  twoTones : a.twoTones.map Template.codes = b.twoTones.map Template.codes

namespace Entry.Alike

theorem refl (a : Entry) : a.Alike a := ⟨rfl, rfl, rfl, rfl⟩

theorem symm (h : a.Alike b) : b.Alike a :=
  ⟨h.points.symm, h.kind.symm, h.sameTone.symm, h.twoTones.symm⟩

theorem map_points_renderings (h : a.Alike b) (kind : a.kind = .multiDiversity) :
    a.renderings.map (List.map Sequence.points) = b.renderings.map (List.map Sequence.points) := by
  have keys : a.key = b.key := by
    rw [key, key, Sequence.key, Sequence.key, Sequence.text, Sequence.text, h.points]
  rw [Entry.map_points_renderings kind, Entry.map_points_renderings (h.kind ▸ kind), h.sameTone,
    h.twoTones, h.points, keys]

theorem renderings (h : a.Alike b) (kind : a.kind = .multiDiversity) {ss : List Sequence}
    (ok : a.renderings = .ok ss) :
    ∃ ss', b.renderings = .ok ss' ∧ ss.map (·.points) = ss'.map (·.points) := by
  have same := h.map_points_renderings kind
  rw [ok] at same
  cases e : b.renderings with
  | error f =>
    rw [e] at same
    cases same
  | ok ss' =>
    rw [e] at same
    exact ⟨ss', rfl, Except.ok.inj same⟩

theorem gives (h : a.Alike b) (given : a.Gives c x) : b.Gives c x := by
  cases given with
  | @rendering ss s kind ok hs =>
    -- The renderings may differ in what a picker shows, so they are told by their points.
    obtain ⟨ss', ok', same⟩ := h.renderings kind ok
    have member : s.points ∈ ss.map (·.points) := List.mem_map_of_mem hs
    rw [same] at member
    obtain ⟨s', hs', points⟩ := List.mem_map.1 member
    rw [← points]
    exact .rendering (h.kind ▸ kind) ok' hs'
  | residual kind joined fits left =>
    exact .residual (h.kind ▸ kind) (h.points ▸ joined) (h.points ▸ fits) left
  | whole kind joined =>
    rw [h.points]
    exact .whole (h.kind ▸ kind) (h.points ▸ joined)
  | kept single free =>
    rw [h.points, h.kind]
    exact .kept (h.kind ▸ single) (h.points ▸ free)

end Entry.Alike

/-- Has each of two tables an entry like every entry of the other? -/
structure SameEntries (entries entries' : List Entry) : Prop where
  left : ∀ e ∈ entries, ∃ e' ∈ entries', e.Alike e'
  right : ∀ e' ∈ entries', ∃ e ∈ entries, e'.Alike e

namespace SameEntries

theorem of_mem_iff (h : ∀ e, e ∈ entries ↔ e ∈ entries') : SameEntries entries entries' where
  left e he := ⟨e, (h e).1 he, .refl e⟩
  right e he := ⟨e, (h e).2 he, .refl e⟩

theorem symm (h : SameEntries entries entries') : SameEntries entries' entries :=
  ⟨h.right, h.left⟩

theorem mem_gendered_iff (h : SameEntries entries entries') :
    x ∈ gendered entries ↔ x ∈ gendered entries' := by
  have sub : ∀ {entries entries'}, SameEntries entries entries' → x ∈ gendered entries →
      x ∈ gendered entries' := by
    intro entries entries' h hx
    obtain ⟨e, he, kind, joined, rfl⟩ := mem_gendered.1 hx
    obtain ⟨e', he', alike⟩ := h.left e he
    exact mem_gendered.2
      ⟨e', he', alike.kind ▸ kind, alike.points ▸ joined, alike.points.symm⟩
  exact ⟨sub h, sub h.symm⟩

/-- One of the tables can be sorted if the other can: a sibling is looked for in the whole table. -/
theorem exists_classify (h : SameEntries entries entries')
    (ok : ∃ placed, classify entries = .ok placed) :
    ∃ placed, classify entries' = .ok placed := by
  rw [exists_classify_eq_ok_iff] at ok ⊢
  obtain ⟨check, expand, closed⟩ := ok
  refine ⟨?_, ?_, ?_⟩
  · intro e' he' single joined
    obtain ⟨e, he, alike⟩ := h.right e' he'
    rw [alike.kind] at single ⊢
    exact check e he single (alike.points ▸ joined)
  · intro e' he' multi
    obtain ⟨e, he, alike⟩ := h.right e' he'
    obtain ⟨ss, ok⟩ := expand e he (alike.kind ▸ multi)
    obtain ⟨ss', ok', -⟩ := alike.symm.renderings (alike.kind ▸ multi) ok
    exact ⟨ss', ok'⟩
  · intro p hp
    obtain ⟨shape, fits, siblings⟩ := closed p (h.mem_gendered_iff.2 hp)
    exact ⟨shape, fits, fun q hq => h.mem_gendered_iff.1 (siblings q hq)⟩

theorem mem_pointsOf_iff (h : SameEntries entries entries') (ok : classify entries = .ok placed)
    (ok' : classify entries' = .ok placed') : x ∈ pointsOf placed c ↔ x ∈ pointsOf placed' c := by
  rw [Pictograph.mem_pointsOf_iff ok, Pictograph.mem_pointsOf_iff ok']
  constructor
  · intro hx
    obtain ⟨e, he, given⟩ := hx
    obtain ⟨e', he', alike⟩ := h.left e he
    exact ⟨e', he', alike.gives given⟩
  · intro hx
    obtain ⟨e', he', given⟩ := hx
    obtain ⟨e, he, alike⟩ := h.right e' he'
    exact ⟨e, he, alike.gives given⟩

end SameEntries

namespace Compile

variable {flavor : Flavor}

theorem body_congr (full : ∀ p ∈ placed, p.sequence.points ≠ [])
    (full' : ∀ p ∈ placed', p.sequence.points ≠ [])
    (same : ∀ x, x ∈ pointsOf placed c ↔ x ∈ pointsOf placed' c) :
    body flavor placed c = body flavor placed' c := by
  rw [← points_ne_nil_iff] at full full'
  have filled : sequencesOf placed c ≠ [] ↔ sequencesOf placed' c ≠ [] := by
    simp only [sequencesOf_ne_nil_iff, same]
  have patterns := patternOf_congr flavor c.name (full c) (full' c) same
  unfold body
  split
  · next empty =>
    rw [not_iff_not.1 filled |>.1 empty]
  · next ne =>
    split
    · next empty => exact absurd empty (filled.1 fun empty => ne empty)
    · rw [patterns]

theorem assembled_congr (full : ∀ p ∈ placed, p.sequence.points ≠ [])
    (full' : ∀ p ∈ placed', p.sequence.points ≠ [])
    (same : ∀ c x, x ∈ pointsOf placed c ↔ x ∈ pointsOf placed' c) (a : Auxiliary) :
    assembled flavor placed a = assembled flavor placed' a := by
  have bodies : body flavor placed = body flavor placed' :=
    funext fun c => body_congr full full' (same c)
  have alternatives : alternative flavor placed a = alternative flavor placed' a := by
    funext c
    rw [alternative, alternative, bodies]
  rw [assembled, assembled, alternatives, bodies]

end Compile

theorem compile_of_sameEntries {settings : CompilerSettings} {items items' : List TableItem}
    {compiled : CompiledPattern} (h : tableEntries items = .ok entries)
    (h' : tableEntries items' = .ok entries') (same : SameEntries entries entries')
    (ok : (compile settings items).result = .ok compiled) :
    (compile settings items').result = .ok compiled := by
  obtain ⟨_, placed, a, entriesOk, sorted, auxiliary, required, full, rfl⟩ :=
    Compile.compile_eq_ok_iff.1 ok
  cases h.symm.trans entriesOk
  obtain ⟨placed', sorted'⟩ := same.exists_classify ⟨placed, sorted⟩
  have classes := fun c x => same.mem_pointsOf_iff (c := c) (x := x) sorted sorted'
  have full' : ∀ p ∈ placed', p.sequence.points ≠ [] := by
    rw [points_ne_nil_iff_pointsOf] at full ⊢
    exact fun c empty => full c ((classes c []).2 empty)
  have required' : settings.requireAll = true → ∀ c, sequencesOf placed' c ≠ [] := by
    intro every c
    exact sequencesOf_ne_nil_of_subset (fun x hx => (classes c x).1 hx) (required every c)
  rw [Compile.assembled_congr full full' classes]
  exact Compile.compile_eq_ok_iff.2
    ⟨entries', placed', a, h', sorted', auxiliary, required', full', rfl⟩

/-- Tables with the same entries fail both, or compile to one pattern. -/
theorem compile_congr (settings : CompilerSettings) {items items' : List TableItem}
    (h : tableEntries items = .ok entries) (h' : tableEntries items' = .ok entries')
    (same : SameEntries entries entries') :
    (∃ f f', (compile settings items).result = .error f ∧
        (compile settings items').result = .error f') ∨
      ∃ compiled, (compile settings items).result = .ok compiled ∧
        (compile settings items').result = .ok compiled := by
  cases one : (compile settings items).result with
  | ok compiled =>
    exact .inr ⟨compiled, rfl, compile_of_sameEntries h h' same one⟩
  | error f =>
    cases other : (compile settings items').result with
    | ok compiled =>
      have back := compile_of_sameEntries h' h same.symm other
      cases one.symm.trans back
    | error f' => exact .inl ⟨f, f', rfl, rfl⟩

def shuffledHearts : List TableItem :=
  hearts.reverse.map .entry ++ [.chapter ⟨codes "hearts", [], hearts.take 1⟩]

theorem compile_congr_hearts : ∃ entries entries',
    tableEntries (hearts.map .entry) = .ok entries ∧
      tableEntries shuffledHearts = .ok entries' ∧ SameEntries entries entries' ∧
      ((∃ f f', (compile ⟨.utf16, false⟩ (hearts.map .entry)).result = .error f ∧
          (compile ⟨.utf16, false⟩ shuffledHearts).result = .error f') ∨
        ∃ compiled, (compile ⟨.utf16, false⟩ (hearts.map .entry)).result = .ok compiled ∧
          (compile ⟨.utf16, false⟩ shuffledHearts).result = .ok compiled) := by
  have entries := tableEntries_map_entry hearts
  have entries' : tableEntries shuffledHearts = .ok (hearts.reverse ++ hearts.take 1) := rfl
  have same : SameEntries hearts (hearts.reverse ++ hearts.take 1) := by
    refine .of_mem_iff fun e => ?_
    simp only [List.mem_append, List.mem_reverse]
    exact ⟨.inl, fun he => he.elim id List.mem_of_mem_take⟩
  exact ⟨_, _, entries, entries', same, compile_congr ⟨.utf16, false⟩ entries entries' same⟩

end Pictograph
