import Pictograph.Proofs.Classify.Gender

/-!
What an entry gives to each class. In a table that can be sorted, no other entry has a say in that:
the check of the siblings lets an entry pass or refuses the table. So the classes of a table are
unions over its entries, and depend on nothing but the points, the kinds and the templates.
-/

namespace Pictograph

/-- The points that an entry gives to a class. -/
inductive Entry.Gives (e : Entry) : Class → List Char → Prop where
  | rendering {ss : List Sequence} {s : Sequence} (kind : e.kind = .multiDiversity)
      (h : e.renderings = .ok ss) (hs : s ∈ ss) : Gives e .multiDiversity s.points
  | residual {shape : Shape} {axis : Axis} {r : List Char} (kind : e.kind = .diversity)
      (joined : zwj ∈ e.base.points) (fits : Shape.Fits e.base.points shape)
      (left : shape.residual = some (axis, r)) : Gives e (Class.ofAxis axis) r
  | whole (kind : e.kind = .normal) (joined : zwj ∈ e.base.points) :
      Gives e .joined e.base.points
  | kept (single : e.kind ≠ .multiDiversity) (free : zwj ∉ e.base.points) :
      Gives e (Class.ofKind e.kind) ((Class.ofKind e.kind).keep e.base.points)

variable {entries : List Entry} {placed placed' : List Placed} {c : Class} {x : List Char}

/-- The classes of a table are what its entries give. -/
theorem mem_pointsOf_iff (h : classify entries = .ok placed) :
    x ∈ pointsOf placed c ↔ ∃ e ∈ entries, e.Gives c x := by
  have closed := closed_gendered h
  constructor
  · intro hx
    obtain ⟨s, hs, rfl⟩ := hx
    rcases (mem_classify h).1 (mem_sequencesOf.1 hs) with multi | family | joined | plain
    · obtain ⟨e, he, kind, ss, ok, s', hs', same⟩ := multi
      cases same
      exact ⟨e, he, .rendering kind ok hs'⟩
    · obtain ⟨e, he, axis, r, ok, same⟩ := family
      obtain ⟨shape, fits, -, left⟩ := Entry.gender_eq_ok_iff.1 ok
      obtain ⟨he, kind, joined⟩ := mem_toned.1 he
      cases same
      exact ⟨e, he, .residual kind joined fits left.symm⟩
    · obtain ⟨e, he, kind, joined, same⟩ := joined
      cases same
      exact ⟨e, he, .whole kind joined⟩
    · obtain ⟨e, he, single, free, same⟩ := plain
      cases same
      exact ⟨e, he, .kept single free⟩
  · intro hx
    obtain ⟨e, he, gives⟩ := hx
    cases gives with
    | rendering kind ok hs =>
      exact ⟨_, mem_sequencesOf.2 ((mem_classify h).2 (.inl ⟨e, he, kind, _, ok, _, hs, rfl⟩)), rfl⟩
    | residual kind joined fits left =>
      -- The siblings were found when the whole table was sorted, so that the shape fits is enough.
      have toned := mem_toned.2 ⟨he, kind, joined⟩
      have siblings := closed.mem_of_fits (List.mem_map_of_mem toned) fits
      have ok := Entry.gender_eq_ok_iff.2 ⟨_, fits, siblings, left.symm⟩
      exact ⟨_, mem_sequencesOf.2
        ((mem_classify h).2 (.inr (.inl ⟨e, toned, _, _, ok, rfl⟩))), rfl⟩
    | whole kind joined =>
      exact ⟨_, mem_sequencesOf.2 (joined_mem_of_classify h he kind joined), rfl⟩
    | kept single free =>
      exact ⟨_, mem_sequencesOf.2 (place_mem_of_classify h he single free), rfl⟩

theorem Closed.append {known known' : List (List Char)} (h : Closed known) (h' : Closed known') :
    Closed (known ++ known') := by
  intro p hp
  rcases List.mem_append.1 hp with hp | hp
  · obtain ⟨shape, fits, siblings⟩ := h p hp
    exact ⟨shape, fits, fun q hq => List.mem_append_left _ (siblings q hq)⟩
  · obtain ⟨shape, fits, siblings⟩ := h' p hp
    exact ⟨shape, fits, fun q hq => List.mem_append_right _ (siblings q hq)⟩

theorem gendered_append (entries entries' : List Entry) :
    gendered (entries ++ entries') = gendered entries ++ gendered entries' := by
  simp only [gendered, toned, List.filter_append, List.map_append]

theorem exists_classify_append {entries entries' : List Entry}
    (h : ∃ placed, classify entries = .ok placed)
    (h' : ∃ placed, classify entries' = .ok placed) :
    ∃ placed, classify (entries ++ entries') = .ok placed := by
  rw [exists_classify_eq_ok_iff] at h h' ⊢
  obtain ⟨check, expand, closed⟩ := h
  obtain ⟨check', expand', closed'⟩ := h'
  rw [gendered_append]
  refine ⟨?_, ?_, closed.append closed'⟩
  · intro e he
    exact (List.mem_append.1 he).elim (check e) (check' e)
  · intro e he
    exact (List.mem_append.1 he).elim (expand e) (expand' e)

theorem mem_pointsOf_append {entries entries' : List Entry} {merged : List Placed}
    (h : classify entries = .ok placed) (h' : classify entries' = .ok placed')
    (both : classify (entries ++ entries') = .ok merged) :
    x ∈ pointsOf merged c ↔ x ∈ pointsOf placed c ∨ x ∈ pointsOf placed' c := by
  rw [mem_pointsOf_iff h, mem_pointsOf_iff h', mem_pointsOf_iff both]
  simp only [List.mem_append, or_and_right, exists_or]

theorem points_ne_nil_iff_pointsOf :
    (∀ p ∈ placed, p.sequence.points ≠ []) ↔ ∀ c, [] ∉ pointsOf placed c := by
  constructor
  · intro h c empty
    obtain ⟨s, hs, none⟩ := empty
    exact h _ (mem_sequencesOf.1 hs) none
  · intro h p hp none
    exact h p.cls ⟨p.sequence, mem_sequencesOf.2 hp, none⟩

theorem sequencesOf_ne_nil_iff : sequencesOf placed c ≠ [] ↔ ∃ x, x ∈ pointsOf placed c := by
  constructor
  · intro h
    obtain ⟨s, hs⟩ := List.exists_mem_of_ne_nil _ h
    exact ⟨s.points, s, hs, rfl⟩
  · intro h
    obtain ⟨x, s, hs, -⟩ := h
    exact List.ne_nil_of_mem hs

theorem sequencesOf_ne_nil_of_subset (sub : pointsOf placed c ⊆ pointsOf placed' c)
    (h : sequencesOf placed c ≠ []) : sequencesOf placed' c ≠ [] := by
  rw [sequencesOf_ne_nil_iff] at h ⊢
  exact Set.Nonempty.mono sub h

end Pictograph
