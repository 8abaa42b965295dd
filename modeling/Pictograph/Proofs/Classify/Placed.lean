import Pictograph.Classify.Basic
import Pictograph.Proofs.Traversal

/-!
Where the sequences of a class come from. Sorting a table succeeds exactly if each of its steps
does, and a sequence is in a class for one of four reasons: as a rendering of an entry with two
people, as what is left of a gendered family, as a joined entry or as an entry that is neither.
-/

namespace Pictograph

variable {entries : List Entry} {placed : List Placed} {c : Class} {s : Sequence} {e : Entry}

@[simp] theorem mem_sequencesOf : s ∈ sequencesOf placed c ↔ (⟨c, s⟩ : Placed) ∈ placed := by
  unfold sequencesOf
  rw [List.mem_filterMap]
  constructor
  · intro h
    obtain ⟨p, hp, e⟩ := h
    split at e
    · next same =>
      rw [← same, ← Option.some.inj e]
      exact hp
    · simp at e
  · intro h
    exact ⟨_, h, by simp⟩

namespace Entry

def bare (points : List Char) (kind : Kind) : Entry :=
  ⟨⟨points, true⟩, kind, none, none, false, [], [], false⟩

theorem isMulti_iff : e.isMulti = true ↔ e.kind = .multiDiversity := by
  simp [isMulti]

theorem isJoined_iff : e.isJoined = true ↔ e.kind ≠ .multiDiversity ∧ zwj ∈ e.base.points := by
  simp [isJoined, isMulti, Sequence.joined]

theorem isPlain_iff : e.isPlain = true ↔ e.kind ≠ .multiDiversity ∧ zwj ∉ e.base.points := by
  simp [isPlain, isMulti, Sequence.joined]

theorem checkJoined_eq_ok_iff :
    e.checkJoined = .ok () ↔ e.kind = .diversity ∨ e.kind = .normal := by
  unfold checkJoined
  split <;> simp_all

end Entry

def toned (entries : List Entry) : List Entry :=
  (entries.filter (·.isJoined)).filter (·.kind = .diversity)

def gendered (entries : List Entry) : List (List Char) := (toned entries).map (·.base.points)

theorem mem_toned : e ∈ toned entries ↔
    e ∈ entries ∧ e.kind = .diversity ∧ zwj ∈ e.base.points := by
  unfold toned
  rw [List.mem_filter, List.mem_filter, Entry.isJoined_iff, decide_eq_true_eq]
  constructor
  · intro h
    exact ⟨h.1.1, h.2, h.1.2.2⟩
  · intro h
    obtain ⟨he, kind, joined⟩ := h
    exact ⟨⟨he, by simp [kind], joined⟩, kind⟩

theorem mem_gendered {p : List Char} : p ∈ gendered entries ↔
    ∃ e ∈ entries, e.kind = .diversity ∧ zwj ∈ e.base.points ∧ e.base.points = p := by
  unfold gendered
  simp only [List.mem_map, mem_toned, and_assoc]

def sorted (entries : List Entry) (multi : List (List Sequence))
    (residuals : List (Option (Axis × List Char))) : List Placed :=
  multi.flatten.map (⟨.multiDiversity, ·⟩) ++
    residuals.filterMap (·.map fun r => ⟨Class.ofAxis r.1, ⟨r.2, true⟩⟩) ++
    ((entries.filter (·.isJoined)).filter (·.kind = .normal)).map (⟨.joined, ·.base⟩) ++
    (entries.filter (·.isPlain)).map Entry.place

theorem forM_checkJoined_eq_ok_iff : (entries.filter (·.isJoined)).forM Entry.checkJoined = .ok () ↔
    ∀ e ∈ entries, e.kind ≠ .multiDiversity → zwj ∈ e.base.points →
      e.kind = .diversity ∨ e.kind = .normal := by
  rw [Traversal.forM_eq_ok_iff]
  constructor
  · intro h e he kind joined
    exact Entry.checkJoined_eq_ok_iff.1
      (h e (List.mem_filter.2 ⟨he, Entry.isJoined_iff.2 ⟨kind, joined⟩⟩))
  · intro h e he
    obtain ⟨he, joined⟩ := List.mem_filter.1 he
    rw [Entry.isJoined_iff] at joined
    exact Entry.checkJoined_eq_ok_iff.2 (h e he joined.1 joined.2)

theorem classify_eq_ok_iff : classify entries = .ok placed ↔
    (∀ e ∈ entries, e.kind ≠ .multiDiversity → zwj ∈ e.base.points →
      e.kind = .diversity ∨ e.kind = .normal) ∧
    ∃ multi residuals, (entries.filter (·.isMulti)).mapM Entry.renderings = .ok multi ∧
      (toned entries).mapM (Entry.gender (gendered entries)) = .ok residuals ∧
      placed = sorted entries multi residuals := by
  rw [← forM_checkJoined_eq_ok_iff]
  unfold classify
  rw [Traversal.bind_eq_ok]
  constructor
  · intro h
    obtain ⟨⟨⟩, check, h⟩ := h
    obtain ⟨multi, multiOk, h⟩ := Traversal.bind_eq_ok.1 h
    obtain ⟨residuals, residualsOk, h⟩ := Traversal.bind_eq_ok.1 h
    exact ⟨check, multi, residuals, multiOk, residualsOk, (Except.ok.inj h).symm⟩
  · intro h
    obtain ⟨check, multi, residuals, multiOk, residualsOk, rfl⟩ := h
    refine ⟨(), check, Traversal.bind_eq_ok.2 ⟨multi, multiOk, ?_⟩⟩
    exact Traversal.bind_eq_ok.2 ⟨residuals, residualsOk, rfl⟩

/-- Why a sequence is in a class. -/
theorem mem_classify (h : classify entries = .ok placed) {p : Placed} : p ∈ placed ↔
    (∃ e ∈ entries, e.kind = .multiDiversity ∧
      ∃ ss, e.renderings = .ok ss ∧ ∃ s ∈ ss, p = ⟨.multiDiversity, s⟩) ∨
    (∃ e ∈ toned entries, ∃ axis r, e.gender (gendered entries) = .ok (some (axis, r)) ∧
      p = ⟨Class.ofAxis axis, ⟨r, true⟩⟩) ∨
    (∃ e ∈ entries, e.kind = .normal ∧ zwj ∈ e.base.points ∧ p = ⟨.joined, e.base⟩) ∨
    ∃ e ∈ entries, e.kind ≠ .multiDiversity ∧ zwj ∉ e.base.points ∧ p = e.place := by
  obtain ⟨-, multi, residuals, multiOk, residualsOk, rfl⟩ := classify_eq_ok_iff.1 h
  have first : p ∈ multi.flatten.map (fun s => (⟨.multiDiversity, s⟩ : Placed)) ↔
      ∃ e ∈ entries, e.kind = .multiDiversity ∧
        ∃ ss, e.renderings = .ok ss ∧ ∃ s ∈ ss, p = ⟨.multiDiversity, s⟩ := by
    simp only [List.mem_map, List.mem_flatten, Traversal.mem_of_mapM_eq_ok multiOk,
      List.mem_filter, Entry.isMulti_iff]
    grind
  have second : p ∈ residuals.filterMap
      (·.map fun r => (⟨Class.ofAxis r.1, ⟨r.2, true⟩⟩ : Placed)) ↔
      ∃ e ∈ toned entries, ∃ axis r, e.gender (gendered entries) = .ok (some (axis, r)) ∧
        p = ⟨Class.ofAxis axis, ⟨r, true⟩⟩ := by
    simp only [List.mem_filterMap, Traversal.mem_of_mapM_eq_ok residualsOk,
      Option.map_eq_some_iff]
    grind
  have third : p ∈ ((entries.filter (·.isJoined)).filter (·.kind = .normal)).map
      (fun e => (⟨.joined, e.base⟩ : Placed)) ↔
      ∃ e ∈ entries, e.kind = .normal ∧ zwj ∈ e.base.points ∧ p = ⟨.joined, e.base⟩ := by
    simp only [List.mem_map, List.mem_filter, Entry.isJoined_iff, decide_eq_true_eq]
    grind
  have fourth : p ∈ (entries.filter (·.isPlain)).map Entry.place ↔
      ∃ e ∈ entries, e.kind ≠ .multiDiversity ∧ zwj ∉ e.base.points ∧ p = e.place := by
    simp only [List.mem_map, List.mem_filter, Entry.isPlain_iff]
    grind
  rw [sorted, List.mem_append, List.mem_append, List.mem_append, first, second, third, fourth,
    or_assoc, or_assoc]

theorem joined_mem_of_classify (h : classify entries = .ok placed) (he : e ∈ entries)
    (kind : e.kind = .normal) (joined : zwj ∈ e.base.points) : ⟨.joined, e.base⟩ ∈ placed :=
  (mem_classify h).2 (.inr (.inr (.inl ⟨e, he, kind, joined, rfl⟩)))

theorem place_mem_of_classify (h : classify entries = .ok placed) (he : e ∈ entries)
    (single : e.kind ≠ .multiDiversity) (free : zwj ∉ e.base.points) : e.place ∈ placed :=
  (mem_classify h).2 (.inr (.inr (.inr ⟨e, he, single, free, rfl⟩)))

end Pictograph
