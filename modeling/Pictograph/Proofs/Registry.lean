import Mathlib.Data.List.Nodup
import Pictograph.Metrics.Registry
import Pictograph.Proofs.Traversal

/-!
Collectors asked for again. Asking for a name gives the collector that owns it, and makes one only
if nobody does; no name is ever owned by two. So whatever is asked for later, a name that was asked
for once gives the same collector, and asking for it changes nothing.
-/

namespace Pictograph

namespace CollectorKind

theorem nodup_seriesNames (kind : CollectorKind) (stem : Text) :
    (kind.seriesNames stem).Nodup := by
  have endings : kind.endings.Nodup := by cases kind <;> decide
  exact endings.map fun _ _ same => List.append_cancel_left same

theorem mem_seriesNames (kind : CollectorKind) (name : Text) :
    name ∈ kind.seriesNames (kind.stem name) := by
  have itself : codes "" ∈ kind.endings := by cases kind <;> decide
  have whole : name ∈ kind.seriesNames name := List.mem_map.2 ⟨_, itself, List.append_nil name⟩
  cases kind with
  | histogram => exact whole
  | counter =>
    rw [stem]
    split
    · next total =>
      obtain ⟨front, rfl⟩ := List.isSuffixOf_iff_suffix.1 total
      have length : (front ++ codes "_total").length - 6 = front.length := by
        rw [List.length_append]
        exact Nat.add_sub_cancel ..
      rw [length, List.take_left]
      exact List.mem_map_of_mem (List.mem_cons_of_mem _ List.mem_cons_self)
    · exact whole

end CollectorKind

namespace Registry

/-- No name is owned twice, and all owners are registered. -/
structure Sound (r : Registry) : Prop where
  names : (r.owners.map (·.1)).Nodup
  owners : ∀ p ∈ r.owners, p.2 < r.size

/-- One registry is what another has become. -/
structure Extends (r r' : Registry) : Prop where
  owners : r.owners <+: r'.owners
  known : r.known <+: r'.known

variable {r r' r'' : Registry} {kind : CollectorKind} {name : Text} {n owner : Nat}

theorem Extends.refl (r : Registry) : r.Extends r := ⟨List.prefix_refl _, List.prefix_refl _⟩

theorem Extends.trans (h : r.Extends r') (h' : r'.Extends r'') : r.Extends r'' :=
  ⟨h.owners.trans h'.owners, h.known.trans h'.known⟩

theorem Extends.lookup (h : r.Extends r') (owned : r.owners.lookup name = some owner) :
    r'.owners.lookup name = some owner := by
  obtain ⟨more, same⟩ := h.owners
  rw [← same, List.lookup_append, owned]
  rfl

theorem Extends.idxOf? (h : r.Extends r') (known : r.known.idxOf? owner = some n) :
    r'.known.idxOf? owner = some n := by
  obtain ⟨more, same⟩ := h.known
  rw [List.idxOf?] at known ⊢
  rw [← same, List.findIdx?_append, known]
  rfl

theorem number_cases (h : r.number owner = (n, r')) :
    r'.known.idxOf? owner = some n ∧ r.Extends r' ∧ r'.owners = r.owners ∧ r'.size = r.size := by
  rw [number] at h
  cases place : r.known.idxOf? owner with
  | some m =>
    rw [place] at h
    obtain ⟨rfl, rfl⟩ := Prod.mk.inj h
    exact ⟨place, .refl r, rfl, rfl⟩
  | none =>
    rw [place] at h
    obtain ⟨rfl, rfl⟩ := Prod.mk.inj h
    refine ⟨?_, ⟨List.prefix_refl _, List.prefix_append ..⟩, rfl, rfl⟩
    rw [List.idxOf?] at place ⊢
    rw [List.findIdx?_append, place]
    simp

theorem newStem_eq {stem : Text} (h : newStem kind name = .ok stem) : stem = kind.stem name := by
  rw [newStem] at h
  split at h
  · cases h
  · split at h
    · cases h
    · split at h
      · exact (Except.ok.inj h).symm
      · cases h

/-- How a name gets its collector: from its owner, or by a new one that owns free names only. -/
theorem collector_cases (h : r.collector kind name = .ok (n, r')) :
    (∃ owner, r.owners.lookup name = some owner ∧ r.number owner = (n, r')) ∨
      ∃ names, name ∈ names ∧ names.Nodup ∧ (∀ x ∈ names, r.owners.lookup x = none) ∧
        (r.register names).number r.size = (n, r') := by
  rw [collector] at h
  cases owned : r.owners.lookup name with
  | some owner =>
    rw [owned] at h
    exact .inl ⟨owner, rfl, Except.ok.inj h⟩
  | none =>
    rw [owned] at h
    obtain ⟨stem, made, rest⟩ := Traversal.bind_eq_ok.1 h
    obtain rfl := newStem_eq made
    dsimp only at rest
    split at rest
    · next free =>
      refine .inr ⟨_, kind.mem_seriesNames name, kind.nodup_seriesNames _, fun x hx => ?_,
        Except.ok.inj rest⟩
      exact Option.not_isSome_iff_eq_none.1 (List.filter_eq_nil_iff.1 free x hx)
    · cases rest

theorem register_extends (r : Registry) (names : List Text) : r.Extends (r.register names) :=
  ⟨List.prefix_append .., List.prefix_refl _⟩

theorem lookup_register {names : List Text} (free : r.owners.lookup name = none)
    (h : name ∈ names) : (r.register names).owners.lookup name = some r.size := by
  have there : (names.map (·, r.size)).lookup name = some r.size := by
    induction names with
    | nil => cases h
    | cons x names ih =>
      rw [List.map_cons, List.lookup_cons]
      cases same : name == x with
      | true => rfl
      | false => exact ih ((List.mem_cons.1 h).resolve_left (ne_of_beq_false same))
  rw [register, List.lookup_append, free, there]
  rfl

theorem Sound.register {names : List Text} (h : r.Sound) (nodup : names.Nodup)
    (free : ∀ x ∈ names, r.owners.lookup x = none) : (r.register names).Sound where
  names := by
    have same : (names.map (·, r.size)).map (·.1) = names := by
      rw [List.map_map]
      exact List.map_id names
    rw [Registry.register, List.map_append, same]
    refine h.names.append nodup fun x owned hx => ?_
    obtain ⟨p, hp, rfl⟩ := List.mem_map.1 owned
    simpa using List.lookup_eq_none_iff.1 (free _ hx) p hp
  owners := by
    intro p hp
    rcases List.mem_append.1 hp with old | new
    · exact Nat.lt_succ_of_lt (h.owners p old)
    · obtain ⟨x, -, rfl⟩ := List.mem_map.1 new
      exact Nat.lt_succ_self r.size

theorem collector_owns (h : r.collector kind name = .ok (n, r')) :
    (∃ owner, r'.owners.lookup name = some owner ∧ r'.known.idxOf? owner = some n) ∧
      r.Extends r' := by
  obtain ⟨owner, owned, given⟩ | ⟨names, mem, nodup, free, given⟩ := collector_cases h
  · obtain ⟨place, extends', -⟩ := number_cases given
    exact ⟨⟨owner, extends'.lookup owned, place⟩, extends'⟩
  · obtain ⟨place, extends', -⟩ := number_cases given
    have owned := lookup_register (free name mem) mem
    exact ⟨⟨r.size, extends'.lookup owned, place⟩, (r.register_extends names).trans extends'⟩

theorem Sound.collector (sound : r.Sound) (h : r.collector kind name = .ok (n, r')) :
    r'.Sound := by
  obtain ⟨owner, -, given⟩ | ⟨names, -, nodup, free, given⟩ := collector_cases h
  · obtain ⟨-, -, owners, size⟩ := number_cases given
    exact ⟨owners ▸ sound.names, owners ▸ size ▸ sound.owners⟩
  · obtain ⟨-, -, owners, size⟩ := number_cases given
    obtain ⟨names, registered⟩ := sound.register nodup free
    exact ⟨owners ▸ names, owners ▸ size ▸ registered⟩

/-- A name that was asked for gives the same collector ever after, and asking for it again changes
nothing. -/
theorem collector_again (h : r.collector kind name = .ok (n, r')) (later : r'.Extends r'')
    (kind' : CollectorKind) : r''.collector kind' name = .ok (n, r'') := by
  obtain ⟨⟨owner, owned, place⟩, -⟩ := collector_owns h
  rw [collector, later.lookup owned]
  dsimp only
  rw [number, later.idxOf? place]

theorem ask_extends (r : Registry) (c : CollectorKind × Text) : r.Extends (r.ask c) := by
  rw [ask]
  cases given : r.collector c.1 c.2 with
  | ok out => exact (collector_owns given).2
  | error fault => exact .refl r

theorem Sound.ask (h : r.Sound) (c : CollectorKind × Text) : (r.ask c).Sound := by
  rw [Registry.ask]
  cases given : r.collector c.1 c.2 with
  | ok out => exact h.collector given
  | error fault => exact h

/-- Nothing that is asked for takes anything away or makes a name owned twice. -/
theorem Sound.foldl_ask (h : r.Sound) (asked : List (CollectorKind × Text)) :
    (asked.foldl Registry.ask r).Sound ∧ r.Extends (asked.foldl Registry.ask r) := by
  induction asked generalizing r with
  | nil => exact ⟨h, .refl r⟩
  | cons c asked ih =>
    obtain ⟨sound, extends'⟩ := ih (h.ask c)
    exact ⟨sound, (r.ask_extends c).trans extends'⟩

theorem sound_start : start.Sound := by
  have standing : (standing.foldl register ⟨[], 0, []⟩).Sound := by
    exact ⟨by decide, by decide⟩
  exact (standing.foldl_ask libraryCollectors).1

/-- The collectors of the library keep their numbers, whatever else is asked for. -/
theorem libraryCollectors_kept (asked : List (CollectorKind × Text)) :
    let r := asked.foldl ask start
    ∀ c ∈ libraryCollectors.zipIdx, ∀ kind, r.collector kind c.1.2 = .ok (c.2, r) := by
  intro r c hc kind
  have owned : ∀ c ∈ libraryCollectors.zipIdx,
      (start.owners.lookup c.1.2).bind start.known.idxOf? = some c.2 := by decide
  have here : start.collector c.1.1 c.1.2 = .ok (c.2, start) := by
    obtain ⟨owner, found, place⟩ := Option.bind_eq_some_iff.1 (owned c hc)
    rw [collector, found]
    dsimp only
    rw [number, place]
  exact collector_again here (sound_start.foldl_ask asked).2 kind

end Registry

end Pictograph
