import Mathlib.Data.List.Nodup
import Mathlib.Data.List.Perm.Basic
import Pictograph.Log.Line

/-!
Fields on a line. Those of the context come first in their own order, the others by name. A field
stands behind all members that lead the line, unless it has the name of one of them: then it takes
the place of that member.
-/

namespace Pictograph

section SetMembers

variable {α : Type} {front fields : List (Text × α)} {name : Text} {value : α}

theorem lookup_eq_some_iff_mem (once : (fields.map (·.1)).Nodup) :
    fields.lookup name = some value ↔ (name, value) ∈ fields := by
  rw [List.lookup_eq_some_iff]
  constructor
  · rintro ⟨before, after, rfl, -⟩
    exact List.mem_append_right _ List.mem_cons_self
  · intro there
    obtain ⟨before, after, rfl⟩ := List.append_of_mem there
    rw [List.map_append, List.nodup_append] at once
    refine ⟨before, after, rfl, fun p hp => bne_iff_ne.2 (Ne.symm ?_)⟩
    exact once.2.2 p.1 (List.mem_map_of_mem hp) name List.mem_cons_self

theorem lookup_eq_none_iff_notMem : fields.lookup name = none ↔ name ∉ fields.map (·.1) := by
  rw [List.lookup_eq_none_iff, List.mem_map, not_exists]
  refine forall_congr' fun p => ?_
  rw [not_and, bne_iff_ne, ne_comm]

/-- What becomes of a member when fields are set: it takes the value of the one with its name. -/
def replacedBy (fields : List (Text × α)) (m : Text × α) : Text × α :=
  (m.1, (fields.lookup m.1).getD m.2)

theorem replacedBy_of_notMem {m : Text × α} (other : m.1 ∉ fields.map (·.1)) :
    replacedBy fields m = m := by
  rw [replacedBy, lookup_eq_none_iff_notMem.2 other, Option.getD_none]

theorem map_replacedBy_of_disjoint (other : ∀ m ∈ front, m.1 ∉ fields.map (·.1)) :
    front.map (replacedBy fields) = front :=
  (List.map_congr_left fun m hm => replacedBy_of_notMem (other m hm)).trans (List.map_id _)

theorem names_replacedBy (fields members : List (Text × α)) :
    (members.map (replacedBy fields)).map (·.1) = members.map (·.1) := by
  rw [List.map_map]
  rfl

theorem replacedBy_cons {f : Text × α} (new : f.1 ∉ fields.map (·.1)) (m : Text × α) :
    replacedBy fields (replacedBy [f] m) = replacedBy (f :: fields) m := by
  obtain ⟨n, v⟩ := f
  by_cases same : m.1 = n
  · simp [replacedBy, same, lookup_eq_none_iff_notMem.2 new]
  · have other : (m.1 == n) = false := beq_false_of_ne same
    simp [replacedBy, List.lookup_cons, other]

theorem of_mem_setMember {m : Text × α} (h : m ∈ setMember front name value) :
    m ∈ front ∨ m = (name, value) := by
  induction front with
  | nil => exact .inr (List.mem_singleton.1 h)
  | cons f rest ih =>
    rw [setMember] at h
    split at h
    · next same =>
      rcases List.mem_cons.1 h with rfl | h
      · exact .inr (same ▸ rfl)
      · exact .inl (List.mem_cons_of_mem f h)
    · rcases List.mem_cons.1 h with rfl | h
      · exact .inl List.mem_cons_self
      · exact (ih h).imp_left (List.mem_cons_of_mem f)

theorem setMember_of_notMem (new : name ∉ front.map (·.1)) :
    setMember front name value = front ++ [(name, value)] := by
  induction front with
  | nil => rfl
  | cons m rest ih =>
    rw [List.map_cons, List.mem_cons, not_or] at new
    rw [setMember, if_neg (Ne.symm new.1), ih new.2, List.cons_append]

theorem setMember_of_mem (once : (front.map (·.1)).Nodup) (there : name ∈ front.map (·.1)) :
    setMember front name value = front.map (replacedBy [(name, value)]) := by
  induction front with
  | nil => cases there
  | cons m rest ih =>
    obtain ⟨new, later⟩ := List.nodup_cons.1 once
    by_cases same : m.1 = name
    · have others : rest.map (replacedBy [(name, value)]) = rest := by
        refine map_replacedBy_of_disjoint fun r hr => ?_
        rw [List.map_singleton, List.mem_singleton, ← same]
        exact fun again => new (List.mem_map.2 ⟨r, hr, again⟩)
      rw [setMember, if_pos same, List.map_cons, others]
      simp [replacedBy, same]
    · have behind := (List.mem_cons.1 there).resolve_left (Ne.symm same)
      rw [setMember, if_neg same, List.map_cons, ih later behind, replacedBy_of_notMem]
      simpa using same

theorem foldl_setMember (once : (front.map (·.1)).Nodup) (fresh : (fields.map (·.1)).Nodup) :
    fields.foldl (fun ms f => setMember ms f.1 f.2) front =
      front.map (replacedBy fields) ++ fields.filter fun f => f.1 ∉ front.map (·.1) := by
  induction fields generalizing front with
  | nil => simp [map_replacedBy_of_disjoint]
  | cons f rest ih =>
    obtain ⟨new, later⟩ := List.nodup_cons.1 fresh
    rw [List.foldl_cons, ih (nodup_names_setMember once _ _) later]
    by_cases there : f.1 ∈ front.map (·.1)
    · rw [setMember_of_mem once there, names_replacedBy, List.map_map,
        List.filter_cons_of_neg (by simpa using there)]
      congr 1
      exact List.map_congr_left fun m _ => replacedBy_cons new m
    · have kept : front.map (replacedBy rest) = front.map (replacedBy (f :: rest)) := by
        refine List.map_congr_left fun m hm => ?_
        have other : m.1 ∉ [f].map (·.1) := by
          rw [List.map_singleton, List.mem_singleton]
          exact fun same => there (List.mem_map.2 ⟨m, hm, same⟩)
        rw [← replacedBy_cons new, replacedBy_of_notMem other]
      have behind : (rest.filter fun g => g.1 ∉ (front ++ [f]).map (·.1)) =
          rest.filter fun g => g.1 ∉ front.map (·.1) := by
        refine List.filter_congr fun g hg => ?_
        have other : g.1 ≠ f.1 := fun same => new (List.mem_map.2 ⟨g, hg, same⟩)
        simp [other]
      rw [setMember_of_notMem there, behind, List.map_append, kept, List.map_singleton,
        replacedBy_of_notMem new, List.filter_cons_of_pos (by simpa using there),
        List.append_assoc, List.singleton_append]

end SetMembers

namespace Log

variable {α β : Type} {f : Text × α} {fields context others : List (Text × α)}

/-! ## Sorting -/

theorem insertField_perm (f : Text × α) (fields : List (Text × α)) :
    (insertField f fields).Perm (f :: fields) := by
  induction fields with
  | nil => exact .refl _
  | cons g rest ih =>
    rw [insertField]
    split
    · exact .refl _
    · exact (ih.cons g).trans (.swap f g rest)

theorem pairwise_insertField (sorted : fields.Pairwise (·.1 < ·.1))
    (new : f.1 ∉ fields.map (·.1)) : (insertField f fields).Pairwise (·.1 < ·.1) := by
  induction fields with
  | nil => exact List.pairwise_singleton _ _
  | cons g rest ih =>
    obtain ⟨first, later⟩ := List.pairwise_cons.1 sorted
    rw [List.map_cons, List.mem_cons, not_or] at new
    rw [insertField]
    split
    · next below =>
      refine List.pairwise_cons.2 ⟨?_, sorted⟩
      intro h hh
      obtain rfl | behind := List.mem_cons.1 hh
      · exact below
      · exact List.lt_trans below (first h behind)
    · next notBelow =>
      refine List.pairwise_cons.2 ⟨?_, ih later new.2⟩
      intro h hh
      obtain rfl | behind := List.mem_cons.1 ((insertField_perm f rest).mem_iff.1 hh)
      · exact (List.le_iff_lt_or_eq.1 (List.not_lt.1 notBelow)).resolve_right (Ne.symm new.1)
      · exact first h behind

theorem sortFields_perm (fields : List (Text × α)) :
    (fields.foldr insertField []).Perm fields := by
  induction fields with
  | nil => exact .refl _
  | cons f rest ih => exact (insertField_perm f _).trans (ih.cons f)

theorem pairwise_sortFields (once : (fields.map (·.1)).Nodup) :
    (fields.foldr insertField []).Pairwise (·.1 < ·.1) := by
  induction fields with
  | nil => exact .nil
  | cons f rest ih =>
    obtain ⟨new, later⟩ := List.nodup_cons.1 once
    refine pairwise_insertField (ih later) ?_
    rwa [((sortFields_perm rest).map _).mem_iff]

/-! ## The order of a line -/

/-- Fields in the order of a line: those of the context in its order, and the others by name. None
is lost, none is added and none stands there twice. -/
structure Arranged (fields context others : List (Text × α)) : Prop where
  context_order : (context.map (·.1)).Sublist contextNames
  mem_context : ∀ f, f ∈ context ↔ f ∈ fields ∧ f.1 ∈ contextNames
  others_order : others.Pairwise (·.1 < ·.1)
  mem_others : ∀ f, f ∈ others ↔ f ∈ fields ∧ f.1 ∉ contextNames

namespace Arranged

theorem mem_append (a : Arranged fields context others) :
    f ∈ context ++ others ↔ f ∈ fields := by
  rw [List.mem_append, a.mem_context, a.mem_others, ← and_or_left, and_iff_left (em _)]

theorem once (a : Arranged fields context others) : ((context ++ others).map (·.1)).Nodup := by
  rw [List.map_append, List.nodup_append]
  refine ⟨a.context_order.nodup (by decide), ?_, ?_⟩
  · refine List.pairwise_map.2 (a.others_order.imp fun below same => ?_)
    exact List.lt_irrefl _ (same ▸ below)
  · intro n inContext m inOthers same
    obtain ⟨f, hf, rfl⟩ := List.mem_map.1 inContext
    obtain ⟨g, hg, rfl⟩ := List.mem_map.1 inOthers
    exact ((a.mem_others g).1 hg).2 (same ▸ ((a.mem_context f).1 hf).2)

theorem filter (a : Arranged fields context others) (p : Text × α → Bool) :
    Arranged (fields.filter p) (context.filter p) (others.filter p) where
  context_order := (List.filter_sublist.map _).trans a.context_order
  mem_context f := by rw [List.mem_filter, List.mem_filter, a.mem_context, and_right_comm]
  others_order := a.others_order.filter p
  mem_others f := by rw [List.mem_filter, List.mem_filter, a.mem_others, and_right_comm]

theorem replacedBy_eq (a : Arranged fields context others) (once : (fields.map (·.1)).Nodup) :
    replacedBy (context ++ others) = replacedBy fields := by
  funext m
  have same : (context ++ others).lookup m.1 = fields.lookup m.1 := by
    ext v
    rw [lookup_eq_some_iff_mem a.once, lookup_eq_some_iff_mem once, a.mem_append]
  rw [replacedBy, replacedBy, same]

end Arranged

theorem names_pick (names : List Text) (fields : List (Text × α)) :
    ((names.filterMap fun n => (fields.lookup n).map fun v => (n, v)).map (·.1)).Sublist names := by
  induction names with
  | nil => exact .slnil
  | cons n rest ih =>
    rw [List.filterMap_cons]
    cases fields.lookup n with
    | none => exact ih.cons n
    | some v => exact ih.cons_cons n

theorem exists_arranged (once : (fields.map (·.1)).Nodup) :
    ∃ context others, Arranged fields context others ∧
      orderedFields fields = context ++ others := by
  refine ⟨_, _, ⟨names_pick _ _, ?_, ?_, ?_⟩, rfl⟩
  · rintro ⟨n, v⟩
    rw [List.mem_filterMap, ← lookup_eq_some_iff_mem once]
    constructor
    · rintro ⟨n', known, found⟩
      obtain ⟨v', there, ⟨⟩⟩ := Option.map_eq_some_iff.1 found
      exact ⟨there, known⟩
    · rintro ⟨there, known⟩
      exact ⟨n, known, Option.map_eq_some_iff.2 ⟨v, there, rfl⟩⟩
  · exact pairwise_sortFields ((List.filter_sublist.map _).nodup once)
  · intro f
    rw [(sortFields_perm _).mem_iff, List.mem_filter]
    simp

theorem of_mem_orderedFields (h : f ∈ orderedFields fields) : f ∈ fields := by
  rcases List.mem_append.1 h with h | h
  · obtain ⟨n, -, found⟩ := List.mem_filterMap.1 h
    obtain ⟨v, there, rfl⟩ := Option.map_eq_some_iff.1 found
    obtain ⟨before, after, rfl, -⟩ := List.lookup_eq_some_iff.1 there
    exact List.mem_append_right before List.mem_cons_self
  · exact (List.mem_filter.1 ((sortFields_perm _).mem_iff.1 h)).1

theorem of_mem_assemble {front : List (Text × α)} {account : Option α}
    (h : f ∈ assemble front fields account) :
    f ∈ front ∨ f ∈ shownFields fields ∨ ∃ a, account = some a ∧ f = (codes "exc_info", a) := by
  have set : ∀ {added front : List (Text × α)},
      f ∈ added.foldl (fun ms f => setMember ms f.1 f.2) front → f ∈ front ∨ f ∈ added := by
    intro added
    induction added with
    | nil => exact .inl
    | cons g rest ih =>
      intro front h
      rcases ih h with h | h
      · rcases of_mem_setMember h with h | rfl
        · exact .inl h
        · exact .inr List.mem_cons_self
      · exact .inr (List.mem_cons_of_mem g h)
  unfold assemble at h
  cases account with
  | none => exact (set h).imp_right fun h => .inl (of_mem_orderedFields h)
  | some a =>
    rcases of_mem_setMember h with h | rfl
    · exact (set h).imp_right fun h => .inl (of_mem_orderedFields h)
    · exact .inr (.inr ⟨a, rfl, rfl⟩)

/-! ## Fields of another kind -/

def mapFields (g : α → β) (fields : List (Text × α)) : List (Text × β) :=
  fields.map (Prod.map id g)

theorem lookup_mapFields (g : α → β) (fields : List (Text × α)) (name : Text) :
    (mapFields g fields).lookup name = (fields.lookup name).map g := by
  induction fields with
  | nil => rfl
  | cons f rest ih =>
    obtain ⟨n, v⟩ := f
    rw [mapFields, List.map_cons, Prod.map, List.lookup_cons, List.lookup_cons, id]
    cases name == n with
    | true => rfl
    | false => exact ih

theorem filter_mapFields (g : α → β) (p : Text → Bool) (fields : List (Text × α)) :
    (mapFields g fields).filter (fun f => p f.1) = mapFields g (fields.filter fun f => p f.1) :=
  List.filter_map

theorem setMember_mapFields (g : α → β) (fields : List (Text × α)) (name : Text) (v : α) :
    setMember (mapFields g fields) name (g v) = mapFields g (setMember fields name v) := by
  induction fields with
  | nil => rfl
  | cons f rest ih =>
    obtain ⟨n, w⟩ := f
    show setMember ((n, g w) :: mapFields g rest) name (g v) = _
    rw [setMember, setMember, ih]
    split <;> rfl

theorem insertField_mapFields (g : α → β) (f : Text × α) (fields : List (Text × α)) :
    insertField (Prod.map id g f) (mapFields g fields) = mapFields g (insertField f fields) := by
  induction fields with
  | nil => rfl
  | cons h rest ih =>
    show insertField _ (Prod.map id g h :: mapFields g rest) = _
    rw [insertField, insertField, ih]
    show (if f.1 < h.1 then _ else _) = _
    split <;> rfl

theorem foldl_setMember_mapFields (g : α → β) (front fields : List (Text × α)) :
    (mapFields g fields).foldl (fun ms f => setMember ms f.1 f.2) (mapFields g front) =
      mapFields g (fields.foldl (fun ms f => setMember ms f.1 f.2) front) := by
  induction fields generalizing front with
  | nil => rfl
  | cons f rest ih =>
    rw [List.foldl_cons, ← ih, ← setMember_mapFields]
    rfl

theorem orderedFields_mapFields (g : α → β) (fields : List (Text × α)) :
    orderedFields (mapFields g fields) = mapFields g (orderedFields fields) := by
  have picked (names : List Text) :
      (names.filterMap fun n => ((mapFields g fields).lookup n).map fun v => (n, v)) =
        mapFields g (names.filterMap fun n => (fields.lookup n).map fun v => (n, v)) := by
    refine Eq.trans (List.filterMap_congr fun n _ => ?_) List.map_filterMap.symm
    rw [lookup_mapFields]
    cases fields.lookup n <;> rfl
  have sorted (fields : List (Text × α)) :
      (mapFields g fields).foldr insertField [] = mapFields g (fields.foldr insertField []) := by
    induction fields with
    | nil => rfl
    | cons f rest ih =>
      rw [List.foldr_cons, ← insertField_mapFields, ← ih]
      rfl
  rw [orderedFields, picked, filter_mapFields g (fun n => !contextNames.contains n), sorted]
  exact List.map_append.symm

theorem assemble_mapFields (g : α → β) (front fields : List (Text × α)) (account : Option α) :
    assemble (mapFields g front) (mapFields g fields) (account.map g) =
      mapFields g (assemble front fields account) := by
  have shown : shownFields (mapFields g fields) = mapFields g (shownFields fields) :=
    filter_mapFields g (fun n => !reservedNames.contains n && n.head? != some 0x5F) fields
  unfold assemble
  rw [shown, orderedFields_mapFields, foldl_setMember_mapFields]
  cases account with
  | none => rfl
  | some a => exact setMember_mapFields g _ _ a

end Log

end Pictograph
