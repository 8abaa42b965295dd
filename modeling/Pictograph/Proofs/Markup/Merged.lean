import Pictograph.Proofs.Markup.Names

/-!
Attributes with those of a caller merged in. The names that stay are the safe ones among the usual
and the given ones, each once, and a given name has the last value that it is given.
-/

namespace Pictograph.Markup

variable {α : Type} {base given : List (Text × α)} {m : Text × α} {name : Text}

def lastGiven (given : List (Text × α)) (name : Text) : Option α := given.reverse.lookup name

theorem lastGiven_cons :
    lastGiven (m :: given) name =
      (lastGiven given name).or (if name = m.1 then some m.2 else none) := by
  rw [lastGiven, List.reverse_cons, List.lookup_append, lastGiven, List.lookup_cons]
  by_cases same : name = m.1
  · rw [if_pos same, beq_iff_eq.2 same]
  · rw [if_neg same, beq_eq_false_iff_ne.2 same]
    rfl

theorem mem_names_foldl_setMember :
    name ∈ (given.foldl (fun merged m => setMember merged m.1 m.2) base).map (·.1) ↔
      name ∈ base.map (·.1) ∨ name ∈ given.map (·.1) := by
  induction given generalizing base with
  | nil => simp
  | cons m given ih =>
    rw [List.foldl_cons, ih, mem_names_setMember, List.map_cons, List.mem_cons, or_assoc]

theorem nodup_names_foldl_setMember (once : (base.map (·.1)).Nodup) :
    ((given.foldl (fun merged m => setMember merged m.1 m.2) base).map (·.1)).Nodup := by
  induction given generalizing base with
  | nil => exact once
  | cons m given ih => exact ih (nodup_names_setMember once m.1 m.2)

theorem lookup_foldl_setMember :
    (given.foldl (fun merged m => setMember merged m.1 m.2) base).lookup name =
      (lastGiven given name).or (base.lookup name) := by
  induction given generalizing base with
  | nil => rfl
  | cons m given ih =>
    rw [List.foldl_cons, ih, lastGiven_cons, Option.or_assoc]
    by_cases same : name = m.1
    · rw [if_pos same, same, lookup_setMember_self, Option.some_or]
    · rw [if_neg same, lookup_setMember_of_ne base _ same, Option.none_or]

theorem mem_names_merge :
    name ∈ (merge base given).map (·.1) ↔
      isSafeName name = true ∧ (name ∈ base.map (·.1) ∨ name ∈ given.map (·.1)) := by
  rw [merge, ← mem_names_foldl_setMember]
  simp only [List.mem_map, List.mem_filter]
  constructor
  · rintro ⟨a, ⟨there, safe⟩, rfl⟩
    exact ⟨safe, a, there, rfl⟩
  · rintro ⟨safe, a, there, rfl⟩
    exact ⟨a, ⟨there, safe⟩, rfl⟩

theorem nodup_names_merge (once : (base.map (·.1)).Nodup) :
    ((merge base given).map (·.1)).Nodup :=
  (nodup_names_foldl_setMember once).sublist (List.filter_sublist.map _)

theorem lookup_filter_name {p : Text → Bool} (kept : p name = true) (members : List (Text × α)) :
    (members.filter fun a => p a.1).lookup name = members.lookup name := by
  induction members with
  | nil => rfl
  | cons a members ih =>
    by_cases same : name = a.1
    · rw [List.filter_cons_of_pos (by rw [← same, kept]), List.lookup_cons, List.lookup_cons, ih]
    · have other : (name == a.1) = false := beq_eq_false_iff_ne.2 same
      rw [List.filter_cons]
      split
      · rw [List.lookup_cons, List.lookup_cons, other, ih]
      · rw [List.lookup_cons, other, ih]

theorem lookup_merge (safe : isSafeName name = true) :
    (merge base given).lookup name = (lastGiven given name).or (base.lookup name) := by
  rw [merge, lookup_filter_name safe, lookup_foldl_setMember]

end Pictograph.Markup
