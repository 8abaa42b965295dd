import Pictograph.Text.Basic

/-!
Counters with labels. The labels ascend, and only those that were counted are there.
-/

namespace Pictograph

abbrev Counter := List (Text × Nat)

namespace Counter

def bump (label : Text) : Counter → Counter
  | [] => [(label, 1)]
  | (l, n) :: rest =>
    if l = label then (l, n + 1) :: rest
    else if label < l then (label, 1) :: (l, n) :: rest
    else (l, n) :: bump label rest

def count (c : Counter) (label : Text) : Nat := (c.lookup label).getD 0

def Ascending (c : Counter) : Prop := c.Pairwise fun p q => p.1 < q.1

theorem label_of_mem_bump {label : Text} {c : Counter} {p : Text × Nat} (h : p ∈ c.bump label) :
    p.1 = label ∨ p.1 ∈ c.map (·.1) := by
  induction c with
  | nil => exact .inl (congrArg (·.1) (List.mem_singleton.1 h))
  | cons q rest ih =>
    obtain ⟨l, n⟩ := q
    rw [bump] at h
    split at h
    · rcases List.mem_cons.1 h with rfl | h
      · exact .inr List.mem_cons_self
      · exact .inr (List.mem_cons_of_mem _ (List.mem_map_of_mem h))
    · split at h
      · rcases List.mem_cons.1 h with rfl | h
        · exact .inl rfl
        · exact .inr (List.mem_map_of_mem h)
      · rcases List.mem_cons.1 h with rfl | h
        · exact .inr List.mem_cons_self
        · exact (ih h).imp_right (List.mem_cons_of_mem _)

theorem Ascending.bump {c : Counter} (h : c.Ascending) (label : Text) :
    (c.bump label).Ascending := by
  induction c with
  | nil => exact List.pairwise_singleton _ _
  | cons q rest ih =>
    obtain ⟨l, n⟩ := q
    obtain ⟨first, later⟩ := List.pairwise_cons.1 h
    rw [Counter.bump]
    split
    · exact List.pairwise_cons.2 ⟨first, later⟩
    · next other =>
      split
      · next less =>
        refine List.pairwise_cons.2 ⟨?_, h⟩
        rw [List.forall_mem_cons]
        exact ⟨less, fun p hp => List.lt_trans less (first p hp)⟩
      · next notLess =>
        have less : l < label :=
          (List.le_iff_lt_or_eq.1 (List.not_lt.1 notLess)).resolve_right other
        refine List.pairwise_cons.2 ⟨?_, ih later⟩
        intro p hp
        rcases label_of_mem_bump hp with same | old
        · exact same ▸ less
        · obtain ⟨q, hq, same⟩ := List.mem_map.1 old
          exact same ▸ first q hq

theorem count_cons (l : Text) (n : Nat) (c : Counter) (label : Text) :
    count ((l, n) :: c) label = if label = l then n else c.count label := by
  rw [count, List.lookup_cons]
  by_cases same : label = l
  · simp [same]
  · rw [if_neg same, beq_false_of_ne same]
    rfl

theorem count_of_lt {c : Counter} {label : Text} (h : ∀ p ∈ c, label < p.1) :
    c.count label = 0 := by
  induction c with
  | nil => rfl
  | cons q rest ih =>
    obtain ⟨first, later⟩ := List.forall_mem_cons.1 h
    have other : label ≠ q.1 := fun same => List.lt_irrefl _ (same ▸ first)
    rw [count_cons, if_neg other, ih later]

/-- Counting a label adds one to its count, and nothing to the others. -/
theorem count_bump {c : Counter} (h : c.Ascending) (label l : Text) :
    (c.bump label).count l = c.count l + if l = label then 1 else 0 := by
  induction c with
  | nil =>
    rw [bump, count_cons]
    exact (Nat.zero_add _).symm
  | cons q rest ih =>
    obtain ⟨l', n⟩ := q
    obtain ⟨first, later⟩ := List.pairwise_cons.1 h
    rw [bump]
    split
    · next same =>
      subst same
      rw [count_cons, count_cons]
      split
      · rfl
      · rfl
    · next other =>
      split
      · next less =>
        rw [count_cons]
        split
        · next same =>
          rw [same, count_of_lt]
          rw [List.forall_mem_cons]
          exact ⟨less, fun p hp => List.lt_trans less (first p hp)⟩
        · rfl
      · rw [count_cons, count_cons, ih later]
        split
        · next same => rw [if_neg (same ▸ other), Nat.add_zero]
        · rfl

end Counter

end Pictograph
