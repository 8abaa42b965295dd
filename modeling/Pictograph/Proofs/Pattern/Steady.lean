import Pictograph.Proofs.Pattern.Longest

/-!
Steady patterns. The ways of matching inside a text are the same, in the same order, whatever
follows it, unless what follows starts with the one code value that a look ahead asks for.
Sequences, alternatives and optional parts keep that.
-/

namespace Pictograph.Pattern

/-- Of the ways in a text with something after it, those that stay inside the text are the ways in
the text alone, unless the code value `c` comes after it. -/
def Steady (c : Nat) (ways : Text → List Text) : Prop :=
  ∀ s after, after.head? ≠ some c →
    (ways (s ++ after)).filter (fun r => after.length ≤ r.length) = (ways s).map (· ++ after)

variable {c : Nat} {p q : Pattern} {ps : List Pattern} {K : Language Nat}

/-- A greedy pattern is steady, since its words do not depend on what follows. -/
theorem Greedy.steady (h : p.Greedy) (spells : p.Spells K) : Steady c p.rests := by
  intro s after _
  have left := (h (s ++ after)).filter fun r => after.length ≤ r.length
  have right : ((p.rests s).map (· ++ after)).Pairwise fun r r' => r.length < r'.length := by
    rw [List.pairwise_map]
    refine (h s).imp ?_
    intro r r' less
    simpa using less
  apply left.eq_of_mem_iff right
  intro r
  rw [List.mem_filter, List.mem_map, decide_eq_true_eq]
  constructor
  · intro hr
    obtain ⟨mem, long⟩ := hr
    obtain ⟨w, hw, split⟩ := spells.mem_rests.1 mem
    obtain ⟨y, rfl⟩ := List.suffix_of_suffix_length_le
      (List.suffix_append s after) (split ▸ List.suffix_append w r) long
    rw [← List.append_assoc, List.append_cancel_right_eq] at split
    exact ⟨y, spells.mem_rests.2 ⟨w, hw, split⟩, rfl⟩
  · intro hr
    obtain ⟨r, mem, rfl⟩ := hr
    obtain ⟨w, hw, rfl⟩ := spells.mem_rests.1 mem
    exact ⟨spells.mem_rests.2 ⟨w, hw, List.append_assoc w r after⟩, by simp⟩

theorem Steady.concat_last (h : Steady c p.rests) : Steady c (concat [p]).rests := h

theorem flatMap_filter {α β : Type} {l : List α} {keep : α → Bool} {f : α → List β}
    (nothing : ∀ a ∈ l, keep a = false → f a = []) : (l.filter keep).flatMap f = l.flatMap f := by
  induction l with
  | nil => rfl
  | cons a l ih =>
    have tail := ih fun b hb => nothing b (List.mem_cons_of_mem a hb)
    cases e : keep a with
    | true => rw [List.filter_cons_of_pos e, List.flatMap_cons, List.flatMap_cons, tail]
    | false =>
      rw [List.filter_cons_of_neg (by simp [e]), List.flatMap_cons,
        nothing a List.mem_cons_self e, tail, List.nil_append]

/-- What is left after the first part stays inside the text if what is left after both does. -/
theorem Steady.concat_cons (h : Steady c p.rests) (tail : Steady c (concat ps).rests) :
    Steady c (concat (p :: ps)).rests := by
  intro s after plain
  rw [rests_concat_cons, rests_concat_cons, List.filter_flatMap, List.map_flatMap]
  have outside : ∀ m ∈ p.rests (s ++ after), decide (after.length ≤ m.length) = false →
      ((concat ps).rests m).filter (fun r => after.length ≤ r.length) = [] := by
    intro m _ short
    rw [decide_eq_false_iff_not] at short
    rw [List.filter_eq_nil_iff]
    intro r hr
    have less := length_le_of_mem_rests hr
    simp only [decide_eq_true_eq]
    omega
  rw [← flatMap_filter outside, h s after plain, List.flatMap_map]
  exact List.flatMap_congr fun m _ => tail m after plain

theorem Steady.alt (h : Steady c p.rests) (h' : Steady c q.rests) :
    Steady c (alt p q).rests := by
  intro s after plain
  rw [rests, rests, List.filter_append, List.map_append, h s after plain, h' s after plain]

theorem Steady.group (h : Steady c p.rests) : Steady c (group p).rests := h

theorem Steady.opt (h : Steady c p.rests) : Steady c (opt p).rests := by
  intro s after plain
  rw [rests, rests, List.filter_append, List.map_append, h s after plain]
  simp

theorem steady_notAhead (c : Nat) : Steady c (notAhead (symbol c)).rests := by
  intro s after plain
  cases s with
  | nil =>
    cases after with
    | nil => simp [rests]
    | cons d after =>
      have other : c ≠ d := by simpa [eq_comm] using plain
      simp [rests, other]
  | cons d s =>
    by_cases same : c = d
    · simp [rests, same]
    · have long : after.length ≤ s.length + after.length + 1 := by omega
      simp [rests, same, long]

theorem Steady.flatMap {α : Type} (l : List α) {ways : α → Text → List Text}
    (h : ∀ a, Steady c (ways a)) : Steady c fun t => l.flatMap (ways · t) := by
  intro s after plain
  rw [List.filter_flatMap, List.map_flatMap]
  exact List.flatMap_congr fun a _ => h a s after plain

variable {s after : Text}

theorem Steady.rests_eq_nil (h : Steady c p.rests) (plain : after.head? ≠ some c)
    (nothing : p.rests (s ++ after) = []) : p.rests s = [] := by
  have inside := h s after plain
  rw [nothing] at inside
  exact List.map_eq_nil_iff.1 inside.symm

theorem Steady.head? (h : Steady c p.rests) (plain : after.head? ≠ some c) {r : Text}
    (first : (p.rests (s ++ after)).head? = some (r ++ after)) : (p.rests s).head? = some r := by
  have inside := h s after plain
  obtain ⟨more, split⟩ := List.head?_eq_some_iff.1 first
  rw [split, List.filter_cons_of_pos (by simp)] at inside
  cases e : p.rests s with
  | nil =>
    rw [e] at inside
    cases inside
  | cons r' rest =>
    rw [e, List.map_cons, List.cons.injEq, List.append_cancel_right_eq] at inside
    rw [List.head?_cons, inside.1]

end Pictograph.Pattern
