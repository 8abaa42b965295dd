import Pictograph.Pattern.Search

/-!
What a search finds. Every match stands where it says, and is what the search takes there: the
preferred way of matching if that is empty, and the first one that uses something up otherwise.
-/

namespace Pictograph.Pattern

variable {p : Pattern}

/-- In front of the rest `r`, the search takes the match `w`. -/
def Takes (p : Pattern) (w r : Text) : Prop :=
  if w = [] then (p.rests r).head? = some r
  else (p.rests (w ++ r)).find? (fun r' => r'.length < (w ++ r).length) = some r

theorem Takes.mem_rests {w r : Text} (h : p.Takes w r) : r ∈ p.rests (w ++ r) := by
  unfold Takes at h
  split at h
  · next empty =>
    rw [empty]
    exact List.mem_of_head? h
  · exact List.mem_of_find?_eq_some h

theorem Takes.head? {w r : Text} (h : p.Takes w r)
    (used : ∀ r' ∈ p.rests (w ++ r), r'.length < (w ++ r).length) :
    (p.rests (w ++ r)).head? = some r := by
  unfold Takes at h
  split at h
  · next empty =>
    rw [empty]
    exact h
  · cases e : p.rests (w ++ r) with
    | nil =>
      rw [e] at h
      cases h
    | cons r' rests =>
      rw [e] at h used
      rwa [List.find?_cons_of_pos (by simpa using used r' List.mem_cons_self)] at h

theorem advance?_eq (p : Pattern) (t : Text) :
    p.advance? t = ((p.rests t).find? fun r => r.length < t.length).map
      fun r => t.length - r.length - 1 := by
  rw [advance?, search_eq]
  have short : ∀ r ∈ p.rests t, r.length ≤ t.length := fun r hr => length_le_of_mem_rests hr
  generalize p.rests t = rests at short
  induction rests with
  | nil => rfl
  | cons r rests ih =>
    have tail := ih fun r' hr' => short r' (List.mem_cons_of_mem r hr')
    have here := short r List.mem_cons_self
    rw [List.findSome?_cons, List.find?_cons]
    by_cases less : r.length < t.length
    · have used : t.length - r.length ≠ 0 := by omega
      simp [less, used]
    · have unused : 0 + (t.length - r.length) = 0 := by omega
      simp only [unused, less, ↓reduceIte, decide_false, tail]

theorem take_advance {c : Nat} {rest : Text} {n : Nat} (h : p.advance? (c :: rest) = some n) :
    p.Takes (c :: rest.take n) (rest.drop n) := by
  rw [advance?_eq, Option.map_eq_some_iff] at h
  obtain ⟨r, found, rfl⟩ := h
  have less : r.length < (c :: rest).length := by
    simpa using List.find?_some found
  obtain ⟨w, split⟩ := suffix_of_mem_rests (List.mem_of_find?_eq_some found)
  have length := congrArg List.length split
  simp only [List.length_append, List.length_cons] at length less
  cases w with
  | nil =>
    simp only [List.length_nil] at length
    omega
  | cons d w =>
    rw [List.cons_append, List.cons.injEq] at split
    obtain ⟨rfl, rfl⟩ := split
    have used : (d :: (w ++ r)).length - r.length - 1 = w.length := by
      simp only [List.length_cons, List.length_append]
      omega
    rw [used, List.take_left, List.drop_left, Takes, if_neg (by simp)]
    exact found

theorem mem_emptyAt_iff {place : Nat} {t : Text} {f : Found} :
    f ∈ p.emptyAt place t ↔ p.prefersEmpty t = true ∧ f = ⟨[], place⟩ := by
  unfold emptyAt
  split
  · next prefers => simp [prefers]
  · next other => simp [other]

theorem mem_emptyAt {place : Nat} {t : Text} {f : Found} (h : f ∈ p.emptyAt place t) :
    f.start = place ∧ f.text = [] ∧ p.Takes [] t := by
  obtain ⟨prefers, rfl⟩ := mem_emptyAt_iff.1 h
  refine ⟨rfl, rfl, ?_⟩
  rw [prefersEmpty_eq, Option.any_eq_true] at prefers
  obtain ⟨r, head, same⟩ := prefers
  have suffix := suffix_of_mem_rests (List.mem_of_head? head)
  rw [Takes, if_pos rfl, head, suffix.eq_of_length (by simpa using same)]

theorem mem_findFrom {place skip : Nat} {t : Text} {f : Found} (h : f ∈ p.findFrom place skip t) :
    ∃ k r, f.start = place + k ∧ k ≤ t.length ∧ t.drop k = f.text ++ r ∧ p.Takes f.text r := by
  have here : ∀ {place : Nat} {t : Text}, f ∈ p.emptyAt place t →
      ∃ k r, f.start = place + k ∧ k ≤ t.length ∧ t.drop k = f.text ++ r ∧ p.Takes f.text r := by
    intro place t hf
    obtain ⟨start, text, takes⟩ := mem_emptyAt hf
    exact ⟨0, t, start, by omega, by simp [text], text ▸ takes⟩
  induction t generalizing place skip with
  | nil =>
    cases skip with
    | zero => exact here h
    | succ skip => simp [findFrom] at h
  | cons c rest ih =>
    have later : ∀ {skip : Nat}, f ∈ p.findFrom (place + 1) skip rest →
        ∃ k r, f.start = place + k ∧ k ≤ (c :: rest).length ∧
          (c :: rest).drop k = f.text ++ r ∧ p.Takes f.text r := by
      intro skip hf
      obtain ⟨k, r, start, inside, split, takes⟩ := ih hf
      exact ⟨k + 1, r, by omega, by simpa using inside, by simpa using split, takes⟩
    cases skip with
    | succ skip => exact later h
    | zero =>
      rw [findFrom, List.mem_append] at h
      rcases h with h | h
      · exact here h
      · split at h
        · next n advance =>
          rcases List.mem_cons.1 h with rfl | h
          · exact ⟨0, rest.drop n, rfl, by omega, by simp, take_advance advance⟩
          · exact later h
        · exact later h

/-- Every match stands where it says, and the search takes it there. -/
theorem mem_find {t : Text} {f : Found} (h : f ∈ p.find t) :
    ∃ r, f.start ≤ t.length ∧ t.drop f.start = f.text ++ r ∧ p.Takes f.text r := by
  obtain ⟨k, r, start, inside, split, takes⟩ := mem_findFrom h
  rw [Nat.zero_add] at start
  rw [start]
  exact ⟨r, inside, split, takes⟩

theorem exists_mem_find {t : Text} (h : ∃ r ∈ p.rests t, r.length < t.length) :
    ∃ f ∈ p.find t, f.start = 0 ∧ f.text ≠ [] := by
  obtain ⟨r, hr, less⟩ := h
  have advances : ∃ n, p.advance? t = some n := by
    rw [← Option.isSome_iff_exists, advance?_eq, Option.isSome_map, List.find?_isSome]
    exact ⟨r, hr, by simpa using less⟩
  obtain ⟨n, advance⟩ := advances
  cases t with
  | nil => simp at less
  | cons c rest =>
    refine ⟨⟨c :: rest.take n, 0⟩, ?_, rfl, by simp⟩
    rw [find, findFrom, advance]
    simp

theorem findFrom_append (p : Pattern) (place : Nat) (w r : Text) :
    p.findFrom place w.length (w ++ r) = p.findFrom (place + w.length) 0 r := by
  induction w generalizing place with
  | nil => rfl
  | cons c w ih =>
    rw [List.length_cons, List.cons_append, findFrom, ih]
    congr 1
    omega

theorem findFrom_cons_of_rests_eq_nil {c : Nat} {t : Text} (h : p.rests (c :: t) = [])
    (place : Nat) : p.findFrom place 0 (c :: t) = p.findFrom (place + 1) 0 t := by
  have stuck : p.advance? (c :: t) = none := by
    rw [advance?_eq, h]
    rfl
  have prefers : p.prefersEmpty (c :: t) = false := by
    rw [prefersEmpty_eq, h]
    rfl
  rw [findFrom, stuck, emptyAt, prefers]
  rfl

/-- Where the preferred way of matching uses something up, it is a match, and the search goes on
after it. -/
theorem findFrom_append_of_head? {w r : Text} (first : (p.rests (w ++ r)).head? = some r)
    (some : w ≠ []) (place : Nat) :
    p.findFrom place 0 (w ++ r) = ⟨w, place⟩ :: p.findFrom (place + w.length) 0 r := by
  match w, some with
  | c :: w, _ =>
    have length : (c :: (w ++ r)).length = r.length + (w.length + 1) := by
      rw [List.length_cons, List.length_append]
      omega
    rw [List.cons_append] at first ⊢
    obtain ⟨rests, split⟩ := List.head?_eq_some_iff.1 first
    have advance : p.advance? (c :: (w ++ r)) = .some w.length := by
      rw [advance?_eq, split, length, List.find?_cons_of_pos (by simp), Option.map_some,
        Nat.add_sub_cancel_left]
      rfl
    have prefers : p.prefersEmpty (c :: (w ++ r)) = false := by
      rw [prefersEmpty_eq, first, Option.any_some, length, beq_eq_false_iff_ne]
      omega
    rw [findFrom, advance, emptyAt, prefers]
    simp only [Bool.false_eq_true, ↓reduceIte, List.nil_append, List.take_left,
      findFrom_append, List.length_cons]
    congr 2
    omega

theorem findFrom_nil_of_rests_eq_nil (h : p.rests [] = []) (place : Nat) :
    p.findFrom place 0 [] = [] := by
  rw [findFrom, emptyAt, prefersEmpty_eq, h]
  rfl

theorem test_iff {t : Text} : p.test t = true ↔ ∃ n, p.rests (t.drop n) ≠ [] := by
  have fits : ∀ t, p.fitsAt t = true ↔ p.rests t ≠ [] := by
    intro t
    simp [fitsAt_eq]
  induction t with
  | nil => simp [test, fits]
  | cons c rest ih =>
    rw [test, Bool.or_eq_true, fits, or_congr_right ih]
    constructor
    · intro h
      rcases h with here | ⟨n, later⟩
      · exact ⟨0, here⟩
      · exact ⟨n + 1, later⟩
    · intro h
      obtain ⟨n, fits⟩ := h
      cases n with
      | zero => exact .inl fits
      | succ n => exact .inr ⟨n, fits⟩

theorem find_of_rests_eq (idle : ∀ t, p.rests t = [t]) (t : Text) :
    p.find t = (List.range (t.length + 1)).map fun n => ⟨[], n⟩ := by
  have here : ∀ place t, p.emptyAt place t = [⟨[], place⟩] := by
    intro place t
    simp [emptyAt, prefersEmpty_eq, idle]
  have stuck : ∀ t, p.advance? t = none := by
    intro t
    simp [advance?_eq, idle]
  have from_place : ∀ place, p.findFrom place 0 t =
      (List.range' place (t.length + 1)).map fun n => ⟨[], n⟩ := by
    induction t with
    | nil =>
      intro place
      rw [findFrom, here]
      rfl
    | cons c rest ih =>
      intro place
      rw [findFrom, here, stuck, ih, List.length_cons, List.range'_succ]
      rfl
  rw [find, from_place, List.range_eq_range']

end Pictograph.Pattern
