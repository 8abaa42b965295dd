import Pictograph.Proofs.Pattern.Filled

/-!
To find, to test and to replace are one search. Whatever a pattern matches, also nothing at all, the
matches are in order and apart, nothing that fits is passed over, a text passes the test exactly if
there is a match, and what is replaced are the matches, each where it was found.
-/

namespace Pictograph

/-- Does the match begin at the place, or use up the character there? -/
def Found.Covers (f : Found) (place : Nat) : Prop :=
  f.start = place ∨ f.start < place ∧ place < f.stop

/-- Is the match over before the other one begins? Both may be at one place if the first is empty
and the other is not. -/
def Found.Precedes (f g : Found) : Prop := f.stop ≤ g.start ∧ f.start < g.stop

/-- The text from a place on, with a new text in the place of each match. -/
def rewritten (t : Text) : (place : Nat) → List (Found × Text) → Text
  | place, [] => t.drop place
  | place, (f, new) :: more => t.extract place f.start ++ new ++ rewritten t f.stop more

namespace Pattern

variable {p : Pattern} {place skip : Nat} {t : Text}

/-! The order of the matches -/

theorem le_start_of_mem_findFrom {f : Found} (h : f ∈ p.findFrom place skip t) :
    place + skip ≤ f.start := by
  induction t generalizing place skip with
  | nil =>
    cases skip with
    | zero => exact Nat.le_of_eq (mem_emptyAt h).1.symm
    | succ skip => cases h
  | cons c rest ih =>
    cases skip with
    | succ skip =>
      have later : place + 1 + skip ≤ f.start := ih h
      omega
    | zero =>
      rw [findFrom, List.mem_append] at h
      rcases h with here | h
      · exact Nat.le_of_eq (mem_emptyAt here).1.symm
      · split at h
        · rcases List.mem_cons.1 h with rfl | h
          · exact Nat.le_refl _
          · have later := ih h
            omega
        · have later := ih h
          omega

theorem precedes_of_lt {f g : Found} (apart : f.stop ≤ g.start) (later : f.start < g.start) :
    f.Precedes g := ⟨apart, Nat.lt_of_lt_of_le later (Nat.le_add_right _ _)⟩

theorem pairwise_emptyAt (p : Pattern) (place : Nat) (t : Text) :
    (p.emptyAt place t).Pairwise Found.Precedes := by
  unfold emptyAt
  split <;> simp

theorem pairwise_findFrom (p : Pattern) (place skip : Nat) (t : Text) :
    (p.findFrom place skip t).Pairwise Found.Precedes := by
  induction t generalizing place skip with
  | nil =>
    cases skip with
    | zero => exact pairwise_emptyAt p place []
    | succ skip => exact .nil
  | cons c rest ih =>
    cases skip with
    | succ skip => exact ih (place + 1) skip
    | zero =>
      rw [findFrom, List.pairwise_append]
      refine ⟨pairwise_emptyAt p place _, ?_, fun f hf g hg => ?_⟩
      · split
        · next n advance =>
          refine List.pairwise_cons.2 ⟨fun g hg => ?_, ih (place + 1) n⟩
          have later := le_start_of_mem_findFrom hg
          have apart : (⟨c :: rest.take n, place⟩ : Found).stop = place + (n + 1) := by
            rw [Found.stop, length_cons_take advance]
          exact precedes_of_lt (by omega) (by dsimp only; omega)
        · exact ih (place + 1) 0
      · obtain ⟨-, rfl⟩ := mem_emptyAt_iff.1 hf
        have empty {g : Found} (later : place < g.start) : (⟨[], place⟩ : Found).Precedes g :=
          precedes_of_lt (Nat.le_of_lt later) later
        split at hg
        · rcases List.mem_cons.1 hg with rfl | hg
          · exact ⟨Nat.le_refl _, by simp [Found.stop]⟩
          · exact empty (lt_start_of_mem_findFrom hg)
        · exact empty (lt_start_of_mem_findFrom hg)

/-! Nothing is passed over -/

theorem rests_eq_nil_of_stuck (prefers : p.prefersEmpty t = false) (stuck : p.advance? t = none) :
    p.rests t = [] := by
  rw [prefersEmpty_eq] at prefers
  rw [advance?_eq, Option.map_eq_none_iff, List.find?_eq_none] at stuck
  cases rests : p.rests t with
  | nil => rfl
  | cons r more =>
    rw [rests] at prefers stuck
    have all := stuck r List.mem_cons_self
    have short := length_le_of_mem_rests (rests ▸ List.mem_cons_self : r ∈ p.rests t)
    simp only [List.head?_cons, Option.any_some, beq_eq_false_iff_ne] at prefers
    simp only [decide_eq_true_eq] at all
    omega

theorem exists_covers_findFrom {k : Nat} (after : skip ≤ k) (inside : k ≤ t.length)
    (fits : p.rests (t.drop k) ≠ []) :
    ∃ f ∈ p.findFrom place skip t, f.Covers (place + k) := by
  have here : ∀ {place : Nat} {t : Text}, p.prefersEmpty t = true →
      ∃ f ∈ p.emptyAt place t, f.Covers place := fun prefers =>
    ⟨_, mem_emptyAt_iff.2 ⟨prefers, rfl⟩, .inl rfl⟩
  induction t generalizing place skip k with
  | nil =>
    obtain rfl : k = 0 := Nat.le_zero.1 inside
    obtain rfl : skip = 0 := Nat.le_zero.1 after
    refine here (Bool.of_not_eq_false fun prefers => fits ?_)
    exact rests_eq_nil_of_stuck prefers (by rw [advance?_eq]; simp)
  | cons c rest ih =>
    rw [List.length_cons] at inside
    cases k with
    | zero =>
      obtain rfl : skip = 0 := Nat.le_zero.1 after
      rw [findFrom]
      cases advance : p.advance? (c :: rest) with
      | some n => exact ⟨⟨c :: rest.take n, place⟩, by simp, .inl rfl⟩
      | none =>
        have prefers : p.prefersEmpty (c :: rest) = true :=
          Bool.of_not_eq_false fun prefers => fits (rests_eq_nil_of_stuck prefers advance)
        obtain ⟨f, hf, covers⟩ : ∃ f ∈ p.emptyAt place (c :: rest), f.Covers place := here prefers
        exact ⟨f, List.mem_append_left _ hf, covers⟩
    | succ k =>
      have later : ∀ skip ≤ k,
          ∃ f ∈ p.findFrom (place + 1) skip rest, f.Covers (place + (k + 1)) := by
        intro skip after
        have next : place + 1 + k = place + (k + 1) := by omega
        exact next ▸ ih after (by omega) fits
      cases skip with
      | succ skip => exact later skip (by omega)
      | zero =>
        rw [findFrom]
        cases advance : p.advance? (c :: rest) with
        | none =>
          obtain ⟨f, hf, covers⟩ := later 0 (Nat.zero_le k)
          exact ⟨f, List.mem_append_right _ hf, covers⟩
        | some n =>
          by_cases used : n ≤ k
          · obtain ⟨f, hf, covers⟩ := later n used
            exact ⟨f, List.mem_append_right _ (List.mem_cons_of_mem _ hf), covers⟩
          · refine ⟨⟨c :: rest.take n, place⟩, by simp, .inr ⟨?_, ?_⟩⟩
            · exact Nat.lt_add_of_pos_right k.succ_pos
            · rw [Found.stop, length_cons_take advance]
              dsimp only
              omega

/-- Where something fits, a match begins, or one is not yet over. -/
theorem exists_covers {n : Nat} (inside : n ≤ t.length) (fits : p.rests (t.drop n) ≠ []) :
    ∃ f ∈ p.find t, f.Covers n := by
  have covered : ∃ f ∈ p.findFrom 0 0 t, f.Covers (0 + n) :=
    exists_covers_findFrom (Nat.zero_le n) inside fits
  rwa [Nat.zero_add] at covered

theorem test_iff_find {p : Pattern} {t : Text} : p.test t = true ↔ p.find t ≠ [] := by
  rw [test_iff]
  constructor
  · intro h
    obtain ⟨n, fits⟩ := h
    -- Beyond the end of the text there is what there is at its end.
    have least : p.rests (t.drop (min n t.length)) ≠ [] := by
      rcases Nat.le_total n t.length with inside | beyond
      · rwa [Nat.min_eq_left inside]
      · rw [Nat.min_eq_right beyond, List.drop_length]
        rwa [List.drop_of_length_le beyond] at fits
    obtain ⟨f, hf, -⟩ := exists_covers (Nat.min_le_right n t.length) least
    exact List.ne_nil_of_mem hf
  · intro some
    obtain ⟨f, hf⟩ := List.exists_mem_of_ne_nil _ some
    obtain ⟨r, -, split, takes⟩ := mem_find hf
    refine ⟨f.start, ?_⟩
    rw [split]
    exact List.ne_nil_of_mem takes.mem_rests

theorem extract_of_mem_find {f : Found} (h : f ∈ p.find t) :
    f.stop ≤ t.length ∧ t.extract f.start f.stop = f.text ∧
      t.drop f.stop ∈ p.rests (t.drop f.start) := by
  obtain ⟨r, inside, split, takes⟩ := mem_find h
  have length := congrArg List.length split
  rw [List.length_drop, List.length_append] at length
  have behind : t.drop f.stop = r := by
    rw [Found.stop, ← List.drop_drop, split, List.drop_left]
  refine ⟨by rw [Found.stop]; omega, ?_, ?_⟩
  · rw [List.extract_eq_take_drop, split, Found.stop, Nat.add_sub_cancel_left, List.take_left]
  · rw [behind, split]
    exact takes.mem_rests

theorem standing_find (p : Pattern) (t : Text) : Standing t (p.find t) where
  apart := (pairwise_findFrom p 0 0 t).imp fun h => h.1
  there := by
    intro f hf
    obtain ⟨r, inside, split, -⟩ := mem_find hf
    exact ⟨inside, r, split.symm⟩

theorem joined_cut (p : Pattern) (t : Text) : joined (p.cut t).parts (p.cut t).rest = t :=
  (p.standing_find t).joined_cutAt fun f _ => Nat.zero_le f.start

/-! Matches replaced -/

variable {m : Type → Type} [Monad m] [LawfulMonad m]

theorem fillM_cutAt (f : Text → m Text) {found : List Found}
    (ordered : found.Pairwise Found.Precedes) (after : ∀ g ∈ found, place ≤ g.start) :
    (cutAt place (t.drop place) found).fillM f = do
      let news ← found.mapM fun g => do return (g, ← f g.text)
      return rewritten t place news := by
  induction found generalizing place with
  | nil => simp [cutAt, fillM_nil, rewritten]
  | cons g more ih =>
    rw [List.forall_mem_cons] at after
    rw [List.pairwise_cons] at ordered
    have gap : t.extract place g.start = (t.drop place).take (g.start - place) := rfl
    have rest := ih ordered.2 fun g' hg' => (ordered.1 g' hg').1
    rw [cutAt_drop after.1, fillM_cons, rest]
    simp [rewritten, gap]

theorem replaceM_eq_rewritten (p : Pattern) (f : Text → m Text) (t : Text) :
    p.replaceM f t = do
      let news ← (p.find t).mapM fun g => do return (g, ← f g.text)
      return rewritten t 0 news := by
  rw [replaceM_eq, cut]
  exact fillM_cutAt f (pairwise_findFrom p 0 0 t) fun g _ => Nat.zero_le g.start

theorem replace_eq_rewritten (p : Pattern) (f : Text → Text) (t : Text) :
    p.replace f t = rewritten t 0 ((p.find t).map fun g => (g, f g.text)) := by
  rw [replace, replaceM_eq_rewritten (m := Id)]
  exact congrArg (rewritten t 0) (List.mapM_pure (m := Id) (f := fun g : Found => (g, f g.text)))

theorem replace_id (p : Pattern) (t : Text) : p.replace id t = t := by
  have filled : (p.cut t).fillM (m := Id) id = joined (p.cut t).parts (p.cut t).rest := by
    have kept : (p.cut t).parts.mapM (m := Id) (fun part => pure part) = pure (p.cut t).parts := by
      rw [List.mapM_pure, List.map_id']
    exact congrArg (joined · (p.cut t).rest) kept
  rw [replace, replaceM_eq (m := Id), filled, joined_cut]

/-- What is found, tested and replaced is the same. The matches are in order and apart, each is the
text between its ends and a way of matching there, and none that fits is passed over; a text passes
the test if there is one; and a callback is asked about each match once, in this order, and its
answers stand in the places of the matches in an otherwise unchanged text. -/
theorem searches_agree (p : Pattern) (t : Text) :
    (p.find t).Pairwise Found.Precedes ∧
    (∀ f ∈ p.find t, f.stop ≤ t.length ∧ t.extract f.start f.stop = f.text ∧
      t.drop f.stop ∈ p.rests (t.drop f.start)) ∧
    (∀ n ≤ t.length, p.rests (t.drop n) ≠ [] → ∃ f ∈ p.find t, f.Covers n) ∧
    (p.test t = true ↔ p.find t ≠ []) ∧
    (∀ f : Text → Text, p.replace f t = rewritten t 0 ((p.find t).map fun g => (g, f g.text))) ∧
    p.replace id t = t ∧
    ∀ {m : Type → Type} [Monad m] [LawfulMonad m] (f : Text → m Text), p.replaceM f t = do
      let news ← (p.find t).mapM fun g => do return (g, ← f g.text)
      return rewritten t 0 news := by
  refine ⟨pairwise_findFrom p 0 0 t, fun f hf => extract_of_mem_find hf, fun n => exists_covers,
    test_iff_find, fun f => replace_eq_rewritten p f t, replace_id p t, fun f => ?_⟩
  exact replaceM_eq_rewritten p f t

/-- Nothing or an `x`, with the matches numbered: an empty match right before one that is not. -/
theorem searches_agree_empty :
    let p : Pattern := .alt .empty (.symbol 0x78)
    let number (raw : Text) : StateM Nat Text := do
      let n ← get
      set (n + 1)
      return Text.decimal n ++ raw
    p.find (codes "ax") = [⟨[], 0⟩, ⟨[], 1⟩, ⟨codes "x", 1⟩, ⟨[], 2⟩] ∧
      1 ≤ (codes "ax").length ∧ p.rests ((codes "ax").drop 1) ≠ [] ∧
      (∃ f ∈ p.find (codes "ax"), f.Covers 1) ∧
      (p.replaceM number (codes "ax")).run 0 = (codes "0a12x3", 4) := by
  intro p number
  have inside : 1 ≤ (codes "ax").length := by decide
  have fits : p.rests ((codes "ax").drop 1) ≠ [] := by decide
  obtain ⟨-, -, covered, -, -, -, replaced⟩ := searches_agree p (codes "ax")
  refine ⟨by decide, inside, fits, covered 1 inside fits, ?_⟩
  rw [replaced number]
  rfl

end Pattern

end Pictograph
