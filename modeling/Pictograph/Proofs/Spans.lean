import Mathlib.Data.Int.Order.Basic
import Mathlib.Data.List.Sort
import Pictograph.Proofs.Pattern.Reading
import Pictograph.Proofs.Pattern.Words
import Pictograph.Span

/-!
Spans cover the numbers that they were made of, and a class written from them has exactly these
members. A span is never broken, so nothing of a set of code values that a flavor can write is
refused.
-/

namespace Pictograph

namespace Ascending

variable {α : Type} {lt : α → α → Bool}

theorem pairwise_insert (total : ∀ a b, lt a b = false → lt b a = false → a = b)
    (trans : ∀ a b c, lt a b = true → lt b c = true → lt a c = true) (a : α) {items : List α}
    (h : items.Pairwise (lt · ·)) : (insert lt a items).Pairwise (lt · ·) := by
  induction items with
  | nil => simp [insert]
  | cons b rest ih =>
    obtain ⟨below, sorted⟩ := List.pairwise_cons.1 h
    simp only [insert]
    split
    · next hab =>
      refine List.pairwise_cons.2 ⟨?_, h⟩
      intro c hc
      rcases List.mem_cons.1 hc with rfl | hc
      · exact hab
      · exact trans a b c hab (below c hc)
    · split
      · next hba =>
        refine List.pairwise_cons.2 ⟨?_, ih sorted⟩
        intro c hc
        rcases (mem_insert total).1 hc with rfl | hc
        · exact hba
        · exact below c hc
      · exact h

end Ascending

namespace Span

private theorem int_total (a b : Int) (h : decide (a < b) = false) (h' : decide (b < a) = false) :
    a = b := by
  simp only [decide_eq_false_iff_not] at h h'
  omega

@[simp] theorem mem_insert_int {a n : Int} {items : List Int} :
    n ∈ Ascending.insert (fun a b => decide (a < b)) a items ↔ n = a ∨ n ∈ items :=
  Ascending.mem_insert int_total

theorem pairwise_insert_int (a : Int) {items : List Int}
    (h : items.Pairwise fun a b => decide (a < b) = true) :
    (Ascending.insert (fun a b => decide (a < b)) a items).Pairwise
      fun a b => decide (a < b) = true := by
  refine Ascending.pairwise_insert int_total ?_ a h
  intro a b c hab hbc
  rw [decide_eq_true_eq] at hab hbc ⊢
  omega

@[simp] theorem mem_members {n : Int} {values : List Int} : n ∈ members values ↔ n ∈ values :=
  Ascending.mem_ofList int_total

theorem pairwise_members (values : List Int) :
    (members values).Pairwise fun a b => decide (a < b) = true := by
  induction values with
  | nil => exact .nil
  | cons n values ih => exact pairwise_insert_int n ih

theorem eq_of_mem_iff_int {l l' : List Int} (h : l.Pairwise fun a b => decide (a < b) = true)
    (h' : l'.Pairwise fun a b => decide (a < b) = true) (same : ∀ n, n ∈ l ↔ n ∈ l') : l = l' := by
  simp only [decide_eq_true_eq] at h h'
  exact h.eq_of_mem_iff h' same

theorem ofValues_congr {values values' : List Int} (same : ∀ n, n ∈ values ↔ n ∈ values') :
    ofValues values = ofValues values' := by
  have members : members values = members values' :=
    eq_of_mem_iff_int (pairwise_members _) (pairwise_members _) (by simpa using same)
  rw [ofValues, ofValues, members]

theorem first_le_last {values : List Int} : ∀ s ∈ ofAscending values, s.first ≤ s.last := by
  induction values with
  | nil => simp [ofAscending]
  | cons v rest ih =>
    rw [ofAscending]
    split
    · simp
    · next s more e =>
      rw [e] at ih
      have here := ih s List.mem_cons_self
      split
      · intro s' hs
        rcases List.mem_cons.1 hs with rfl | hs
        · show v ≤ s.last
          omega
        · exact ih s' (List.mem_cons_of_mem s hs)
      · intro s' hs
        rcases List.mem_cons.1 hs with rfl | hs
        · exact le_refl v
        · exact ih s' hs

theorem mem_ofAscending {n : Int} {values : List Int} :
    (∃ s ∈ ofAscending values, s.first ≤ n ∧ n ≤ s.last) ↔ n ∈ values := by
  induction values with
  | nil => simp [ofAscending]
  | cons v rest ih =>
    rw [List.mem_cons, ← ih, ofAscending]
    split
    · next e =>
      simp [e]
      omega
    · next s more e =>
      have valid : s.first ≤ s.last := first_le_last s (e ▸ List.mem_cons_self)
      rw [e]
      split
      · simp only [List.mem_cons, exists_eq_or_imp]
        constructor
        · rintro (here | later)
          · by_cases hv : n = v
            · exact .inl hv
            · exact .inr (.inl (by omega))
          · exact .inr (.inr later)
        · rintro (rfl | here | later)
          · exact .inl ⟨le_refl n, by omega⟩
          · exact .inl (by omega)
          · exact .inr later
      · simp only [List.mem_cons, exists_eq_or_imp]
        constructor
        · rintro (here | later)
          · exact .inl (by omega)
          · exact .inr later
        · rintro (rfl | later)
          · exact .inl ⟨le_refl n, le_refl n⟩
          · exact .inr later

theorem mem_ofValues {n : Int} {values : List Int} :
    (∃ s ∈ ofValues values, s.first ≤ n ∧ n ≤ s.last) ↔ n ∈ values := by
  rw [ofValues, mem_ofAscending, mem_members]

end Span

def Flavor.CanCode (flavor : Flavor) (n : Int) : Prop := 0 ≤ n ∧ flavor.CanWrite n.toNat

theorem Pattern.codeOf_eq {flavor : Flavor} {n : Int} (h : flavor.CanCode n) :
    codeOf flavor n = .ok n.toNat := by
  obtain ⟨pos, _, small⟩ := h
  unfold codeOf
  rw [if_neg (by omega), if_neg]
  rintro ⟨utf16, far⟩
  have := small utf16
  omega

namespace Span

/-- Can the flavor write both ends of the span, in order? -/
def Writable (flavor : Flavor) (s : Span) : Prop :=
  flavor.CanCode s.first ∧ flavor.CanCode s.last ∧ s.first ≤ s.last

theorem classItems_eq {flavor : Flavor} {s : Span} (h : s.Writable flavor) :
    ∃ items, classItems flavor s = .ok items ∧ items ≠ [] ∧
      (∀ i ∈ items, i.Writable flavor) ∧
      ∀ c : Nat, items.any (·.has c) = true ↔ s.first ≤ c ∧ (c : Int) ≤ s.last := by
  obtain ⟨hf, hl, valid⟩ := h
  have pos := hf.1
  have pos' := hl.1
  unfold classItems
  rw [if_neg (by omega), Pattern.codeOf_eq hf, Pattern.codeOf_eq hl]
  by_cases one : s.first = s.last
  · refine ⟨[.one s.first.toNat], by simp [one, bind, Except.bind, pure, Except.pure], by simp,
      by simpa [ClassItem.Writable] using hf.2, ?_⟩
    intro c
    simp [ClassItem.has]
    omega
  · by_cases two : s.first + 1 = s.last
    · refine ⟨[.one s.first.toNat, .one s.last.toNat],
        by simp [one, two, bind, Except.bind, pure, Except.pure], by simp,
        by simpa [ClassItem.Writable] using ⟨hf.2, hl.2⟩, ?_⟩
      intro c
      simp [ClassItem.has]
      omega
    · refine ⟨[.range s.first.toNat s.last.toNat],
        by simp [one, two, bind, Except.bind, pure, Except.pure], by simp,
        by simpa [ClassItem.Writable] using ⟨hf.2, hl.2, by omega⟩, ?_⟩
      intro c
      simp [ClassItem.has]
      omega

theorem mapM_classItems {flavor : Flavor} {spans : List Span} (ne : spans ≠ [])
    (h : ∀ s ∈ spans, s.Writable flavor) :
    ∃ items, spans.mapM (classItems flavor) = .ok items ∧ items.flatten ≠ [] ∧
      (∀ i ∈ items.flatten, i.Writable flavor) ∧
      ∀ c : Nat, items.flatten.any (·.has c) = true ↔
        ∃ s ∈ spans, s.first ≤ c ∧ (c : Int) ≤ s.last := by
  induction spans with
  | nil => exact absurd rfl ne
  | cons s spans ih =>
    obtain ⟨head, headOk, headNe, headWritable, headHas⟩ := classItems_eq (h s List.mem_cons_self)
    cases spans with
    | nil =>
      refine ⟨[head], by simp [headOk, bind, Except.bind, pure, Except.pure], ?_, ?_, ?_⟩
      · simpa using headNe
      · simpa using headWritable
      · simpa using headHas
    | cons s' spans =>
      obtain ⟨tail, tailOk, -, tailWritable, tailHas⟩ :=
        ih (by simp) fun t ht => h t (List.mem_cons_of_mem s ht)
      refine ⟨head :: tail, ?_, ?_, ?_, ?_⟩
      · rw [List.mapM_cons, headOk, tailOk]
        rfl
      · simp [headNe]
      · intro i hi
        rw [List.flatten_cons, List.mem_append] at hi
        exact hi.elim (headWritable i) (tailWritable i)
      · intro c
        rw [List.flatten_cons, List.any_append, Bool.or_eq_true, headHas, tailHas]
        simp only [List.mem_cons, exists_eq_or_imp]

/-- A pattern that uses up one code value of a set and can stand anywhere. -/
structure Letter (flavor : Flavor) (codes : Nat → Prop) (p : Pattern) : Prop where
  part : p.Part flavor
  quantifiable : p.isQuantifiable = true
  single : p.Single
  spells : p.Spells (Pattern.letters codes)

theorem toPattern_of_wide (flavor : Flavor) {spans : List Span} (ne : spans ≠ [])
    (wide : ∀ s, spans = [s] → s.first ≠ s.last) :
    toPattern flavor spans =
      (spans.mapM (classItems flavor)).map fun items => Pattern.oneOf items.flatten := by
  match spans, ne with
  | [s], _ => rw [toPattern, if_neg (wide s rfl)]
  | s :: s' :: spans, _ => rfl

theorem toPattern_eq {flavor : Flavor} {spans : List Span} (ne : spans ≠ [])
    (h : ∀ s ∈ spans, s.Writable flavor) :
    ∃ p, toPattern flavor spans = .ok p ∧
      Letter flavor (fun c => ∃ s ∈ spans, s.first ≤ c ∧ (c : Int) ≤ s.last) p := by
  by_cases lone : ∃ s, spans = [s] ∧ s.first = s.last
  · obtain ⟨s, rfl, one⟩ := lone
    obtain ⟨hf, -⟩ := h s List.mem_cons_self
    have pos := hf.1
    refine ⟨.symbol s.first.toNat, ?_, .symbol hf.2, rfl, Pattern.single_symbol _, ?_⟩
    · rw [toPattern, if_pos one, Pattern.codeOf_eq hf]
      rfl
    · refine (Pattern.spells_symbol _).congr fun _ => ?_
      ext w
      simp only [Pattern.mem_word, Pattern.mem_letters, List.mem_singleton, exists_eq_left]
      constructor
      · rintro rfl
        exact ⟨_, by omega, rfl⟩
      · rintro ⟨c, hc, rfl⟩
        simp only [List.cons.injEq, and_true]
        omega
  · obtain ⟨items, itemsOk, itemsNe, itemsWritable, itemsHas⟩ := mapM_classItems ne h
    refine ⟨.oneOf items.flatten, ?_, .oneOf itemsNe itemsWritable, rfl,
      Pattern.single_oneOf _, ?_⟩
    · rw [toPattern_of_wide flavor ne fun s only one => lone ⟨s, only, one⟩, itemsOk]
      rfl
    · refine (Pattern.spells_oneOf items.flatten).congr fun _ => ?_
      simp only [itemsHas]

theorem toPattern_ofValues {flavor : Flavor} {values : List Int} (ne : values ≠ [])
    (h : ∀ n ∈ values, flavor.CanCode n) :
    ∃ p, toPattern flavor (ofValues values) = .ok p ∧
      Letter flavor (fun c => (c : Int) ∈ values) p := by
  have covered : ofValues values ≠ [] := by
    obtain ⟨n, hn⟩ := List.exists_mem_of_ne_nil values ne
    obtain ⟨s, hs, -⟩ := mem_ofValues.2 hn
    exact List.ne_nil_of_mem hs
  have writable : ∀ s ∈ ofValues values, s.Writable flavor := by
    intro s hs
    have valid : s.first ≤ s.last := first_le_last s hs
    refine ⟨h _ ?_, h _ ?_, valid⟩
    · exact mem_ofValues.1 ⟨s, hs, le_refl _, valid⟩
    · exact mem_ofValues.1 ⟨s, hs, valid, le_refl _⟩
  obtain ⟨p, ok, letter⟩ := toPattern_eq covered writable
  refine ⟨p, ok, ?_⟩
  simpa only [mem_ofValues] using letter

end Span

end Pictograph
