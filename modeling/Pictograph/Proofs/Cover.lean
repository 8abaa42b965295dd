import Mathlib.Data.List.Chain
import Mathlib.Data.List.Perm.Subperm
import Pictograph.Group
import Pictograph.Proofs.Spans
import Pictograph.Proofs.Traversal

/-!
Spans as a cover of numbers. The spans of values are the one list of spans in order, with a number
missing between each two neighbours, that covers exactly the values, and no list of spans covers
them with fewer. None of them is broken, so writing them is never refused for that.
-/

namespace Pictograph

namespace Span

variable {s t : Span} {spans cover : List Span} {values : List Int} {n : Int}

/-- Is the number in one of the spans? A span that ends before it starts holds none. -/
def Covers (spans : List Span) (n : Int) : Prop := ∃ s ∈ spans, s.first ≤ n ∧ n ≤ s.last

theorem covers_cons : Covers (s :: spans) n ↔ (s.first ≤ n ∧ n ≤ s.last) ∨ Covers spans n := by
  simp only [Covers, List.mem_cons, exists_eq_or_imp]

/-- Is at least one number missing between the first span and the second? -/
def Apart (s t : Span) : Prop := s.last + 1 < t.first

/-- Spans in ascending order, none of them broken, with a number missing between neighbours. -/
structure Separate (spans : List Span) : Prop where
  valid : ∀ s ∈ spans, s.first ≤ s.last
  apart : spans.IsChain Apart

namespace Separate

theorem nil : Separate [] := ⟨List.forall_mem_nil _, .nil⟩

theorem tail (h : Separate (s :: spans)) : Separate spans :=
  ⟨(List.forall_mem_cons.1 h.valid).2, h.apart.tail⟩

theorem pairwise (h : Separate spans) : spans.Pairwise Apart := by
  induction spans with
  | nil => exact .nil
  | cons s spans ih =>
    refine List.pairwise_cons.2 ⟨?_, ih h.tail⟩
    cases spans with
    | nil => exact List.forall_mem_nil _
    | cons t spans =>
      have next : Apart s t := (List.isChain_cons_cons.1 h.apart).1
      have unbroken : t.first ≤ t.last := h.valid t (by simp)
      refine List.forall_mem_cons.2 ⟨next, fun r hr => ?_⟩
      have later : Apart t r := (List.pairwise_cons.1 (ih h.tail)).1 r hr
      unfold Apart at next later ⊢
      omega

theorem lt_of_covers (h : Separate (s :: spans)) (later : Covers spans n) : s.last + 1 < n := by
  obtain ⟨t, ht, low, -⟩ := later
  have next : Apart s t := (List.pairwise_cons.1 h.pairwise).1 t ht
  unfold Apart at next
  omega

theorem first_le (h : Separate (s :: spans)) (here : Covers (s :: spans) n) : s.first ≤ n := by
  have unbroken : s.first ≤ s.last := h.valid s List.mem_cons_self
  rcases covers_cons.1 here with ⟨low, -⟩ | later
  · exact low
  · have := h.lt_of_covers later
    omega

theorem covers_first (h : Separate spans) (hs : s ∈ spans) : Covers spans s.first :=
  ⟨s, hs, le_rfl, h.valid s hs⟩

theorem not_covers_succ (h : Separate spans) (hs : s ∈ spans) :
    ¬ Covers spans (s.last + 1) := by
  induction spans with
  | nil => cases hs
  | cons r spans ih =>
    rw [covers_cons]
    rintro (⟨low, high⟩ | later)
    · rcases List.mem_cons.1 hs with rfl | hs
      · omega
      · have behind := h.lt_of_covers (h.tail.covers_first hs)
        have unbroken : s.first ≤ s.last := h.tail.valid s hs
        omega
    · rcases List.mem_cons.1 hs with rfl | hs
      · exact absurd (h.lt_of_covers later) (lt_irrefl _)
      · exact ih h.tail hs later

theorem last_le (h : Separate (s :: spans)) (start : t.first = s.first)
    (same : ∀ n, Covers (t :: cover) n → Covers (s :: spans) n) : t.last ≤ s.last := by
  by_contra longer
  have unbroken : s.first ≤ s.last := h.valid s List.mem_cons_self
  refine h.not_covers_succ List.mem_cons_self (same _ (covers_cons.2 (.inl ?_)))
  omega

theorem covers_tail_iff (h : Separate (s :: spans)) :
    Covers spans n ↔ Covers (s :: spans) n ∧ s.last < n := by
  rw [covers_cons]
  constructor
  · intro later
    have := h.lt_of_covers later
    exact ⟨.inr later, by omega⟩
  · rintro ⟨⟨-, high⟩ | later, behind⟩
    · omega
    · exact later

/-- Such spans are determined by what they cover. -/
theorem ext (h : Separate spans) (h' : Separate cover)
    (same : ∀ n, Covers spans n ↔ Covers cover n) : spans = cover := by
  induction spans generalizing cover with
  | nil =>
    cases cover with
    | nil => rfl
    | cons t cover =>
      obtain ⟨s, none, -⟩ := (same _).2 (h'.covers_first List.mem_cons_self)
      cases none
  | cons s spans ih =>
    cases cover with
    | nil =>
      obtain ⟨t, none, -⟩ := (same _).1 (h.covers_first List.mem_cons_self)
      cases none
    | cons t cover =>
      have start : s.first = t.first := le_antisymm
        (h.first_le ((same _).2 (h'.covers_first List.mem_cons_self)))
        (h'.first_le ((same _).1 (h.covers_first List.mem_cons_self)))
      have stop : s.last = t.last := le_antisymm
        (h'.last_le start fun n => (same n).1) (h.last_le start.symm fun n => (same n).2)
      have whole : s = t := by
        cases s
        cases t
        simp only at start stop
        rw [start, stop]
      have rest : spans = cover := ih h.tail h'.tail fun n => by
        rw [h.covers_tail_iff, h'.covers_tail_iff, same, stop]
      rw [whole, rest]

/-- No cover of the same numbers has fewer spans: no span reaches over a number that is missing, so
each one holds the start of at most one of the separate spans. -/
theorem length_le (h : Separate spans) (same : ∀ n, Covers cover n ↔ Covers spans n) :
    spans.length ≤ cover.length := by
  have holder : ∀ s ∈ spans, ∃ t ∈ cover, t.first ≤ s.first ∧ s.first ≤ t.last := fun s hs =>
    (same _).2 (h.covers_first hs)
  choose! f inCover low high using holder
  have distinct : (spans.map f).Nodup := by
    refine List.pairwise_map.2 (h.pairwise.imp_of_mem fun {s t} hs ht apart equal => ?_)
    have unbroken : s.first ≤ s.last := h.valid s hs
    have lowS := low s hs
    have highT := high t ht
    rw [← equal] at highT
    unfold Apart at apart
    refine h.not_covers_succ hs ((same _).1 ⟨f s, inCover s hs, ?_, ?_⟩) <;> omega
  have inside : spans.map f ⊆ cover := by
    intro t ht
    obtain ⟨s, hs, rfl⟩ := List.mem_map.1 ht
    exact inCover s hs
  simpa using (distinct.subperm inside).length_le

end Separate

/-! ## The spans of values -/

theorem covers_ofAscending : Covers (ofAscending values) n ↔ n ∈ values := mem_ofAscending

theorem separate_ofAscending (h : values.Pairwise (· < ·)) : Separate (ofAscending values) := by
  induction values with
  | nil => exact .nil
  | cons v rest ih =>
    obtain ⟨below, sorted⟩ := List.pairwise_cons.1 h
    refine ⟨first_le_last, ?_⟩
    rw [ofAscending]
    have separate := ih sorted
    split
    · exact .singleton _
    · next s more e =>
      rw [e] at separate
      have start : v < s.first := by
        refine below _ (covers_ofAscending.1 ?_)
        rw [e]
        exact separate.covers_first List.mem_cons_self
      split
      · cases more with
        | nil => exact .singleton _
        | cons t more =>
          obtain ⟨next, chain⟩ := List.isChain_cons_cons.1 separate.apart
          exact List.isChain_cons_cons.2 ⟨next, chain⟩
      · refine List.isChain_cons_cons.2 ⟨?_, separate.apart⟩
        show v + 1 < s.first
        omega

theorem separate_ofValues (values : List Int) : Separate (ofValues values) := by
  have sorted := pairwise_members values
  simp only [decide_eq_true_eq] at sorted
  exact separate_ofAscending sorted

end Span

/-! ## No span is broken -/

def Fault.Unbroken (f : Fault) : Prop := ∀ first last, f ≠ .brokenSpan first last

open Traversal

theorem unbroken_scalar (n : Int) : FailsWith Fault.Unbroken (scalar (.int n) n) := by
  unfold scalar
  split
  · unfold rangeFault
    refine .error ?_
    intro first last
    split
    · exact Fault.noConfusion
    · next failed =>
      obtain ⟨-, rfl⟩ := Value.write_eq_error_iff.1 failed
      exact Fault.noConfusion
  · split
    · exact .error fun _ _ => Fault.noConfusion
    · exact .ok _ _

theorem Pattern.unbroken_codeOf (flavor : Flavor) (n : Int) :
    FailsWith Fault.Unbroken (codeOf flavor n) := by
  unfold codeOf
  split
  · unfold character
    split
    · exact .error fun _ _ => Fault.noConfusion
    · split
      · exact .error fun _ _ => Fault.noConfusion
      · exact .ok _ _
  · split
    · exact (unbroken_scalar n).map
    · exact .ok _ _

namespace Span

theorem unbroken_classItems (flavor : Flavor) {s : Span} (valid : s.first ≤ s.last) :
    FailsWith Fault.Unbroken (classItems flavor s) := by
  unfold classItems
  rw [if_neg (by omega)]
  refine (Pattern.unbroken_codeOf flavor _).bind fun first _ => ?_
  split
  · exact .ok _ _
  · exact (Pattern.unbroken_codeOf flavor _).bind fun last _ => .ok _ _

theorem unbroken_toPattern (flavor : Flavor) {spans : List Span}
    (valid : ∀ s ∈ spans, s.first ≤ s.last) :
    FailsWith Fault.Unbroken (toPattern flavor spans) := by
  have asClass : FailsWith Fault.Unbroken
      ((spans.mapM (classItems flavor)).map fun items => Pattern.oneOf items.flatten) :=
    (FailsWith.mapM fun s hs => unbroken_classItems flavor (valid s hs)).map
  obtain _ | ⟨s, _ | ⟨t, spans⟩⟩ := spans
  · exact .ok _ _
  · rw [toPattern]
    split
    · exact (Pattern.unbroken_codeOf flavor _).map
    · exact asClass
  · exact asClass

theorem unbroken_toPattern_ofValues (flavor : Flavor) (values : List Int) :
    FailsWith Fault.Unbroken (toPattern flavor (ofValues values)) :=
  unbroken_toPattern flavor first_le_last

end Span

theorem unbroken_compact (flavor : Flavor) (values : List Int) :
    FailsWith Fault.Unbroken (compact flavor values) := by
  have planes : ∀ p : Plane, FailsWith Fault.Unbroken (p.toPattern flavor) := fun p =>
    (Span.unbroken_toPattern_ofValues flavor p.lows).bind fun _ _ => .ok _ _
  unfold compact
  dsimp only
  split
  · exact .error fun _ _ => Fault.noConfusion
  · exact (Pattern.unbroken_codeOf flavor _).bind fun _ _ => .ok _ _
  · split
    · exact Span.unbroken_toPattern_ofValues flavor values
    · refine FailsWith.bind (.mapM fun n _ => unbroken_scalar n) fun far _ => ?_
      refine FailsWith.bind (.mapM fun p _ => planes p) fun parts _ => ?_
      split
      · exact .ok _ _
      · exact (Span.unbroken_toPattern_ofValues flavor _).bind fun _ _ => .ok _ _

theorem Group.unbroken_toPattern (flavor : Flavor) (g : Group) :
    FailsWith Fault.Unbroken (g.toPattern flavor) :=
  FailsWith.bind (.mapM fun n _ => Pattern.unbroken_codeOf flavor n) fun _ _ =>
    (Span.unbroken_toPattern_ofValues flavor g.endings).bind fun _ _ => .ok _ _

/-- The spans of values are separate, cover the values and nothing else, and are the only such
list; no list of spans covers the values with fewer. Order and repetition of the values make no
difference. Neither a set of values nor a group is ever refused for a broken span. -/
theorem Span.ofValues_canonical (values : List Int) :
    Separate (ofValues values) ∧
    (∀ n, Covers (ofValues values) n ↔ n ∈ values) ∧
    (∀ spans, Separate spans → (∀ n, Covers spans n ↔ n ∈ values) → spans = ofValues values) ∧
    (∀ spans, (∀ n, Covers spans n ↔ n ∈ values) → (ofValues values).length ≤ spans.length) ∧
    (∀ values', (∀ n, n ∈ values' ↔ n ∈ values) → ofValues values' = ofValues values) ∧
    (∀ flavor first last, compact flavor values ≠ .error (.brokenSpan first last)) ∧
    ∀ flavor stem first last,
      Group.toPattern flavor ⟨stem, values⟩ ≠ .error (.brokenSpan first last) := by
  have separate := separate_ofValues values
  have covered : ∀ n, Covers (ofValues values) n ↔ n ∈ values := fun n => mem_ofValues
  refine ⟨separate, covered, ?_, ?_, fun values' same => ofValues_congr same, ?_, ?_⟩
  · intro spans separate' covered'
    exact separate'.ext separate fun n => (covered' n).trans (covered n).symm
  · intro spans covered'
    exact separate.length_le fun n => (covered' n).trans (covered n).symm
  · exact fun flavor first last broken => unbroken_compact flavor values _ broken first last rfl
  · exact fun flavor stem first last broken =>
      Group.unbroken_toPattern flavor ⟨stem, values⟩ _ broken first last rfl

/-- Numbers out of order, one of them twice, with a run of two and a last one by itself. -/
theorem Span.ofValues_canonical_runs :
    let values : List Int := [9, 1, 2, 3, 4, 6, 7, 2]
    let spans : List Span := [⟨1, 4⟩, ⟨6, 7⟩, ⟨9, 9⟩]
    Separate spans ∧ (∀ n, Covers spans n ↔ n ∈ values) ∧ spans = ofValues values ∧
      ¬ ∃ cover : List Span, (∀ n, Covers cover n ↔ n ∈ values) ∧ cover.length < 3 := by
  intro values spans
  have separate : Separate spans := ⟨by decide, by simp [spans, Apart]⟩
  have covered : ∀ n, Covers spans n ↔ n ∈ values := by
    intro n
    simp only [Covers, spans, values, List.mem_cons, List.not_mem_nil, or_false,
      exists_eq_or_imp, exists_eq_left]
    omega
  obtain ⟨-, -, only, fewest, -⟩ := Span.ofValues_canonical values
  have whole : spans = ofValues values := only spans separate covered
  refine ⟨separate, covered, whole, ?_⟩
  rintro ⟨cover, covered', short⟩
  have least := fewest cover covered'
  rw [← whole] at least
  exact absurd (lt_of_le_of_lt least short) (by decide)

end Pictograph
