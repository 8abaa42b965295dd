import Pictograph.Proofs.Pattern.Filled
import Pictograph.Proofs.Pattern.Steady

/-!
The cut of a text as the path of a search through it. Between two matches nothing fits at any place,
and each match is the preferred way of matching where it stands. A stretch of such a path is one of
its own, with less around it, if what follows the text does not matter to the pattern.
-/

namespace Pictograph.Pattern

variable {p : Pattern}

/-- At no place of the gap does anything fit. -/
def Idle (p : Pattern) (gap after : Text) : Prop :=
  ∀ u v, gap = u ++ v → v ≠ [] → p.rests (v ++ after) = []

/-- A search through gaps and matches, with the last gap and more text after it. -/
def Walks (p : Pattern) (after : Text) : List (Text × Text) → Text → Prop
  | [], last => p.Idle last after
  | (gap, raw) :: parts, last =>
    p.Idle gap (raw ++ joined parts last ++ after) ∧ raw ≠ [] ∧
      (p.rests (raw ++ joined parts last ++ after)).head? = some (joined parts last ++ after) ∧
      Walks p after parts last

theorem idle_nil (p : Pattern) (after : Text) : p.Idle [] after := by
  intro u v split ne
  exact absurd (List.append_eq_nil_iff.1 split.symm).2 ne

theorem Idle.findFrom {gap after : Text} (h : p.Idle gap after) (place : Nat) :
    p.findFrom place 0 (gap ++ after) = p.findFrom (place + gap.length) 0 after := by
  induction gap generalizing place with
  | nil => rfl
  | cons c gap ih =>
    have here : p.rests (c :: (gap ++ after)) = [] := h [] (c :: gap) rfl (by simp)
    have later : p.Idle gap after := by
      intro u v split
      exact h (c :: u) v (by rw [split]; rfl)
    rw [List.cons_append, findFrom_cons_of_rests_eq_nil here, ih later, List.length_cons]
    congr 1
    omega

theorem Walks.cutAt (none : p.rests [] = []) {parts : List (Text × Text)} {last : Text}
    (h : p.Walks [] parts last) (place : Nat) :
    Pattern.cutAt place (joined parts last) (p.findFrom place 0 (joined parts last)) =
      ⟨parts, last⟩ := by
  induction parts generalizing place with
  | nil =>
    have found : p.findFrom place 0 last = [] := by
      have idle := Idle.findFrom h place
      rwa [List.append_nil, findFrom_nil_of_rests_eq_nil none] at idle
    have text : joined [] last = last := rfl
    rw [text, found]
    rfl
  | cons part parts ih =>
    obtain ⟨gap, raw⟩ := part
    obtain ⟨idle, used, first, rest⟩ := h
    rw [List.append_nil] at idle first
    rw [List.append_nil] at first
    have stop : (⟨raw, place + gap.length⟩ : Found).stop = place + gap.length + raw.length := rfl
    have behind : (gap ++ (raw ++ joined parts last)).drop (gap.length + raw.length) =
        joined parts last := by
      rw [← List.append_assoc, ← List.length_append, List.drop_left]
    rw [joined_cons, idle.findFrom, findFrom_append_of_head? first used, Pattern.cutAt]
    dsimp only
    rw [Nat.add_sub_cancel_left, List.take_left, behind, stop, ih rest]

theorem Walks.cut (none : p.rests [] = []) {parts : List (Text × Text)} {last : Text}
    (h : p.Walks [] parts last) : p.cut (joined parts last) = ⟨parts, last⟩ :=
  h.cutAt none 0

theorem Idle.cons {c : Nat} {gap after : Text} (h : p.Idle gap after)
    (here : p.rests (c :: (gap ++ after)) = []) : p.Idle (c :: gap) after := by
  intro u v split ne
  cases u with
  | nil =>
    rw [List.nil_append] at split
    rw [← split]
    exact here
  | cons d u =>
    rw [List.cons_append, List.cons.injEq] at split
    exact h u v split.2 ne

theorem Idle.suffix {u v after : Text} (h : p.Idle (u ++ v) after) : p.Idle v after := by
  intro x y split
  exact h (u ++ x) y (by rw [split, List.append_assoc])

theorem Idle.before {u v after : Text} (h : p.Idle (u ++ v) after) : p.Idle u (v ++ after) := by
  intro x y split ne
  have fits := h x (y ++ v) (by rw [split, List.append_assoc]) (by simp [ne])
  rwa [List.append_assoc] at fits

theorem Walks.drop_front {u gap raw last after : Text} {parts : List (Text × Text)}
    (h : p.Walks after ((u ++ gap, raw) :: parts) last) : p.Walks after ((gap, raw) :: parts) last :=
  ⟨h.1.suffix, h.2⟩

theorem Walks.drop_back {gap v after : Text} {parts : List (Text × Text)}
    (h : p.Walks after parts (gap ++ v)) : p.Walks (v ++ after) parts gap := by
  have text : ∀ parts, joined parts (gap ++ v) ++ after = joined parts gap ++ (v ++ after) := by
    intro parts
    simp [joined]
  induction parts with
  | nil => exact Idle.before h
  | cons part parts ih =>
    obtain ⟨idle, used, first, rest⟩ := h
    rw [List.append_assoc, text, ← List.append_assoc] at idle first
    exact ⟨idle, used, first, ih rest⟩

theorem Walks.alone {c : Nat} {last after : Text} {parts : List (Text × Text)}
    (steady : Steady c p.rests) (plain : after.head? ≠ some c) (h : p.Walks after parts last) :
    p.Walks [] parts last := by
  have idle : ∀ {gap t : Text}, p.Idle gap (t ++ after) → p.Idle gap (t ++ []) := by
    intro gap t idle u v split ne
    have nothing := idle u v split ne
    rw [← List.append_assoc] at nothing
    rw [List.append_nil]
    exact steady.rests_eq_nil plain nothing
  induction parts with
  | nil => exact idle (t := []) h
  | cons part parts ih =>
    obtain ⟨gap, used, first, rest⟩ := h
    refine ⟨idle gap, used, ?_, ih rest⟩
    rw [List.append_nil, List.append_nil]
    exact steady.head? plain first

variable (used : ∀ t, ∀ r ∈ p.rests t, r.length < t.length)

include used

theorem exists_walks (t : Text) :
    ∃ parts last, t = joined parts last ∧ p.Walks [] parts last := by
  induction h : t.length using Nat.strong_induction_on generalizing t with
  | _ n ih =>
    cases first : (p.rests t).head? with
    | none =>
      rw [List.head?_eq_none_iff] at first
      cases t with
      | nil => exact ⟨[], [], rfl, idle_nil p []⟩
      | cons c t =>
        rw [List.length_cons] at h
        obtain ⟨parts, last, rfl, walks⟩ := ih t.length (by omega) t rfl
        cases parts with
        | nil =>
          have here : p.rests (c :: (last ++ [])) = [] := by
            rw [List.append_nil]
            exact first
          exact ⟨[], c :: last, rfl, Idle.cons walks here⟩
        | cons part parts =>
          obtain ⟨gap, raw⟩ := part
          obtain ⟨idle, rest⟩ := walks
          have here : p.rests (c :: (gap ++ (raw ++ joined parts last ++ []))) = [] := by
            rw [List.append_nil, ← joined_cons (gap, raw)]
            exact first
          exact ⟨(c :: gap, raw) :: parts, last, by simp [joined], idle.cons here, rest⟩
    | some r =>
      have less := used t r (List.mem_of_head? first)
      obtain ⟨raw, rfl⟩ := suffix_of_mem_rests (List.mem_of_head? first)
      obtain ⟨parts, last, rfl, walks⟩ := ih r.length (by omega) r rfl
      refine ⟨([], raw) :: parts, last, by simp [joined], ?_, ?_, ?_, walks⟩
      · exact idle_nil p _
      · rintro rfl
        simp at less
      · rw [List.append_nil, List.append_nil]
        exact first

theorem rests_nil : p.rests [] = [] := by
  rw [List.eq_nil_iff_forall_not_mem]
  intro r hr
  have less := used [] r hr
  simp at less

/-- The cut of a text is the path through it. -/
theorem walks_cut (t : Text) :
    t = joined (p.cut t).parts (p.cut t).rest ∧ p.Walks [] (p.cut t).parts (p.cut t).rest := by
  obtain ⟨parts, last, rfl, walks⟩ := exists_walks used t
  rw [walks.cut (rests_nil used)]
  exact ⟨rfl, walks⟩

end Pictograph.Pattern
