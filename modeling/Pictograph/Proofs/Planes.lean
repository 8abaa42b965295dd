import Pictograph.Proofs.Units

/-!
Planes of characters beyond the first plane. The planes of ascending characters ascend themselves,
and so do the low units in each; they hold the pairs of the characters and no others.
-/

namespace Pictograph

def highOf (c : Char) : Nat := 0xD800 + (c.toNat - 0x10000) / 0x400

def lowOf (c : Char) : Nat := 0xDC00 + (c.toNat - 0x10000) % 0x400

def IsFar (c : Char) : Prop := 0x10000 ≤ c.toNat

theorem not_isFar_iff {c : Char} : ¬ IsFar c ↔ (c.toNat : Int) < 0x10000 := by
  unfold IsFar
  omega

theorem units_of_far {c : Char} (far : IsFar c) : Text.units c.toNat = [highOf c, lowOf c] := by
  unfold IsFar at far
  rw [Text.units, if_neg (by omega)]
  rfl

theorem units_of_not_far {c : Char} (near : ¬ IsFar c) : Text.units c.toNat = [c.toNat] := by
  unfold IsFar at near
  exact Text.units_of_lt (by omega)

theorem units_lt (c : Char) : highOf c < 0x10000 ∧ lowOf c < 0x10000 := by
  have range := toNat_range c
  unfold highOf lowOf
  omega

namespace Plane

def Has (planes : List Plane) (high : Nat) (low : Int) : Prop :=
  ∃ p ∈ planes, p.high = high ∧ low ∈ p.lows

variable {planes : List Plane} {cs : List Char} {c : Char} {high : Nat} {low : Int}

theorem add_nil (c : Char) : add [] c = [⟨highOf c, [(lowOf c : Int)]⟩] := rfl

theorem add_cons (p : Plane) (planes : List Plane) (c : Char) :
    add (p :: planes) c =
      if p.high = highOf c then ⟨highOf c, p.lows ++ [(lowOf c : Int)]⟩ :: planes
      else ⟨highOf c, [(lowOf c : Int)]⟩ :: p :: planes := rfl

theorem has_cons {p : Plane} : Has (p :: planes) high low ↔
    (p.high = high ∧ low ∈ p.lows) ∨ Has planes high low := by
  rw [Has, List.exists_mem_cons_iff]
  rfl

theorem has_add : Has (add planes c) high low ↔
    (highOf c = high ∧ low = lowOf c) ∨ Has planes high low := by
  cases planes with
  | nil => rw [add_nil, has_cons, List.mem_singleton]
  | cons p planes =>
    rw [add_cons]
    split
    · next same =>
      simp only [has_cons, List.mem_append, List.mem_singleton, same]
      tauto
    · simp only [has_cons, List.mem_singleton]

/-- Planes of characters that came in ascending order, the latest plane first. -/
structure Holds (planes : List Plane) (cs : List Char) : Prop where
  descending : planes.Pairwise fun p q => q.high < p.high
  ascending : ∀ p ∈ planes, p.lows.Pairwise fun a b => decide (a < b) = true
  filled : ∀ p ∈ planes, p.lows ≠ []
  has : ∀ high low, Has planes high low ↔ ∃ c ∈ cs, highOf c = high ∧ low = lowOf c

theorem Holds.add (h : Holds planes cs) (far : ∀ b ∈ cs, IsFar b)
    (beyond : ∀ b ∈ cs, b.toNat < c.toNat) : Holds (add planes c) (cs ++ [c]) := by
  have has : ∀ high low, Has (Plane.add planes c) high low ↔
      ∃ b ∈ cs ++ [c], highOf b = high ∧ low = lowOf b := by
    intro high low
    rw [has_add, h.has, or_comm]
    simp only [List.mem_append, List.mem_singleton, or_and_right, exists_or, exists_eq_left]
  unfold IsFar at far
  cases planes with
  | nil =>
    exact ⟨List.pairwise_singleton _ _, List.forall_mem_singleton.2 (List.pairwise_singleton _ _),
      List.forall_mem_singleton.2 (List.cons_ne_nil _ _), has⟩
  | cons p planes =>
    obtain ⟨descending, ascending, filled, mem⟩ := h
    rw [List.pairwise_cons] at descending
    rw [List.forall_mem_cons] at ascending filled
    rw [add_cons] at has ⊢
    split at has
    case isTrue same =>
      rw [if_pos same]
      refine ⟨?_, ?_, ?_, has⟩
      · rw [List.pairwise_cons, ← same]
        exact descending
      · refine List.forall_mem_cons.2 ⟨?_, ascending.2⟩
        rw [List.pairwise_append]
        refine ⟨ascending.1, List.pairwise_singleton _ _, ?_⟩
        -- A lower character of the same plane has a lower second unit.
        intro low hlow last hlast
        obtain ⟨b, hb, high, rfl⟩ := (mem p.high low).1 (has_cons.2 (.inl ⟨rfl, hlow⟩))
        rw [List.mem_singleton.1 hlast, decide_eq_true_eq]
        have below := beyond b hb
        have farB := far b hb
        rw [same] at high
        unfold highOf at high
        unfold lowOf
        omega
      · exact List.forall_mem_cons.2 ⟨List.concat_ne_nil _ _, filled.2⟩
    case isFalse other =>
      rw [if_neg other]
      have first : p.high < highOf c := by
        obtain ⟨low, hlow⟩ := List.exists_mem_of_ne_nil _ filled.1
        obtain ⟨b, hb, high, -⟩ := (mem p.high low).1 (has_cons.2 (.inl ⟨rfl, hlow⟩))
        have below := beyond b hb
        refine lt_of_le_of_ne ?_ other
        rw [← high]
        unfold highOf
        omega
      refine ⟨List.pairwise_cons.2 ⟨?_, List.pairwise_cons.2 descending⟩, ?_, ?_, has⟩
      · exact List.forall_mem_cons.2 ⟨first, fun q hq => (descending.1 q hq).trans first⟩
      · exact List.forall_mem_cons.2
          ⟨List.pairwise_singleton _ _, List.forall_mem_cons.2 ascending⟩
      · exact List.forall_mem_cons.2 ⟨List.cons_ne_nil _ _, List.forall_mem_cons.2 filled⟩

theorem holds_foldl_add (far : ∀ c ∈ cs, IsFar c)
    (ascending : cs.Pairwise fun b c => b.toNat < c.toNat) : Holds (cs.foldl Plane.add []) cs := by
  induction cs using List.reverseRecOn with
  | nil =>
    refine ⟨.nil, List.forall_mem_nil _, List.forall_mem_nil _, fun high low => ?_⟩
    simp only [Has, List.foldl_nil, List.not_mem_nil, false_and, exists_false]
  | append_singleton cs c ih =>
    rw [List.pairwise_append] at ascending
    rw [List.forall_mem_append] at far
    rw [List.foldl_append]
    exact (ih far.1 ascending.1).add far.1 fun b hb =>
      ascending.2.2 b hb c (List.mem_singleton_self c)

def group (p : Plane) : Group := ⟨[(p.high : Int)], p.lows⟩

theorem toPattern_group {p : Plane} (h : p.high < 0x10000) :
    Group.toPattern .utf16 p.group = p.toPattern .utf16 := by
  have code : Pattern.codeOf .utf16 (p.high : Int) = .ok p.high :=
    Pattern.codeOf_eq ⟨Int.natCast_nonneg _, by simp; omega, fun _ => by simpa using h⟩
  rw [Group.toPattern, group, List.mapM_cons, code]
  rfl

end Plane

end Pictograph
