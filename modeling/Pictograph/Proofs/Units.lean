import Mathlib.Data.List.Sort
import Pictograph.Proofs.Compile.Language

/-!
Characters as a flavor writes them. Units are a prefix code: a text of characters that starts with
the units of a word starts with the word. So a fragment leaves the same rests of a text in every
flavor, and in the same order.
-/

namespace Pictograph

theorem Text.units_append_inj {c d : Char} {x y : Text}
    (h : units c.toNat ++ x = units d.toNat ++ y) : c = d ∧ x = y := by
  have hc := toNat_range c
  have hd := toNat_range d
  rw [← Char.toNat_inj]
  -- The first unit tells a character of one unit from a pair, as no character is a lone half.
  unfold units at h
  split at h
  · split at h
    · simpa using h
    · simp only [List.cons_append, List.nil_append, List.cons.injEq] at h
      omega
  · split at h
    · simp only [List.cons_append, List.nil_append, List.cons.injEq] at h
      omega
    · simp only [List.cons_append, List.nil_append, List.cons.injEq] at h
      exact ⟨by omega, h.2.2⟩

theorem Text.ofChars_append (v w : List Char) : ofChars (v ++ w) = ofChars v ++ ofChars w :=
  List.map_append

namespace Flavor

def write (flavor : Flavor) (cs : List Char) : Text := flavor.encode (Text.ofChars cs)

variable {flavor : Flavor} {v w cs r : List Char}

@[simp] theorem write_nil (flavor : Flavor) : flavor.write [] = [] := by
  unfold write encode
  split <;> rfl

theorem write_append (flavor : Flavor) (v w : List Char) :
    flavor.write (v ++ w) = flavor.write v ++ flavor.write w := by
  rw [write, Text.ofChars_append, encode_append]
  rfl

theorem write_cons (flavor : Flavor) (c : Char) (cs : List Char) :
    flavor.write (c :: cs) = flavor.write [c] ++ flavor.write cs :=
  write_append flavor [c] cs

theorem write_points (cs : List Char) : points.write cs = Text.ofChars cs := rfl

theorem write_utf16 (cs : List Char) : utf16.write cs = Text.splitPairs (Text.ofChars cs) := rfl

theorem write_singleton (flavor : Flavor) (c : Char) :
    flavor.write [c] = if flavor = .utf16 then Text.units c.toNat else [c.toNat] := by
  unfold write encode
  split
  · exact List.append_nil _
  · rfl

theorem write_ne_nil (h : cs ≠ []) : flavor.write cs ≠ [] := by
  apply encode_ne_nil
  simpa [Text.ofChars] using h

theorem write_singleton_append_inj {c d : Char} {x y : Text}
    (h : flavor.write [c] ++ x = flavor.write [d] ++ y) : c = d ∧ x = y := by
  rw [write_singleton, write_singleton] at h
  split at h
  · exact Text.units_append_inj h
  · rw [List.singleton_append, List.singleton_append, List.cons.injEq, Char.toNat_inj] at h
    exact h

theorem exists_of_write_append {x : Text} (h : flavor.write cs = flavor.write w ++ x) :
    ∃ r, cs = w ++ r ∧ x = flavor.write r := by
  induction w generalizing cs with
  | nil => exact ⟨cs, rfl, by simpa using h.symm⟩
  | cons c w ih =>
    rw [write_cons, List.append_assoc] at h
    cases cs with
    | nil =>
      rw [write_nil, eq_comm, List.append_eq_nil_iff] at h
      exact absurd h.1 (write_ne_nil (List.cons_ne_nil c []))
    | cons d cs =>
      rw [write_cons flavor d cs] at h
      obtain ⟨same, tail⟩ := write_singleton_append_inj h
      obtain ⟨r, word, rest⟩ := ih tail
      exact ⟨r, by rw [same, word]; rfl, rest⟩

theorem write_injective (flavor : Flavor) : Function.Injective flavor.write := by
  intro v w h
  obtain ⟨r, rfl, rest⟩ := exists_of_write_append (h.trans (List.append_nil _).symm)
  have none : r = [] := by
    by_contra more
    exact write_ne_nil more rest.symm
  rw [none, List.append_nil]

theorem length_write_lt (hv : v <:+ cs) (hw : w <:+ cs) (h : v.length < w.length) :
    (flavor.write v).length < (flavor.write w).length := by
  obtain ⟨u, rfl⟩ := List.suffix_of_suffix_length_le hv hw h.le
  have more : u ≠ [] := by
    rintro rfl
    simp at h
  rw [write_append, List.length_append]
  exact Nat.lt_add_of_pos_left (List.length_pos_iff.2 (write_ne_nil more))

end Flavor

open scoped Classical in
/-- What the words of a language leave of a text, the longest word first. -/
noncomputable def leftOf (L : Language Char) (cs : List Char) : List (List Char) :=
  cs.tails.reverse.filter fun r => ∃ w ∈ L, cs = w ++ r

variable {L : Language Char} {cs r : List Char}

theorem mem_leftOf : r ∈ leftOf L cs ↔ ∃ w ∈ L, cs = w ++ r := by
  simp only [leftOf, List.mem_filter, List.mem_reverse, List.mem_tails, decide_eq_true_eq]
  constructor
  · exact And.right
  · intro h
    obtain ⟨w, hw, rfl⟩ := h
    exact ⟨List.suffix_append w r, w, hw, rfl⟩

theorem pairwise_tails (cs : List Char) :
    cs.tails.Pairwise fun r r' => r'.length < r.length := by
  induction cs with
  | nil => simp
  | cons c cs ih =>
    rw [List.tails, List.pairwise_cons]
    refine ⟨?_, ih⟩
    intro r hr
    exact Nat.lt_succ_of_le ((List.mem_tails r cs).1 hr).length_le

theorem pairwise_leftOf (L : Language Char) (cs : List Char) :
    (leftOf L cs).Pairwise fun r r' => r.length < r'.length :=
  (List.pairwise_reverse.2 (pairwise_tails cs)).filter _

/-- A fragment leaves the same rests in every flavor, in the same order. -/
theorem Fragment.rests_write {flavor : Flavor} {p : Pattern}
    (h : Fragment flavor (flavor.image L) p) (cs : List Char) :
    p.rests (flavor.write cs) = (leftOf L cs).map flavor.write := by
  let shorter : Text → Text → Prop := fun r r' => r.length < r'.length
  have irrefl : Std.Irrefl shorter := ⟨fun r => lt_irrefl r.length⟩
  have antisymm : Std.Antisymm shorter := ⟨fun r r' less more => absurd more (less.le.not_gt)⟩
  have ordered : ((leftOf L cs).map flavor.write).Pairwise shorter := by
    refine List.pairwise_map.2 ((pairwise_leftOf L cs).imp_of_mem ?_)
    intro r r' hr hr' less
    obtain ⟨w, -, split⟩ := mem_leftOf.1 hr
    obtain ⟨w', -, split'⟩ := mem_leftOf.1 hr'
    exact Flavor.length_write_lt ⟨w, split.symm⟩ ⟨w', split'.symm⟩ less
  -- Both are in the order of their lengths, so it is enough that they have the same members.
  refine List.Pairwise.eq_of_mem_iff (h.greedy (flavor.write cs)) ordered fun x => ?_
  rw [h.spells.mem_rests, List.mem_map]
  constructor
  · intro hx
    obtain ⟨_, ⟨w, hw, rfl⟩, split⟩ := hx
    obtain ⟨r, split', rfl⟩ := Flavor.exists_of_write_append split
    exact ⟨r, mem_leftOf.2 ⟨w, hw, split'⟩, rfl⟩
  · intro hx
    obtain ⟨r, hr, rfl⟩ := hx
    obtain ⟨w, hw, rfl⟩ := mem_leftOf.1 hr
    exact ⟨_, ⟨w, hw, rfl⟩, Flavor.write_append flavor w r⟩

end Pictograph
