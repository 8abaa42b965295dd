import Pictograph.Proofs.Units

/-!
Patterns that mirror each other in two flavors: of every text of characters they leave the same
rests in the same order. Sequences, alternatives, optional parts and looks ahead keep that. If every
way of matching uses up whole characters, two such patterns find the same matches.
-/

namespace Pictograph.Pattern

/-- Of every text of characters, the same rests are left in the same order, each as its flavor
writes it. -/
def Mirrors (f g : Flavor) (left right : Text → List Text) : Prop :=
  ∀ cs, ∃ ways : List (List Char),
    left (f.write cs) = ways.map f.write ∧ right (g.write cs) = ways.map g.write

variable {f g : Flavor} {p q p' q' : Pattern} {ps qs : List Pattern}

theorem Mirrors.of_fragment {L : Language Char} (hp : Fragment f (f.image L) p)
    (hq : Fragment g (g.image L) q) : Mirrors f g p.rests q.rests := by
  intro cs
  exact ⟨leftOf L cs, hp.rests_write cs, hq.rests_write cs⟩

theorem Mirrors.concat_last (h : Mirrors f g p.rests q.rests) :
    Mirrors f g (concat [p]).rests (concat [q]).rests := h

theorem Mirrors.concat_cons (h : Mirrors f g p.rests q.rests)
    (tail : Mirrors f g (concat ps).rests (concat qs).rests) :
    Mirrors f g (concat (p :: ps)).rests (concat (q :: qs)).rests := by
  intro cs
  obtain ⟨ways, left, right⟩ := h cs
  choose after left' right' using tail
  refine ⟨ways.flatMap after, ?_, ?_⟩
  · rw [rests_concat_cons, left, List.flatMap_map, List.map_flatMap]
    simp only [left']
  · rw [rests_concat_cons, right, List.flatMap_map, List.map_flatMap]
    simp only [right']

theorem Mirrors.alt (h : Mirrors f g p.rests q.rests) (h' : Mirrors f g p'.rests q'.rests) :
    Mirrors f g (alt p p').rests (alt q q').rests := by
  intro cs
  obtain ⟨ways, left, right⟩ := h cs
  obtain ⟨ways', left', right'⟩ := h' cs
  refine ⟨ways ++ ways', ?_, ?_⟩
  · rw [rests, left, left', List.map_append]
  · rw [rests, right, right', List.map_append]

theorem Mirrors.group (h : Mirrors f g p.rests q.rests) :
    Mirrors f g (group p).rests (group q).rests := h

theorem Mirrors.opt (h : Mirrors f g p.rests q.rests) :
    Mirrors f g (opt p).rests (opt q).rests := by
  intro cs
  obtain ⟨ways, left, right⟩ := h cs
  refine ⟨ways ++ [cs], ?_, ?_⟩
  · rw [rests, left, List.map_append]
    rfl
  · rw [rests, right, List.map_append]
    rfl

theorem Mirrors.notAhead (h : Mirrors f g p.rests q.rests) :
    Mirrors f g (notAhead p).rests (notAhead q).rests := by
  intro cs
  obtain ⟨ways, left, right⟩ := h cs
  refine ⟨if ways.isEmpty then [cs] else [], ?_, ?_⟩
  · rw [rests, left, List.isEmpty_map]
    split <;> rfl
  · rw [rests, right, List.isEmpty_map]
    split <;> rfl

theorem Mirrors.flatMap {α : Type} (l : List α) {left right : α → Text → List Text}
    (h : ∀ a, Mirrors f g (left a) (right a)) :
    Mirrors f g (fun t => l.flatMap (left · t)) fun t => l.flatMap (right · t) := by
  intro cs
  choose ways first second using fun a => h a cs
  refine ⟨l.flatMap ways, ?_, ?_⟩
  · rw [List.map_flatMap]
    simp only [first]
  · rw [List.map_flatMap]
    simp only [second]

theorem Mirrors.fullMatches_write (h : Mirrors f g p.rests q.rests) (cs : List Char) :
    p.fullMatches (f.write cs) = q.fullMatches (g.write cs) := by
  obtain ⟨ways, left, right⟩ := h cs
  have whole : ∀ flavor : Flavor, [] ∈ ways.map flavor.write ↔ [] ∈ ways := by
    intro flavor
    exact (congrArg (· ∈ ways.map flavor.write) flavor.write_nil).to_iff.symm.trans
      (List.mem_map_of_injective flavor.write_injective)
  rw [Bool.eq_iff_iff, fullMatches_iff, fullMatches_iff, left, right, whole, whole]

/-- Every way of matching uses up whole characters, at least one. -/
def Aligned (flavor : Flavor) (p : Pattern) : Prop :=
  ∀ t, ∀ r ∈ p.rests t, ∃ w, w ≠ [] ∧ t = flavor.write w ++ r

theorem Aligned.rests_low {flavor : Flavor} (h : p.Aligned flavor) {c : Char} {a b : Nat}
    (pair : flavor.write [c] = [a, b]) (t : Text) : p.rests (b :: t) = [] := by
  rw [List.eq_nil_iff_forall_not_mem]
  intro r hr
  -- The way would take a word whose first character starts with that unit.
  obtain ⟨w, used, split⟩ := h _ r hr
  match w, used with
  | d :: w, _ =>
    rw [Flavor.write_cons, List.append_assoc] at split
    have range := toNat_range d
    rw [Flavor.write_singleton] at pair split
    split at pair
    · next utf16 =>
      rw [if_pos utf16] at split
      unfold Text.units at pair split
      split at pair
      · simp at pair
      · simp only [List.cons.injEq, and_true] at pair
        split at split
        · simp only [List.cons_append, List.cons.injEq] at split
          omega
        · simp only [List.cons_append, List.cons.injEq] at split
          omega
    · simp at pair

theorem Aligned.findFrom_cons {flavor : Flavor} (h : p.Aligned flavor) {c : Char} {cs : List Char}
    (stuck : p.rests (flavor.write (c :: cs)) = []) (place : Nat) :
    p.findFrom place 0 (flavor.write (c :: cs)) =
      p.findFrom (place + (flavor.write [c]).length) 0 (flavor.write cs) := by
  rw [Flavor.write_cons] at stuck ⊢
  have units : (∃ n, flavor.write [c] = [n]) ∨ ∃ a b, flavor.write [c] = [a, b] := by
    rw [Flavor.write_singleton]
    unfold Text.units
    split
    · split
      · exact .inl ⟨_, rfl⟩
      · exact .inr ⟨_, _, rfl⟩
    · exact .inl ⟨_, rfl⟩
  rcases units with ⟨n, one⟩ | ⟨a, b, pair⟩
  · rw [one] at stuck ⊢
    exact findFrom_cons_of_rests_eq_nil stuck place
  · have inside := h.rests_low pair (flavor.write cs)
    rw [pair] at stuck ⊢
    exact (findFrom_cons_of_rests_eq_nil stuck place).trans
      (findFrom_cons_of_rests_eq_nil inside (place + 1))

def spot (flavor : Flavor) (place : Nat) (s : List Char × List Char) : Found :=
  ⟨flavor.write s.2, place + (flavor.write s.1).length⟩

def behind (w : List Char) (s : List Char × List Char) : List Char × List Char := (w ++ s.1, s.2)

theorem map_spot_behind (flavor : Flavor) (place : Nat) (w : List Char)
    (spots : List (List Char × List Char)) :
    (spots.map (behind w)).map (spot flavor place) =
      spots.map (spot flavor (place + (flavor.write w).length)) := by
  rw [List.map_map]
  refine List.map_congr_left fun s _ => ?_
  simp only [Function.comp, spot, behind, Flavor.write_append, List.length_append, Nat.add_assoc]

theorem prefix_of_mem_behind {w r : List Char} {spots : List (List Char × List Char)}
    (h : ∀ s ∈ spots, s.1 ++ s.2 <+: r) : ∀ s ∈ spots.map (behind w), s.1 ++ s.2 <+: w ++ r := by
  intro s hs
  obtain ⟨s', hs', rfl⟩ := List.mem_map.1 hs
  rw [behind, List.append_assoc]
  exact (List.prefix_append_right_inj w).2 (h s' hs')

/-- Patterns that mirror each other find the same matches in a text of characters. -/
theorem Mirrors.exists_findFrom (h : Mirrors f g p.rests q.rests) (hp : p.Aligned f)
    (hq : q.Aligned g) (cs : List Char) : ∃ spots : List (List Char × List Char),
      (∀ s ∈ spots, s.1 ++ s.2 <+: cs) ∧
      (∀ place, p.findFrom place 0 (f.write cs) = spots.map (spot f place)) ∧
      ∀ place, q.findFrom place 0 (g.write cs) = spots.map (spot g place) := by
  induction hn : cs.length using Nat.strong_induction_on generalizing cs with
  | _ n ih =>
    obtain ⟨ways, left, right⟩ := h cs
    cases ways with
    | nil =>
      cases cs with
      | nil =>
        rw [Flavor.write_nil] at left right ⊢
        rw [Flavor.write_nil]
        refine ⟨[], by simp, ?_, ?_⟩
        · exact findFrom_nil_of_rests_eq_nil left
        · exact findFrom_nil_of_rests_eq_nil right
      | cons c cs =>
        -- Nothing fits at the character, and nothing between its units.
        rw [List.length_cons] at hn
        obtain ⟨spots, inside, left', right'⟩ := ih cs.length (by omega) cs rfl
        refine ⟨spots.map (behind [c]), prefix_of_mem_behind inside, ?_, ?_⟩
        · intro place
          rw [hp.findFrom_cons left, left', map_spot_behind]
        · intro place
          rw [hq.findFrom_cons right, right', map_spot_behind]
    | cons r ways =>
      -- Both patterns take the preferred way, and go on from its rest.
      have first : (p.rests (f.write cs)).head? = some (f.write r) := by rw [left]; rfl
      have second : (q.rests (g.write cs)).head? = some (g.write r) := by rw [right]; rfl
      obtain ⟨w, used, split⟩ := hp _ _ (List.mem_of_head? first)
      obtain ⟨r', rfl, rest⟩ := Flavor.exists_of_write_append split
      obtain rfl := f.write_injective rest
      rw [Flavor.write_append] at first second
      have shorter : r.length < n := by
        rw [← hn, List.length_append]
        exact Nat.lt_add_of_pos_left (List.length_pos_iff.2 used)
      obtain ⟨spots, inside, left', right'⟩ := ih r.length shorter r rfl
      have here : ∀ flavor place, spot flavor place ([], w) = ⟨flavor.write w, place⟩ := by
        simp [spot]
      refine ⟨([], w) :: spots.map (behind w), ?_, ?_, ?_⟩
      · rw [List.forall_mem_cons]
        exact ⟨List.prefix_append w r, prefix_of_mem_behind inside⟩
      · intro place
        rw [Flavor.write_append, findFrom_append_of_head? first (Flavor.write_ne_nil used), left',
          List.map_cons, map_spot_behind, here]
      · intro place
        rw [Flavor.write_append, findFrom_append_of_head? second (Flavor.write_ne_nil used), right',
          List.map_cons, map_spot_behind, here]

end Pictograph.Pattern
