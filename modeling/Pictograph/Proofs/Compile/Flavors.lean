import Pictograph.Proofs.Compile.Completeness
import Pictograph.Proofs.Mirror

/-!
The two flavors of a pattern. A table compiles in the one if and only if it does in the other, and
the patterns mirror each other; so in the units of a text the one finds what the other finds in the
text, and never half of a pair.
-/

namespace Pictograph

namespace Pattern

variable {f g : Flavor} {a a' : Auxiliary} {b b' : Pattern} {L : Language Char}

theorem mirrors_around (sound : a.Sound f) (sound' : a'.Sound g) (h : Fragment f (f.image L) b)
    (h' : Fragment g (g.image L) b') (c : Class) :
    Mirrors f g (concat (around a c b)).rests (concat (around a' c b')).rests := by
  have body := Mirrors.of_fragment h h'
  have tone := (Mirrors.of_fragment sound.skinTone sound'.skinTone).opt
  have both := (Mirrors.of_fragment sound.skinToneOrVs16 sound'.skinToneOrVs16).opt
  have joiner := Mirrors.of_fragment sound.zwj sound'.zwj
  have selector := Mirrors.of_fragment sound.vs16 sound'.vs16
  have sign := joiner.concat_cons
    ((Mirrors.of_fragment sound.genderSign sound'.genderSign).concat_cons selector.opt.concat_last)
  cases c with
  | multiDiversity => exact body
  | joined => exact body
  | normal => exact body
  | leadingGender =>
    exact (Mirrors.of_fragment sound.manWomanPerson sound'.manWomanPerson).concat_cons
      (tone.concat_cons (joiner.concat_cons body.concat_last))
  | trailingGenderWithVariant => exact body.concat_cons (both.concat_cons sign)
  | trailingGender => exact body.concat_cons (tone.concat_cons sign)
  | keycap =>
    exact body.concat_cons (selector.opt.concat_cons
      (Mirrors.of_fragment sound.keycap sound'.keycap).concat_last)
  | variantDiversity => exact body.concat_cons both.concat_last
  | diversity => exact body.concat_cons tone.concat_last
  | textDefault => exact body.concat_cons selector.concat_last
  | variant =>
    have plain : Mirrors f g a.vs15.rests a'.vs15.rests := by
      rw [sound.vs15, sound'.vs15]
      exact .of_fragment (fragment_symbol f (by decide)) (fragment_symbol g (by decide))
    exact body.concat_cons (selector.alt plain.notAhead).group.concat_last

end Pattern

namespace Compile

variable {f g : Flavor} {placed : List Placed} {a a' : Auxiliary}

theorem mirrors_restsOf (sound : a.Sound f) (sound' : a'.Sound g)
    (full : ∀ p ∈ placed, p.sequence.points ≠ []) (c : Class) :
    Pattern.Mirrors f g (restsOf f placed a c) (restsOf g placed a' c) := by
  by_cases empty : sequencesOf placed c = []
  · have none : ∀ flavor a, restsOf flavor placed a c = fun _ => [] := by
      intro flavor a
      unfold restsOf alternative body
      rw [empty]
      rfl
    intro cs
    exact ⟨[], by rw [none]; rfl, by rw [none]; rfl⟩
  · have points := points_ne_nil_iff.2 full c
    obtain ⟨b, hb⟩ := Option.isSome_iff_exists.1 (body_isSome f empty points)
    obtain ⟨b', hb'⟩ := Option.isSome_iff_exists.1 (body_isSome g empty points)
    have left := (fragment_body hb).2
    have right := (fragment_body hb').2
    rw [← Flavor.image_contents] at left right
    have mirrors := Pattern.mirrors_around sound sound' left right c
    unfold restsOf alternative
    rw [hb, hb']
    exact mirrors

theorem mirrors_assembled (sound : a.Sound f) (sound' : a'.Sound g) (ne : placed ≠ [])
    (full : ∀ p ∈ placed, p.sequence.points ≠ []) :
    Pattern.Mirrors f g (assembled f placed a).pattern.rests
      (assembled g placed a').pattern.rests := by
  have classes := Pattern.Mirrors.flatMap Class.all (mirrors_restsOf sound sound' full)
  simpa only [← rests_assembled ne full] using classes

theorem aligned_assembled {flavor : Flavor} (sound : a.Sound flavor) (ne : placed ≠ [])
    (full : ∀ p ∈ placed, p.sequence.points ≠ []) :
    (assembled flavor placed a).pattern.Aligned flavor := by
  intro t r hr
  exact exists_of_mem_rests sound ne full hr

end Compile

/-- A match as it stands in the units of a text. -/
def Found.inUnits (t : Text) (m : Found) : Found :=
  ⟨Text.splitPairs m.text, (Text.splitPairs (t.take m.start)).length⟩

theorem Pattern.Mirrors.find_splitPairs {p q : Pattern}
    (h : Pattern.Mirrors .points .utf16 p.rests q.rests) (hp : p.Aligned .points)
    (hq : q.Aligned .utf16) (cs : List Char) :
    q.find (Text.splitPairs (Text.ofChars cs)) =
        (p.find (Text.ofChars cs)).map (Found.inUnits (Text.ofChars cs)) ∧
      ∀ m ∈ q.find (Text.splitPairs (Text.ofChars cs)), ∃ u v w, Text.ofChars cs = u ++ v ++ w ∧
        m.start = (Text.splitPairs u).length ∧ m.stop = (Text.splitPairs (u ++ v)).length := by
  obtain ⟨spots, inside, left, right⟩ := h.exists_findFrom hp hq cs
  have points : p.find (Text.ofChars cs) = spots.map (spot .points 0) := left 0
  have units : q.find (Text.splitPairs (Text.ofChars cs)) = spots.map (spot .utf16 0) := right 0
  rw [points, units]
  constructor
  · rw [List.map_map]
    refine List.map_congr_left fun s hs => ?_
    obtain ⟨w, rfl⟩ := inside s hs
    have before : (Text.ofChars (s.1 ++ s.2 ++ w)).take (Text.ofChars s.1).length =
        Text.ofChars s.1 := by
      rw [List.append_assoc, Text.ofChars_append, List.take_left]
    simp only [Function.comp, Found.inUnits, spot, Nat.zero_add, Flavor.write_points, before,
      Flavor.write_utf16]
  · intro m hm
    obtain ⟨s, hs, rfl⟩ := List.mem_map.1 hm
    obtain ⟨w, rfl⟩ := inside s hs
    refine ⟨Text.ofChars s.1, Text.ofChars s.2, Text.ofChars w, ?_, ?_, ?_⟩
    · rw [Text.ofChars_append, Text.ofChars_append]
    · rw [spot, Nat.zero_add]
      rfl
    · rw [Found.stop, spot, Nat.zero_add, Text.splitPairs, List.flatMap_append, List.length_append]
      rfl

/-- A table compiles in one flavor if and only if it does in the other, and in the units of a text
the one pattern finds what the other finds in the text, and no half of a pair. -/
theorem flavors_agree (all : Bool) (items : List TableItem) (ne : tableEntries items ≠ .ok []) :
    ((∃ c, (compile ⟨.utf16, all⟩ items).result = .ok c) ↔
      ∃ c, (compile ⟨.points, all⟩ items).result = .ok c) ∧
    ∀ c d, (compile ⟨.points, all⟩ items).result = .ok c →
      (compile ⟨.utf16, all⟩ items).result = .ok d →
      ∃ p q, c.executable = .ok p ∧ Pattern.read d.source = some q ∧ ∀ cs : List Char,
        q.find (Text.splitPairs (Text.ofChars cs)) =
          (p.find (Text.ofChars cs)).map (Found.inUnits (Text.ofChars cs)) ∧
        (∀ m ∈ q.find (Text.splitPairs (Text.ofChars cs)), ∃ u v w,
          Text.ofChars cs = u ++ v ++ w ∧ m.start = (Text.splitPairs u).length ∧
            m.stop = (Text.splitPairs (u ++ v)).length) ∧
        q.fullMatches (Text.splitPairs (Text.ofChars cs)) = p.fullMatches (Text.ofChars cs) := by
  constructor
  · have change : ∀ f g, (∃ c, (compile ⟨f, all⟩ items).result = .ok c) →
        ∃ c, (compile ⟨g, all⟩ items).result = .ok c := by
      intro f g h
      obtain ⟨c, h⟩ := h
      obtain ⟨entries, placed, -, entriesOk, sorted, -, required, full, -⟩ :=
        Compile.compile_eq_ok_iff.1 h
      obtain ⟨a, auxiliary, -⟩ := Auxiliary.exists_of g
      exact ⟨_, Compile.compile_eq_ok_iff.2
        ⟨entries, placed, a, entriesOk, sorted, auxiliary, required, full, rfl⟩⟩
    exact ⟨change _ _, change _ _⟩
  · intro c d hc hd
    obtain ⟨entries, placed, a, entriesOk, sorted, auxiliary, -, full, rfl⟩ :=
      Compile.compile_eq_ok_iff.1 hc
    obtain ⟨entries', placed', a', entriesOk', sorted', auxiliary', -, -, rfl⟩ :=
      Compile.compile_eq_ok_iff.1 hd
    rw [entriesOk] at entriesOk' ne
    cases entriesOk'
    rw [sorted] at sorted'
    cases sorted'
    have filled := placed_ne_nil sorted fun empty => ne (empty ▸ rfl)
    have sound := Auxiliary.sound_of auxiliary
    have sound' := Auxiliary.sound_of auxiliary'
    have mirrors := Compile.mirrors_assembled sound sound' filled full
    refine ⟨_, _, Compile.executable_assembled sound, Compile.read_source_assembled sound', ?_⟩
    intro cs
    obtain ⟨found, whole⟩ := mirrors.find_splitPairs (Compile.aligned_assembled sound filled full)
      (Compile.aligned_assembled sound' filled full) cs
    exact ⟨found, whole, (mirrors.fullMatches_write cs).symm⟩

theorem flavors_agree_hearts : tableEntries (hearts.map .entry) ≠ .ok [] ∧
    ∃ c d p q, (compile ⟨.points, false⟩ (hearts.map .entry)).result = .ok c ∧
      (compile ⟨.utf16, false⟩ (hearts.map .entry)).result = .ok d ∧
      c.executable = .ok p ∧ Pattern.read d.source = some q ∧
      ∀ cs : List Char, q.find (Text.splitPairs (Text.ofChars cs)) =
        (p.find (Text.ofChars cs)).map (Found.inUnits (Text.ofChars cs)) := by
  have entries := tableEntries_map_entry hearts
  obtain ⟨c, compiled⟩ := exists_compile classify_hearts (by decide)
  have filled : tableEntries (hearts.map .entry) ≠ .ok [] := by
    rw [entries]
    decide
  obtain ⟨same, agree⟩ := flavors_agree false (hearts.map .entry) filled
  obtain ⟨d, compiled'⟩ := same.2 ⟨c, compiled⟩
  obtain ⟨p, q, executable, back, found⟩ := agree c d compiled compiled'
  exact ⟨filled, c, d, p, q, compiled, compiled', executable, back, fun cs => (found cs).1⟩

end Pictograph
