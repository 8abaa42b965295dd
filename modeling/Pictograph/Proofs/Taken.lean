import Pictograph.Proofs.Pattern.Found
import Pictograph.Proofs.Pattern.Longest
import Pictograph.Proofs.Units

/-!
What a pattern takes at a place of a text. The fragment of a collection of sequences is read back
from its source, and at every place it takes the longest sequence that stands there.
-/

namespace Pictograph

/-- The word of the language that stands at the front of the text and is longer than all others. -/
structure LongestAhead (L : Language Nat) (t w : Text) : Prop where
  mem : w ∈ L
  ahead : w <+: t
  longest : ∀ v ∈ L, v <+: t → v.length ≤ w.length

variable {L : Language Nat} {t v w : Text} {place : Nat}

theorem LongestAhead.unique (hv : LongestAhead L t v) (hw : LongestAhead L t w) : v = w := by
  have length : v.length = w.length :=
    le_antisymm (hw.longest v hv.mem hv.ahead) (hv.longest w hw.mem hw.ahead)
  exact (List.prefix_of_prefix_length_le hv.ahead hw.ahead length.le).eq_of_length length

namespace Pattern

variable {p : Pattern}

/-- What the preferred way of matching uses up at a place of a text. -/
def takenAt? (p : Pattern) (t : Text) (place : Nat) : Option Text :=
  (p.search (fun n _ => some n) 0 (t.drop place)).map (t.drop place).take

theorem takenAt?_eq (p : Pattern) (t : Text) (place : Nat) : p.takenAt? t place =
    (p.rests (t.drop place)).head?.map fun r =>
      (t.drop place).take ((t.drop place).length - r.length) := by
  rw [takenAt?, search_eq]
  cases p.rests (t.drop place) with
  | nil => rfl
  | cons r rests => simp

theorem takenAt?_eq_some_iff : p.takenAt? t place = some w ↔
    ∃ r, t.drop place = w ++ r ∧ (p.rests (t.drop place)).head? = some r := by
  rw [takenAt?_eq, Option.map_eq_some_iff]
  constructor
  · intro h
    obtain ⟨r, first, rfl⟩ := h
    obtain ⟨u, split⟩ := suffix_of_mem_rests (List.mem_of_head? first)
    refine ⟨r, ?_, first⟩
    rw [← split]
    simp
  · intro h
    obtain ⟨r, split, first⟩ := h
    refine ⟨r, first, ?_⟩
    rw [split]
    simp

theorem takenAt?_isSome : (p.takenAt? t place).isSome ↔ p.rests (t.drop place) ≠ [] := by
  rw [takenAt?_eq, Option.isSome_map, List.isSome_head?]

theorem Spells.takenAt?_isSome_iff (h : p.Spells L) :
    (p.takenAt? t place).isSome ↔ ∃ w ∈ L, w <+: t.drop place := by
  rw [takenAt?_isSome]
  constructor
  · intro fits
    obtain ⟨r, hr⟩ := List.exists_mem_of_ne_nil _ fits
    obtain ⟨w, hw, split⟩ := h.mem_rests.1 hr
    exact ⟨w, hw, r, split.symm⟩
  · intro stands
    obtain ⟨w, hw, r, split⟩ := stands
    exact List.ne_nil_of_mem (h.mem_rests.2 ⟨w, hw, split.symm⟩)

theorem PrefersLongest.takenAt?_eq_some_iff (prefers : p.PrefersLongest) (h : p.Spells L) :
    p.takenAt? t place = some w ↔ LongestAhead L (t.drop place) w := by
  have longest : ∀ {w}, p.takenAt? t place = some w → LongestAhead L (t.drop place) w := by
    intro w taken
    obtain ⟨r, split, first⟩ := Pattern.takenAt?_eq_some_iff.1 taken
    obtain ⟨u, hu, split'⟩ := h.mem_rests.1 (List.mem_of_head? first)
    obtain rfl : w = u := List.append_cancel_right (split.symm.trans split')
    refine ⟨hu, ⟨r, split.symm⟩, ?_⟩
    intro v hv ahead
    obtain ⟨r', split''⟩ := ahead
    have less := prefers _ r first r' (h.mem_rests.2 ⟨v, hv, split''.symm⟩)
    have total := congrArg List.length (split''.trans split)
    simp only [List.length_append] at total
    omega
  refine ⟨longest, fun ahead => ?_⟩
  have stands : ∃ v ∈ L, v <+: t.drop place := ⟨w, ahead.mem, ahead.ahead⟩
  obtain ⟨u, taken⟩ := Option.isSome_iff_exists.1 (h.takenAt?_isSome_iff.2 stands)
  rw [taken, (longest taken).unique ahead]

theorem Spells.takenAt?_start (h : p.Spells L) (used : [] ∉ L) {f : Found} (hf : f ∈ p.find t) :
    p.takenAt? t f.start = some f.text := by
  obtain ⟨r, -, split, takes⟩ := mem_find hf
  refine Pattern.takenAt?_eq_some_iff.2 ⟨r, split, ?_⟩
  rw [split]
  refine takes.head? fun r' hr' => ?_
  obtain ⟨w, hw, split'⟩ := h.mem_rests.1 hr'
  rw [split', List.length_append]
  have some : w ≠ [] := fun none => used (none ▸ hw)
  exact Nat.lt_add_of_pos_left (List.length_pos_iff.2 some)

end Pattern

/-- The fragment of a collection of sequences is exact and prefers the longest. Its source can be
read; what is read matches as a whole exactly the encodings of the sequences, it matches at a place
exactly where one of them stands, and it takes the longest one there. -/
theorem patternOf_takes_longest (flavor : Flavor) (name : Text) {sequences : List Sequence}
    (ne : sequences ≠ []) (full : ∀ s ∈ sequences, s.points ≠ []) :
    ∃ p q, patternOf flavor name (sequences.map (·.numbers)) = .ok p ∧
      Pattern.read (p.source flavor) = some q ∧
      (∀ w, q.fullMatches w = true ↔ w ∈ encodings flavor sequences) ∧
      (∀ t place, (q.takenAt? t place).isSome ↔
        ∃ w ∈ encodings flavor sequences, w <+: t.drop place) ∧
      (∀ t place w, q.takenAt? t place = some w ↔
        LongestAhead (encodings flavor sequences) (t.drop place) w) ∧
      ∀ t, ∀ f ∈ q.find t, q.takenAt? t f.start = some f.text := by
  obtain ⟨p, fragment, whole⟩ := patternOf_numbers flavor name ne full
  have read : Pattern.read ((Pattern.choice [[p]]).source flavor) = some (Pattern.choice [[p]]) :=
    Pattern.read_source (by simp) (by simpa using whole.part)
  have used : [] ∉ encodings flavor sequences := by
    intro h
    obtain ⟨s, hs, empty⟩ := mem_encodings.1 h
    exact s.encode_text_ne_nil flavor (full s hs) empty
  refine ⟨p, p, fragment, read, fun w => ?_, fun t place => ?_, fun t place w => ?_,
    fun t f hf => ?_⟩
  · rw [Pattern.fullMatches_iff]
    simp [whole.spells.mem_rests]
  · exact whole.spells.takenAt?_isSome_iff
  · exact whole.greedy.prefersLongest.takenAt?_eq_some_iff whole.spells
  · exact whole.spells.takenAt?_start used hf

/-- A man and a man at a computer, who is the longer one where he stands. -/
theorem man_at_computer_taken :
    [Sequence.mk [man] true, ⟨[man, zwj, '💻'], true⟩] ≠ [] ∧
    (∀ s ∈ [Sequence.mk [man] true, ⟨[man, zwj, '💻'], true⟩], s.points ≠ []) ∧
    ∃ p q, patternOf .utf16 [] ([⟨[man], true⟩, ⟨[man, zwj, '💻'], true⟩].map Sequence.numbers) =
        .ok p ∧ Pattern.read (p.source .utf16) = some q ∧
      q.takenAt? (0x78 :: Flavor.utf16.write [man, zwj, '💻', man]) 1 =
        some (Flavor.utf16.write [man, zwj, '💻']) := by
  have full : ∀ s ∈ [Sequence.mk [man] true, ⟨[man, zwj, '💻'], true⟩], s.points ≠ [] := by simp
  obtain ⟨p, q, made, read, -, -, taken, -⟩ :=
    patternOf_takes_longest .utf16 [] (List.cons_ne_nil _ _) full
  refine ⟨List.cons_ne_nil _ _, full, p, q, made, read, (taken _ _ _).2 ⟨?_, ?_, ?_⟩⟩
  · exact mem_encodings.2 ⟨_, List.mem_cons_of_mem _ List.mem_cons_self, rfl⟩
  · exact ⟨Flavor.utf16.write [man], by decide⟩
  · intro v hv _
    obtain ⟨s, hs, rfl⟩ := mem_encodings.1 hv
    simp only [List.mem_cons, List.not_mem_nil, or_false] at hs
    rcases hs with rfl | rfl
    · decide
    · exact le_refl _

end Pictograph
