import Pictograph.Proofs.Cover
import Pictograph.Proofs.Hexadecimal
import Pictograph.Proofs.Units

/-!
Literals next to any others. An escape has a fixed number of digits and everything but a letter or a
digit is escaped, so no neighbour changes what a literal stands for: literals in a row are read as
the characters that they were written for, and the text of spans as one class with exactly the
numbers in the spans. All of it is plain ASCII.
-/

namespace Pictograph

/-! ## The alphabet of sources -/

namespace Source

def IsAscii (source : Source) : Prop := ∀ d ∈ source, d.toNat < 0x80

variable {s t : Source} {d : Char}

@[simp] theorem isAscii_nil : IsAscii [] := List.forall_mem_nil _

@[simp] theorem isAscii_cons : IsAscii (d :: s) ↔ d.toNat < 0x80 ∧ IsAscii s :=
  List.forall_mem_cons

@[simp] theorem isAscii_append : IsAscii (s ++ t) ↔ IsAscii s ∧ IsAscii t :=
  List.forall_mem_append

theorem isAscii_hexPadded (width n : Nat) : IsAscii (hexPadded width n) := by
  have ascii : ∀ c ∈ Text.hexits, c < 0x80 := by decide
  refine isAscii_append.2 ⟨?_, ?_⟩
  · intro d hd
    rw [List.eq_of_mem_replicate hd]
    decide
  · intro d hd
    exact ascii _ (Text.hex_subset n (List.mem_map_of_mem hd))

theorem isAscii_escape {mark : Char} (h : mark.toNat < 0x80) (width n : Nat) :
    IsAscii (escape mark width n) :=
  isAscii_cons.2 ⟨by decide, isAscii_cons.2 ⟨h, isAscii_hexPadded width n⟩⟩

theorem isAscii_literal (flavor : Flavor) (c : Nat) : IsAscii (literal flavor c) := by
  unfold literal
  split
  · next bare =>
    have small : c < 0x80 := by simp at bare; exact bare.1
    have whole : (Char.ofNat c).toNat = c := by
      have value := Pattern.value_glyph c
      rwa [Pattern.glyph, if_pos bare] at value
    rw [isAscii_cons, whole]
    exact ⟨small, isAscii_nil⟩
  · split
    · exact isAscii_escape (by decide) 2 c
    · split
      · exact isAscii_escape (by decide) 4 c
      · split
        · intro d hd
          obtain ⟨u, -, hu⟩ := List.mem_flatMap.1 hd
          exact isAscii_escape (by decide) 4 u d hu
        · exact isAscii_escape (by decide) 8 c

end Source

theorem ClassItem.isAscii_source (flavor : Flavor) (i : ClassItem) :
    (i.source flavor).IsAscii := by
  cases i with
  | one c => exact Source.isAscii_literal flavor c
  | range first last =>
    simp [ClassItem.source, Source.isAscii_literal]

namespace Pattern

theorem isAscii_source (flavor : Flavor) (p : Pattern) : (p.source flavor).IsAscii := by
  induction p with
  | empty => exact Source.isAscii_nil
  | symbol c => exact Source.isAscii_literal flavor c
  | oneOf items =>
    have members : Source.IsAscii (items.flatMap (·.source flavor)) := by
      intro d hd
      obtain ⟨i, -, hi⟩ := List.mem_flatMap.1 hd
      exact i.isAscii_source flavor d hi
    simp [source, members]
  | seq p q hp hq => simp [source, hp, hq]
  | alt p q hp hq => simp [source, hp, hq]
  | group p hp => simp [source, hp]
  | opt p hp => simp [source, hp]
  | notAhead p hp => simp [source, hp]

end Pattern

/-! ## Literals in a row -/

namespace Source

theorem literal_of_wide {flavor : Flavor} {u : Nat} (wide : 0x100 ≤ u) (small : u < 0x10000) :
    literal flavor u = escape 'u' 4 u := by
  have bare : ¬ u < 0x80 := by omega
  rw [literal, if_neg (by simp [bare]), if_neg (by omega), if_pos small]

theorem literal_char (flavor : Flavor) (c : Char) :
    literal flavor c.toNat = (flavor.write [c]).flatMap (literal flavor) := by
  rw [Flavor.write_singleton]
  split
  · next utf16 =>
    by_cases small : c.toNat < 0x10000
    · rw [Text.units_of_lt small, List.flatMap_singleton]
    · have range := toNat_range c
      have bare : ¬ c.toNat < 0x80 := by omega
      rw [literal, if_neg (by simp [bare]), if_neg (by omega), if_neg small, if_pos utf16,
        Text.units, if_neg small]
      simp only [List.flatMap_cons, List.flatMap_nil]
      rw [literal_of_wide (by omega) (by omega), literal_of_wide (by omega) (by omega)]
  · rw [List.flatMap_singleton]

def ofChars (flavor : Flavor) (chars : List Char) : Source :=
  chars.flatMap fun c => literal flavor c.toNat

theorem ofChars_eq (flavor : Flavor) (chars : List Char) :
    ofChars flavor chars = (flavor.write chars).flatMap (literal flavor) := by
  induction chars with
  | nil => rw [Flavor.write_nil, ofChars, List.flatMap_nil, List.flatMap_nil]
  | cons c chars ih =>
    rw [Flavor.write_cons, List.flatMap_append, ← literal_char, ← ih, ofChars, List.flatMap_cons,
      ofChars]

end Source

theorem Flavor.canWrite_of_mem_write {flavor : Flavor} {chars : List Char} {u : Nat}
    (h : u ∈ flavor.write chars) : flavor.CanWrite u :=
  canWrite_of_mem_encode (s := ⟨chars, true⟩) h

namespace Pattern

def verbatim (t : Text) : Pattern := concat (t.map symbol)

theorem source_verbatim (flavor : Flavor) (t : Text) :
    (verbatim t).source flavor = t.flatMap (Source.literal flavor) := by
  rw [verbatim, source_concat, List.flatMap_map]
  rfl

theorem spells_verbatim (t : Text) : (verbatim t).Spells {t} := by
  induction t with
  | nil =>
    intro w r
    rw [verbatim, List.map_nil, concat, rests, List.mem_singleton, mem_word]
    exact List.self_eq_append_left
  | cons c t ih =>
    refine ((spells_symbol c).concat_cons ih).congr fun _ => ?_
    rw [word_cons c t]

theorem read_source_verbatim {flavor : Flavor} {t : Text} (h : ∀ c ∈ t, flavor.CanWrite c) :
    read ((verbatim t).source flavor) = some (verbatim t) := by
  have parts : ∀ b ∈ [t.map symbol], ∀ p ∈ b, p.Part flavor := by
    simp only [List.forall_mem_singleton, List.forall_mem_map]
    exact fun c hc => .symbol (h c hc)
  exact read_source (List.cons_ne_nil (t.map symbol) []) parts

end Pattern

namespace Source

variable {flavor : Flavor} {chars : List Char}

theorem ofChars_eq_source : ofChars flavor chars =
    (Pattern.verbatim (flavor.write chars)).source flavor := by
  rw [Pattern.source_verbatim, ofChars_eq]

theorem read_ofChars : Pattern.read (ofChars flavor chars) =
    some (.verbatim (flavor.write chars)) := by
  rw [ofChars_eq_source]
  exact Pattern.read_source_verbatim fun _ => Flavor.canWrite_of_mem_write

/-- Literals in a row are read in one way, and the pattern that is read spells one text only. -/
theorem ofChars_injective (flavor : Flavor) : Function.Injective (ofChars flavor) := by
  intro v w same
  have patterns : Pattern.verbatim (flavor.write v) = .verbatim (flavor.write w) := by
    rw [← Option.some_inj, ← read_ofChars, ← read_ofChars, same]
  have spelled := (Pattern.spells_verbatim (flavor.write v)).fullMatches_iff.2 rfl
  rw [patterns, (Pattern.spells_verbatim _).fullMatches_iff] at spelled
  exact Flavor.write_injective flavor spelled

end Source

/-! ## Spans as a class -/

namespace Span

def size (s : Span) : Nat := (s.last + 1 - s.first).toNat

variable {flavor : Flavor} {spans : List Span}

theorem exists_oneOf_of_several (h : ∀ s ∈ spans, s.Writable flavor)
    (several : 2 ≤ (spans.map size).sum) :
    ∃ items, toPattern flavor spans = .ok (.oneOf items) ∧ (Pattern.oneOf items).Part flavor ∧
      ∀ c : Nat, items.any (·.has c) = true ↔ Covers spans c := by
  have ne : spans ≠ [] := by
    rintro rfl
    simp at several
  have wide : ∀ s, spans = [s] → s.first ≠ s.last := by
    rintro s rfl
    simp only [List.map_singleton, List.sum_singleton, size] at several
    omega
  obtain ⟨items, made, some, writable, has⟩ := mapM_classItems ne h
  refine ⟨items.flatten, ?_, .oneOf some writable, has⟩
  rw [toPattern_of_wide flavor ne wide, made]
  rfl

end Span

/-- The literals of characters, one after the other, are plain ASCII. They are read as exactly these
characters, as the flavor writes them, which use up nothing else; so no other characters have the
same literals. Spans with ends that the flavor can write, in any order, are written as one class if
they hold several numbers, and the class is read back with exactly these numbers as its members. -/
theorem literals_read_back (flavor : Flavor) :
    (∀ chars : List Char, (Source.ofChars flavor chars).IsAscii ∧
      Pattern.read (Source.ofChars flavor chars) = some (.verbatim (flavor.write chars)) ∧
      (Pattern.verbatim (flavor.write chars)).Spells {flavor.write chars} ∧
      ∀ chars', Source.ofChars flavor chars' = Source.ofChars flavor chars → chars' = chars) ∧
    ∀ spans : List Span, (∀ s ∈ spans, s.Writable flavor) → 2 ≤ (spans.map (·.size)).sum →
      ∃ items, Span.toPattern flavor spans = .ok (.oneOf items) ∧
        Pattern.read ((Pattern.oneOf items).source flavor) = some (.oneOf items) ∧
        ∀ c : Nat, items.any (·.has c) = true ↔ Span.Covers spans c := by
  constructor
  · intro chars
    refine ⟨?_, Source.read_ofChars, Pattern.spells_verbatim _, fun chars' same => ?_⟩
    · rw [Source.ofChars_eq_source]
      exact Pattern.isAscii_source flavor _
    · exact Source.ofChars_injective flavor same
  · intro spans writable several
    obtain ⟨items, made, part, has⟩ := Span.exists_oneOf_of_several writable several
    exact ⟨items, made, part.read_source, has⟩

/-- Signs that mean something in a class and outside, a digit right behind an escape, and a
character of two units. -/
theorem literals_read_back_signs :
    let chars : List Char := ['^', '-', ']', '1', 'f', man]
    let spans : List Span := [⟨0x2D, 0x2E⟩, ⟨0x31, 0x31⟩, ⟨0x5B, 0x5E⟩, ⟨0xFE0F, 0xFE0F⟩]
    (∀ s ∈ spans, s.Writable .utf16) ∧ 2 ≤ (spans.map (·.size)).sum ∧
      Source.ofChars .utf16 chars = "\\x5e\\x2d\\x5d1f\\ud83d\\udc68".toList ∧
      Pattern.read "\\x5e\\x2d\\x5d1f\\ud83d\\udc68".toList =
        some (.verbatim [0x5E, 0x2D, 0x5D, 0x31, 0x66, 0xD83D, 0xDC68]) ∧
      ∃ items, Pattern.read "[\\x2d\\x2e1\\x5b-\\x5e\\ufe0f]".toList = some (.oneOf items) ∧
        ∀ c : Nat, items.any (·.has c) = true ↔ Span.Covers spans c := by
  intro chars spans
  have writable : ∀ s ∈ spans, s.Writable .utf16 := by
    simp [spans, Span.Writable, Flavor.CanCode, Flavor.CanWrite]
  have several : 2 ≤ (spans.map (·.size)).sum := by decide
  obtain ⟨literals, classes⟩ := literals_read_back .utf16
  obtain ⟨-, read, -⟩ := literals chars
  obtain ⟨items, made, readClass, members⟩ := classes spans writable several
  have text : Source.ofChars .utf16 chars = "\\x5e\\x2d\\x5d1f\\ud83d\\udc68".toList := by
    decide
  have units : Flavor.utf16.write chars = [0x5E, 0x2D, 0x5D, 0x31, 0x66, 0xD83D, 0xDC68] := by
    decide
  have written : (Span.toPattern .utf16 spans).map (·.source .utf16) =
      .ok "[\\x2d\\x2e1\\x5b-\\x5e\\ufe0f]".toList := by rfl
  rw [made] at written
  rw [text, units] at read
  refine ⟨writable, several, text, read, items, ?_, members⟩
  rw [← Except.ok.inj written]
  exact readClass

end Pictograph
