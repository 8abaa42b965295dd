import Mathlib.Algebra.Group.Nat.Defs
import Pictograph.Pattern.Reader
import Pictograph.Pattern.Source

/-!
Reading back what was written. A pattern whose alternatives stand only in groups, whose question
marks follow something they can follow, and whose code values fit the flavor is written without
loss: its source is read as the same pattern again, glyph by glyph, token by token, part by part.
-/

namespace Pictograph

def Flavor.CanWrite (flavor : Flavor) (c : Nat) : Prop :=
  c ≤ 0x10FFFF ∧ (flavor = .utf16 → c < 0x10000)

def ClassItem.Writable (flavor : Flavor) : ClassItem → Prop
  | one c => flavor.CanWrite c
  | range first last => flavor.CanWrite first ∧ flavor.CanWrite last ∧ first ≤ last

namespace Pattern

def choice (branches : List (List Pattern)) : Pattern := anyOf (branches.map concat)

/-- What may stand between its neighbours without a group around it. -/
inductive Part (flavor : Flavor) : Pattern → Prop where
  | symbol (h : flavor.CanWrite c) : Part flavor (symbol c)
  | oneOf (ne : items ≠ []) (h : ∀ i ∈ items, i.Writable flavor) : Part flavor (oneOf items)
  | group (ne : branches ≠ []) (h : ∀ b ∈ branches, ∀ p ∈ b, Part flavor p) :
      Part flavor (group (choice branches))
  | opt (quantifiable : isQuantifiable p = true) (h : Part flavor p) : Part flavor (opt p)
  | notAhead (ne : branches ≠ []) (h : ∀ b ∈ branches, ∀ p ∈ b, Part flavor p) :
      Part flavor (notAhead (choice branches))

theorem hexDigit?_digitChar {n : Nat} (h : n < 16) : hexDigit? (Nat.digitChar n) = some n := by
  revert n
  decide

private theorem hexValue?_zeros (k : Nat) (digits : List Char) :
    hexValue? (List.replicate k '0' ++ digits) = hexValue? digits := by
  induction k with
  | zero => rfl
  | succ k ih =>
    rw [List.replicate_succ, List.cons_append]
    exact ih

private theorem hexValue?_append (digits : List Char) (d : Char) :
    hexValue? (digits ++ [d]) =
      (hexValue? digits).bind fun n => (hexDigit? d).map (n * 16 + ·) := by
  simp [hexValue?, List.foldlM_append]

theorem hexValue?_toDigits (n : Nat) : hexValue? (Nat.toDigits 16 n) = some n := by
  induction n using Nat.base_induction 16 (by omega) with
  | single n hn =>
    rw [Nat.toDigits_of_lt_base hn]
    simp [hexValue?, hexDigit?_digitChar hn]
  | digit n k hk hn ih =>
    rw [← Nat.toDigits_append_toDigits (by omega) hn hk, Nat.toDigits_of_lt_base hk,
      hexValue?_append, ih]
    simp [hexDigit?_digitChar hk, Nat.mul_comm]

theorem hexValue?_hexPadded (width n : Nat) :
    hexValue? (Source.hexPadded width n) = some n := by
  rw [Source.hexPadded, hexValue?_zeros, hexValue?_toDigits]

theorem length_hexPadded {width n : Nat} (pos : 0 < width) (h : n < 16 ^ width) :
    (Source.hexPadded width n).length = width := by
  have short := (Nat.length_toDigits_le_iff (b := 16) (by omega) pos).2 h
  simp only [Source.hexPadded, List.length_append, List.length_replicate]
  omega

def glyph (c : Nat) : Glyph :=
  if c < 0x80 && (Char.ofNat c).isAlphanum then .char (Char.ofNat c) else .code c

@[simp] theorem value_glyph (c : Nat) : (glyph c).value = c := by
  unfold glyph
  split
  · next h =>
    have small : c < 0x80 := by simp at h; exact h.1
    have valid : c.isValidChar := Or.inl (by omega)
    rw [Glyph.value, Char.ofNat, dif_pos valid]
    rfl
  · rfl

theorem isAlphanum_of_glyph {c : Nat} {d : Char} (h : glyph c = .char d) : d.isAlphanum = true := by
  unfold glyph at h
  split at h
  · next hc =>
    rw [Bool.and_eq_true] at hc
    rw [← Glyph.char.inj h]
    exact hc.2
  · simp at h

theorem glyph_ne_char (c : Nat) {d : Char} (h : d.isAlphanum = false) : glyph c ≠ .char d := by
  intro e
  rw [isAlphanum_of_glyph e] at h
  simp at h

theorem isSign_glyph (c : Nat) : (glyph c).isSign = false := by
  cases e : glyph c with
  | code n => rfl
  | char d =>
    have signs : ['(', ')', '[', '|', '?', '*', '+', '.', '^', '$'].all (!·.isAlphanum) = true := by
      decide
    rw [Glyph.isSign, List.contains_eq_mem, decide_eq_false_iff_not]
    intro sign
    have other := List.all_eq_true.1 signs d sign
    rw [isAlphanum_of_glyph e] at other
    cases other

theorem glyphs_escape {mark : Char} {width n : Nat}
    (kind : (mark, width) ∈ [('x', 2), ('u', 4), ('U', 8)]) (short : n < 16 ^ width)
    (bound : n ≤ 0x10FFFF) (rest : List Char) :
    glyphs (Source.escape mark width n ++ rest) = (glyphs rest).map (.code n :: ·) := by
  have pos : 0 < width := by simp at kind; omega
  have value := hexValue?_hexPadded width n
  have length := length_hexPadded pos short
  unfold Source.escape
  generalize Source.hexPadded width n = digits at value length
  simp only [List.mem_cons, Prod.mk.injEq, List.not_mem_nil, or_false] at kind
  rcases kind with ⟨rfl, rfl⟩ | ⟨rfl, rfl⟩ | ⟨rfl, rfl⟩
  · match digits, length with
    | [a, b], _ => cases tail : glyphs rest <;> simp [glyphs, value, tail]
  · match digits, length with
    | [a, b, c, d], _ => cases tail : glyphs rest <;> simp [glyphs, value, tail]
  · match digits, length with
    | [a, b, c, d, e, f, g, h], _ =>
      cases tail : glyphs rest <;> simp [glyphs, value, Nat.not_lt.2 bound, tail]

theorem glyphs_char {c : Char} (h : c ≠ '\\') (rest : List Char) :
    glyphs (c :: rest) = (glyphs rest).map (.char c :: ·) := by
  cases tail : glyphs rest with
  | none =>
    rw [glyphs.eq_def]
    split <;> simp_all
  | some glyphs' =>
    rw [glyphs.eq_def]
    split <;> simp_all

theorem glyphs_literal {flavor : Flavor} {c : Nat} (h : flavor.CanWrite c) (rest : List Char) :
    glyphs (Source.literal flavor c ++ rest) = (glyphs rest).map (glyph c :: ·) := by
  unfold Source.literal glyph
  split
  · next hc =>
    rw [List.singleton_append, glyphs_char]
    intro e
    simp [e] at hc
  · split
    · exact glyphs_escape (by simp) (by omega) h.1 rest
    · split
      · exact glyphs_escape (by simp) (by omega) h.1 rest
      · split
        · next hc hu => exact absurd (h.2 hu) hc
        · exact glyphs_escape (by simp) (by have := h.1; omega) h.1 rest

def Writable (flavor : Flavor) : Pattern → Prop
  | empty => True
  | symbol c => flavor.CanWrite c
  | oneOf items => items ≠ [] ∧ ∀ i ∈ items, i.Writable flavor
  | seq p q | alt p q => p.Writable flavor ∧ q.Writable flavor
  | group p | opt p | notAhead p => p.Writable flavor

def itemGlyphs : ClassItem → List Glyph
  | .one c => [glyph c]
  | .range first last => [glyph first, .char '-', glyph last]

def asGlyphs : Pattern → List Glyph
  | empty => []
  | symbol c => [glyph c]
  | oneOf items => .char '[' :: items.flatMap itemGlyphs ++ [.char ']']
  | seq p q => p.asGlyphs ++ q.asGlyphs
  | alt p q => p.asGlyphs ++ .char '|' :: q.asGlyphs
  | group p => .char '(' :: .char '?' :: .char ':' :: p.asGlyphs ++ [.char ')']
  | opt p => p.asGlyphs ++ [.char '?']
  | notAhead p => .char '(' :: .char '?' :: .char '!' :: p.asGlyphs ++ [.char ')']

def asTokens : Pattern → List Token
  | empty => []
  | symbol c => [.atom (symbol c)]
  | oneOf items => [.atom (oneOf items)]
  | seq p q => p.asTokens ++ q.asTokens
  | alt p q => p.asTokens ++ .bar :: q.asTokens
  | group p => .opening false :: p.asTokens ++ [.closing]
  | opt p => p.asTokens ++ [.question]
  | notAhead p => .opening true :: p.asTokens ++ [.closing]

theorem glyphs_items {flavor : Flavor} {items : List ClassItem}
    (h : ∀ i ∈ items, i.Writable flavor) (rest : List Char) :
    glyphs (items.flatMap (·.source flavor) ++ rest) =
      (glyphs rest).map (items.flatMap itemGlyphs ++ ·) := by
  induction items with
  | nil => simp
  | cons i items ih =>
    have tail := ih fun j hj => h j (List.mem_cons_of_mem i hj)
    have head := h i List.mem_cons_self
    cases i with
    | one c =>
      rw [List.flatMap_cons, List.append_assoc, ClassItem.source, glyphs_literal head, tail]
      simp [itemGlyphs, Function.comp_def]
    | range first last =>
      obtain ⟨hf, hl, -⟩ := head
      rw [List.flatMap_cons, List.append_assoc, ClassItem.source, List.append_assoc,
        glyphs_literal hf, List.cons_append, glyphs_char (by decide), glyphs_literal hl, tail]
      simp [itemGlyphs, Function.comp_def]

theorem source_concat (flavor : Flavor) (ps : List Pattern) :
    (concat ps).source flavor = ps.flatMap (·.source flavor) := by
  induction ps with
  | nil => rfl
  | cons p ps ih =>
    cases ps with
    | nil => simp [concat]
    | cons q ps =>
      have step : concat (p :: q :: ps) = seq p (concat (q :: ps)) := rfl
      rw [step, source, ih]
      rfl

theorem glyphs_source {flavor : Flavor} {p : Pattern} (h : p.Writable flavor) (rest : List Char) :
    glyphs (p.source flavor ++ rest) = (glyphs rest).map (p.asGlyphs ++ ·) := by
  induction p generalizing rest with
  | empty => simp [source, asGlyphs]
  | symbol c => exact glyphs_literal h rest
  | oneOf items =>
    simp only [source, List.cons_append, List.append_assoc]
    rw [glyphs_char (by decide), glyphs_items h.2, List.nil_append, glyphs_char (by decide)]
    simp [asGlyphs, Function.comp_def]
  | seq p q hp hq =>
    rw [source, List.append_assoc, hp h.1, hq h.2]
    simp [asGlyphs, Function.comp_def]
  | alt p q hp hq =>
    rw [source, List.append_assoc, hp h.1, List.cons_append, glyphs_char (by decide), hq h.2]
    simp [asGlyphs, Function.comp_def]
  | group p hp =>
    simp only [source, List.cons_append, List.append_assoc]
    rw [glyphs_char (by decide), glyphs_char (by decide), glyphs_char (by decide), hp h,
      List.nil_append, glyphs_char (by decide)]
    simp [asGlyphs, Function.comp_def]
  | opt p hp =>
    rw [source, List.append_assoc, hp h, List.singleton_append, glyphs_char (by decide)]
    simp [asGlyphs, Function.comp_def]
  | notAhead p hp =>
    simp only [source, List.cons_append, List.append_assoc]
    rw [glyphs_char (by decide), glyphs_char (by decide), glyphs_char (by decide), hp h,
      List.nil_append, glyphs_char (by decide)]
    simp [asGlyphs, Function.comp_def]

theorem tokens_glyph (c : Nat) (rest : List Glyph) :
    tokens none (glyph c :: rest) = (tokens none rest).map (.atom (.symbol c) :: ·) := by
  have bare := isSign_glyph c
  have value := value_glyph c
  generalize glyph c = g at bare value
  rw [tokens.eq_def]
  split <;> simp_all [Glyph.isSign]

theorem tokens_one {items : List ClassItem} {c : Nat} {next : Glyph} (rest : List Glyph)
    (h : next ≠ .char '-') :
    tokens (some items) (glyph c :: next :: rest) =
      tokens (some (.one c :: items)) (next :: rest) := by
  have bare := glyph_ne_char c (d := ']') (by decide)
  have value := value_glyph c
  generalize glyph c = g at bare value
  rw [tokens.eq_def]
  split <;> simp_all

theorem tokens_range {items : List ClassItem} {first last : Nat} (h : first ≤ last)
    (rest : List Glyph) :
    tokens (some items) (glyph first :: .char '-' :: glyph last :: rest) =
      tokens (some (.range first last :: items)) rest := by
  have bareFirst := glyph_ne_char first (d := ']') (by decide)
  have bareLast := glyph_ne_char last (d := ']') (by decide)
  have valueFirst := value_glyph first
  have valueLast := value_glyph last
  generalize glyph first = f at bareFirst valueFirst
  generalize glyph last = l at bareLast valueLast
  rw [tokens.eq_def]
  split <;> simp_all
  next other _ same => exact absurd same.2.symm (other l rest)

theorem tokens_items {flavor : Flavor} {items : List ClassItem}
    (h : ∀ i ∈ items, i.Writable flavor) (before : List ClassItem)
    (ne : before ++ items ≠ []) (rest : List Glyph) :
    tokens (some before) (items.flatMap itemGlyphs ++ .char ']' :: rest) =
      (tokens none rest).map (.atom (.oneOf (before.reverse ++ items)) :: ·) := by
  induction items generalizing before with
  | nil =>
    match before, ne with
    | item :: before, _ => simp [tokens]
  | cons i items ih =>
    have tail := fun before ne => ih (fun j hj => h j (List.mem_cons_of_mem i hj)) before ne
    cases i with
    | one c =>
      have step : tokens (some before)
          (glyph c :: (items.flatMap itemGlyphs ++ .char ']' :: rest)) =
          tokens (some (.one c :: before)) (items.flatMap itemGlyphs ++ .char ']' :: rest) := by
        cases items with
        | nil => exact tokens_one rest (by simp)
        | cons j items =>
          cases j with
          | one d => exact tokens_one _ (glyph_ne_char d (by decide))
          | range first last => exact tokens_one _ (glyph_ne_char first (by decide))
      rw [List.flatMap_cons, itemGlyphs, List.append_assoc, List.singleton_append, step,
        tail _ (by simp)]
      simp
    | range first last =>
      have head := h _ List.mem_cons_self
      rw [List.flatMap_cons, itemGlyphs, List.append_assoc]
      simp only [List.cons_append, List.nil_append]
      rw [tokens_range head.2.2, tail _ (by simp)]
      simp

theorem tokens_asGlyphs {flavor : Flavor} {p : Pattern} (h : p.Writable flavor)
    (rest : List Glyph) :
    tokens none (p.asGlyphs ++ rest) = (tokens none rest).map (p.asTokens ++ ·) := by
  induction p generalizing rest with
  | empty => simp [asGlyphs, asTokens]
  | symbol c => exact tokens_glyph c rest
  | oneOf items =>
    obtain ⟨ne, h⟩ := h
    have opened : tokens none (.char '[' :: (items.flatMap itemGlyphs ++ .char ']' :: rest)) =
        tokens (some []) (items.flatMap itemGlyphs ++ .char ']' :: rest) := by
      match items, ne with
      | .one c :: items, _ =>
        have bare := glyph_ne_char c (d := '^') (by decide)
        rw [List.flatMap_cons, itemGlyphs]
        rw [tokens.eq_def]
        split <;> simp_all
      | .range first last :: items, _ =>
        have bare := glyph_ne_char first (d := '^') (by decide)
        rw [List.flatMap_cons, itemGlyphs]
        rw [tokens.eq_def]
        split <;> simp_all
    simp only [asGlyphs, List.cons_append, List.append_assoc, List.nil_append]
    rw [opened, tokens_items h [] (by simpa using ne)]
    simp [asTokens]
  | seq p q hp hq =>
    rw [asGlyphs, List.append_assoc, hp h.1, hq h.2]
    simp [asTokens, Function.comp_def]
  | alt p q hp hq =>
    have bar : ∀ rest, tokens none (.char '|' :: rest) = (tokens none rest).map (.bar :: ·) :=
      fun _ => by rw [tokens]
    rw [asGlyphs, List.append_assoc, hp h.1, List.cons_append, bar, hq h.2]
    simp [asTokens, Function.comp_def]
  | group p hp =>
    have closing : tokens none (.char ')' :: rest) = (tokens none rest).map (.closing :: ·) := by
      rw [tokens]
    simp only [asGlyphs, List.cons_append, List.append_assoc]
    rw [tokens, hp h, List.nil_append, closing]
    simp [asTokens, Function.comp_def]
  | opt p hp =>
    have question : tokens none (.char '?' :: rest) = (tokens none rest).map (.question :: ·) := by
      rw [tokens]
    rw [asGlyphs, List.append_assoc, hp h, List.singleton_append, question]
    simp [asTokens, Function.comp_def]
  | notAhead p hp =>
    have closing : tokens none (.char ')' :: rest) = (tokens none rest).map (.closing :: ·) := by
      rw [tokens]
    simp only [asGlyphs, List.cons_append, List.append_assoc]
    rw [tokens, hp h, List.nil_append, closing]
    simp [asTokens, Function.comp_def]

theorem writable_concat {flavor : Flavor} {ps : List Pattern}
    (h : ∀ p ∈ ps, p.Writable flavor) : (concat ps).Writable flavor := by
  induction ps with
  | nil => trivial
  | cons p ps ih =>
    have head := h p List.mem_cons_self
    have tail := ih fun q hq => h q (List.mem_cons_of_mem p hq)
    cases ps with
    | nil => exact head
    | cons q ps => exact ⟨head, tail⟩

theorem writable_anyOf {flavor : Flavor} {ps : List Pattern}
    (h : ∀ p ∈ ps, p.Writable flavor) : (anyOf ps).Writable flavor := by
  induction ps with
  | nil => trivial
  | cons p ps ih =>
    have head := h p List.mem_cons_self
    have tail := ih fun q hq => h q (List.mem_cons_of_mem p hq)
    cases ps with
    | nil => exact head
    | cons q ps => exact ⟨head, tail⟩

theorem writable_choice {flavor : Flavor} {branches : List (List Pattern)}
    (h : ∀ b ∈ branches, ∀ p ∈ b, p.Writable flavor) : (choice branches).Writable flavor := by
  apply writable_anyOf
  intro p hp
  obtain ⟨b, hb, rfl⟩ := List.mem_map.1 hp
  exact writable_concat (h b hb)

theorem Part.writable {flavor : Flavor} {p : Pattern} (h : Part flavor p) : p.Writable flavor := by
  induction h with
  | symbol h => exact h
  | oneOf ne h => exact ⟨ne, h⟩
  | group _ _ ih => exact writable_choice ih
  | opt _ _ ih => exact ih
  | notAhead _ _ ih => exact writable_choice ih

/-- The tokens add the pattern to the level that is being read. -/
def Assembles (p : Pattern) : Prop := ∀ level outer rest,
  assemble level outer (p.asTokens ++ rest) = assemble (level.add p) outer rest

theorem assemble_concat {ps : List Pattern} (h : ∀ p ∈ ps, p.Assembles)
    (alternatives parts : List Pattern) (outer : List (Level × Bool)) (rest : List Token) :
    assemble ⟨alternatives, parts⟩ outer ((concat ps).asTokens ++ rest) =
      assemble ⟨alternatives, ps.reverse ++ parts⟩ outer rest := by
  induction ps generalizing parts with
  | nil => rfl
  | cons p ps ih =>
    have head := h p List.mem_cons_self
    have tail := ih (fun q hq => h q (List.mem_cons_of_mem p hq)) (p :: parts)
    have split : (concat (p :: ps)).asTokens = p.asTokens ++ (concat ps).asTokens := by
      cases ps with
      | nil => simp [concat, asTokens]
      | cons q ps => rfl
    rw [split, List.append_assoc, head, Level.add, tail]
    simp

theorem assemble_choice {branches : List (List Pattern)} (ne : branches ≠ [])
    (h : ∀ b ∈ branches, ∀ p ∈ b, p.Assembles) (alternatives : List Pattern) :
    ∃ level : Level,
      level.close = anyOf (alternatives.reverse ++ branches.map concat) ∧
      ∀ outer rest, assemble ⟨alternatives, []⟩ outer ((choice branches).asTokens ++ rest) =
        assemble level outer rest := by
  induction branches generalizing alternatives with
  | nil => exact absurd rfl ne
  | cons b branches ih =>
    have head := h b List.mem_cons_self
    cases branches with
    | nil =>
      refine ⟨⟨alternatives, b.reverse⟩, ?_, ?_⟩
      · simp [Level.close]
      · intro outer rest
        rw [show choice [b] = concat b from rfl, assemble_concat head, List.append_nil]
    | cons c branches =>
      obtain ⟨level, close, tail⟩ := ih (by simp)
        (fun d hd => h d (List.mem_cons_of_mem b hd)) (concat b :: alternatives)
      refine ⟨level, by simpa using close, ?_⟩
      intro outer rest
      have split : (choice (b :: c :: branches)).asTokens =
          (concat b).asTokens ++ .bar :: (choice (c :: branches)).asTokens := rfl
      rw [split, List.append_assoc, assemble_concat head, List.cons_append, assemble,
        List.append_nil, List.reverse_reverse, tail]

theorem Part.assembles {flavor : Flavor} {p : Pattern} (h : Part flavor p) : p.Assembles := by
  induction h with
  | symbol _ =>
    intro level outer rest
    rw [asTokens, List.singleton_append, assemble]
  | oneOf _ _ =>
    intro level outer rest
    rw [asTokens, List.singleton_append, assemble]
  | group ne _ ih =>
    intro level outer rest
    obtain ⟨inner, close, assembled⟩ := assemble_choice ne ih []
    rw [asTokens, List.append_assoc, List.cons_append, assemble, Level.start, assembled,
      List.singleton_append, assemble, close]
    rfl
  | opt quantifiable _ ih =>
    intro level outer rest
    rw [asTokens, List.append_assoc, ih, List.singleton_append]
    simp [assemble, Level.add, quantifiable]
  | notAhead ne _ ih =>
    intro level outer rest
    obtain ⟨inner, close, assembled⟩ := assemble_choice ne ih []
    rw [asTokens, List.append_assoc, List.cons_append, assemble, Level.start, assembled,
      List.singleton_append, assemble, close]
    rfl

/-- What is written is read back as it was. -/
theorem read_source {flavor : Flavor} {branches : List (List Pattern)} (ne : branches ≠ [])
    (h : ∀ b ∈ branches, ∀ p ∈ b, Part flavor p) :
    read ((choice branches).source flavor) = some (choice branches) := by
  have writable : (choice branches).Writable flavor :=
    writable_choice fun b hb p hp => (h b hb p hp).writable
  obtain ⟨level, close, assembled⟩ :=
    assemble_choice ne (fun b hb p hp => (h b hb p hp).assembles) []
  have glyphed := glyphs_source writable []
  have tokened := tokens_asGlyphs writable []
  simp only [List.append_nil] at glyphed tokened
  have all := assembled [] []
  rw [List.append_nil, assemble, close] at all
  simp [read, glyphed, tokened, glyphs, tokens, Level.start, all]
  rfl

theorem Part.read_source {flavor : Flavor} {p : Pattern} (h : p.Part flavor) :
    read (p.source flavor) = some p := by
  have alone : ∀ b ∈ [[p]], ∀ q ∈ b, q.Part flavor := by simpa using h
  exact Pattern.read_source (List.cons_ne_nil [p] []) alone

end Pattern
end Pictograph
