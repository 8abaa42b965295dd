import Pictograph.Decorate.Basic
import Pictograph.Proofs.Surrogates

/-!
Keys as names. A key names one sequence, and every text that is read as a key has the key of its
sequence for a normal form. The key of a match names what is left of it without stray selectors.
-/

namespace Pictograph

open Text

namespace Sequence

variable {s r : Sequence} {shown : Bool} {key : Text}

theorem ofKey_eq_ok_iff : ofKey key shown = .ok s ↔
    fields 0x2D (trim key) ≠ [] ∧ readParts (fields 0x2D (trim key)) = .ok s.points ∧
      s.shown = shown := by
  cases parts : fields 0x2D (trim key) with
  | nil => simp [ofKey, parts, throw, throwThe, MonadExceptOf.throw, bind, Except.bind]
  | cons part rest =>
    have step : ofKey key shown = (readParts (part :: rest)).map fun points => ⟨points, shown⟩ := by
      rw [ofKey, parts]
      cases readParts (part :: rest) <;> rfl
    rw [step]
    cases readParts (part :: rest) with
    | error fault => simp [Except.map]
    | ok points =>
      obtain ⟨points', shown'⟩ := s
      simp [Except.map, eq_comm]

theorem points_ne_nil_of_ofKey (h : ofKey key shown = .ok s) : s.points ≠ [] := by
  obtain ⟨some, read, -⟩ := ofKey_eq_ok_iff.1 h
  have length := (Traversal.mapM_eq_ok_iff.1 read).length_eq
  intro none
  rw [none, List.length_nil, List.length_eq_zero_iff] at length
  exact some length

theorem readParts_hex (cs : List Char) : readParts ((ofChars cs).map hex) = .ok cs := by
  rw [readParts, Traversal.mapM_eq_ok_iff, List.forall₂_map_left_iff, ofChars,
    List.forall₂_map_left_iff, List.forall₂_same]
  intro c _
  rw [Decimal.readInt_hex]
  exact scalar_toNat _ c

theorem ofKey_dashed {cs : List Char} (ne : cs ≠ []) (shown : Bool) :
    ofKey (dashed (ofChars cs)) shown = .ok ⟨cs, shown⟩ := by
  rw [ofKey_eq_ok_iff, trim_dashed, fields_dashed]
  exact ⟨by simpa [ofChars] using ne, readParts_hex cs, rfl⟩

/-- A key is read as the sequence that it names. -/
theorem ofKey_key (ne : s.points ≠ []) (shown : Bool) : ofKey s.key shown = .ok ⟨s.points, shown⟩ :=
  ofKey_dashed ne shown

theorem key_eq_iff : s.key = r.key ↔ s.points = r.points := by
  rw [key_eq_dashed, key_eq_dashed, dashed_injective.eq_iff]
  exact (List.map_injective_iff.2 fun c d => Char.toNat_inj.1).eq_iff

/-- Keys go back and forth. A sequence is read back from its key, with any flag, and from its text;
sequences are the same exactly if their keys are; and whatever text is read as a key, the key of
what is read is read as the same. -/
theorem keys_round_trip :
    (∀ (s : Sequence) (shown : Bool), s.points ≠ [] →
      ofKey s.key shown = .ok ⟨s.points, shown⟩ ∧ ∃ r, ofText s.text = .ok r ∧ r.same s = true) ∧
    (∀ s r : Sequence, s.same r = true ↔ s.key = r.key) ∧
    ∀ (key : Text) (shown : Bool) (s : Sequence),
      ofKey key shown = .ok s → ofKey s.key shown = .ok s := by
  refine ⟨fun s shown ne => ?_, fun s r => ?_, fun key shown s read => ?_⟩
  · exact ⟨ofKey_key ne shown, _, ofText_text s, same_iff.2 rfl⟩
  · rw [same_iff, key_eq_iff]
  · have flag : s.shown = shown := (ofKey_eq_ok_iff.1 read).2.2
    rw [ofKey_key (points_ne_nil_of_ofKey read), ← flag]

/-- Blanks, dashes, a sign, a mark, an underscore, large letters, zeros and digits of another
script. -/
theorem keys_round_trip_lenient :
    let key := codes " -+0x_1F46_8--200d- 00026\u0664\uff12 -\n"
    let s : Sequence := ⟨[man, zwj, '♂'], false⟩
    ofKey key false = .ok s ∧ s.key = codes "1f468-200d-2642" ∧ ofKey s.key false = .ok s ∧
      s.points ≠ [] ∧ ofKey s.key true = .ok ⟨s.points, true⟩ := by
  intro key s
  have read : ofKey key false = .ok s := by decide +kernel
  have some : s.points ≠ [] := by decide
  exact ⟨read, by decide, keys_round_trip.2.2 key false s read, some,
    (keys_round_trip.1 s true some).1⟩

end Sequence

/-- The characters of a match that its image is looked up by. -/
def essential (cs : List Char) : List Char := if zwj ∈ cs then cs else cs.filter (· ≠ vs16)

theorem essential_of_joined {cs : List Char} (joined : zwj ∈ cs) : essential cs = cs :=
  if_pos joined

theorem essential_of_not_joined {cs : List Char} (plain : zwj ∉ cs) :
    essential cs = cs.filter (· ≠ vs16) := if_neg plain

theorem essential_essential (cs : List Char) : essential (essential cs) = essential cs := by
  by_cases joined : zwj ∈ cs
  · rw [essential_of_joined joined, essential_of_joined joined]
  · have still : zwj ∉ cs.filter (· ≠ vs16) := fun joins => joined (List.mem_filter.1 joins).1
    rw [essential_of_not_joined joined, essential_of_not_joined still, List.filter_filter]
    simp

theorem mem_ofChars {c : Char} {cs : List Char} : c.toNat ∈ ofChars cs ↔ c ∈ cs :=
  List.mem_map_of_injective fun _ _ => Char.toNat_inj.1

theorem dropStray_ofChars (cs : List Char) :
    dropStray (ofChars cs) = ofChars (cs.filter (· ≠ vs16)) := by
  rw [dropStray, ofChars, List.filter_map, ofChars]
  refine congrArg (List.map Char.toNat) (List.filter_congr fun c _ => ?_)
  rw [Function.comp_apply, Bool.eq_iff_iff, bne_iff_ne, decide_eq_true_eq, ne_eq, Char.toNat_inj]

theorem canonicalKey_ofChars (cs : List Char) :
    canonicalKey (ofChars cs) = dashed (ofChars (essential cs)) := by
  have joins : (ofChars cs).contains zwj.toNat = true ↔ zwj ∈ cs := by
    rw [List.contains_iff_mem, mem_ofChars]
  rw [canonicalKey, ← dropStray]
  by_cases joined : zwj ∈ cs
  · rw [if_pos (joins.2 joined), essential_of_joined joined,
      codePoints_of_decodes (decodes_ofChars cs)]
  · rw [if_neg (mt joins.1 joined), essential_of_not_joined joined, dropStray_ofChars,
      codePoints_of_decodes (decodes_ofChars _)]

/-- The key of a match tells exactly its essential characters: it is read as the sequence of them,
and is the key of the sequence and of its text. -/
theorem canonicalKey_exact :
    (∀ a b : List Char, canonicalKey (ofChars a) = canonicalKey (ofChars b) ↔
      essential a = essential b) ∧
    ∀ (a : List Char) (shown : Bool), essential a ≠ [] → ∃ s : Sequence,
      Sequence.ofKey (canonicalKey (ofChars a)) shown = .ok s ∧ s.text = ofChars (essential a) ∧
      s.key = canonicalKey (ofChars a) ∧ canonicalKey s.text = canonicalKey (ofChars a) := by
  refine ⟨fun a b => ?_, fun a shown some => ?_⟩
  · rw [canonicalKey_ofChars, canonicalKey_ofChars, dashed_injective.eq_iff]
    exact (List.map_injective_iff.2 fun c d => Char.toNat_inj.1).eq_iff
  · rw [canonicalKey_ofChars]
    refine ⟨⟨essential a, shown⟩, Sequence.ofKey_dashed some shown, rfl, rfl, ?_⟩
    have again := canonicalKey_ofChars (essential a)
    rwa [essential_essential] at again

/-- A selector counts in a joined match and not in another one. -/
theorem canonicalKey_exact_selectors :
    let flag : List Char := ['🏳', vs16, zwj, '🌈']
    let bare : List Char := ['🏳', zwj, '🌈']
    let digit : List Char := ['3', vs16, keycap]
    canonicalKey (ofChars flag) ≠ canonicalKey (ofChars bare) ∧
      canonicalKey (ofChars digit) = canonicalKey (ofChars ['3', keycap]) ∧
      essential digit ≠ [] ∧
      ∃ s : Sequence, Sequence.ofKey (canonicalKey (ofChars digit)) true = .ok s ∧
        s.text = ofChars ['3', keycap] ∧ s.key = codes "33-20e3" := by
  intro flag bare digit
  have some : essential digit ≠ [] := by decide
  obtain ⟨s, read, text, key, -⟩ := canonicalKey_exact.2 digit true some
  refine ⟨fun same => ?_, (canonicalKey_exact.1 _ _).2 (by decide), some, s, read, text, ?_⟩
  · exact absurd ((canonicalKey_exact.1 _ _).1 same) (by decide)
  · rw [key]
    decide

end Pictograph
