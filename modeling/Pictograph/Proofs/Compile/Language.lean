import Pictograph.Proofs.Classify.Recognised
import Pictograph.Proofs.Compile.Success
import Pictograph.Proofs.Pattern.Found

/-!
The language of a compiled pattern. The alternative of a class spells the words of the class, so the
pattern of a table, written out and read back, matches what the table recognises and nothing else.
-/

namespace Pictograph

theorem Text.ofChars_injective : Function.Injective Text.ofChars :=
  List.map_injective_iff.2 fun _ _ => Char.toNat_inj.1

namespace Flavor

variable {flavor : Flavor} {K L : Language Char}

def image (flavor : Flavor) (L : Language Char) : Language Nat :=
  {w | ∃ p ∈ L, flavor.encode (Text.ofChars p) = w}

theorem mem_image {w : Text} :
    w ∈ flavor.image L ↔ ∃ p ∈ L, flavor.encode (Text.ofChars p) = w := Iff.rfl

theorem mem_image_points {t : Text} :
    t ∈ points.image L ↔ ∃ w ∈ L, t = Text.ofChars w := by
  simp only [mem_image, encode_points, eq_comm]

theorem ofChars_mem_image {w : List Char} : Text.ofChars w ∈ points.image L ↔ w ∈ L := by
  rw [mem_image_points]
  constructor
  · intro h
    obtain ⟨v, hv, e⟩ := h
    rwa [Text.ofChars_injective e]
  · intro h
    exact ⟨w, h, rfl⟩

theorem exists_append_of_mem_image {v : List Char} {x : Text}
    (h : Text.ofChars v ++ x ∈ points.image L) : ∃ u, x = Text.ofChars u ∧ v ++ u ∈ L := by
  obtain ⟨w, hw, e⟩ := mem_image_points.1 h
  obtain ⟨v', u, rfl, ev, eu⟩ := List.map_eq_append_iff.1 e.symm
  rw [Text.ofChars_injective ev] at hw
  exact ⟨u, eu.symm, hw⟩

theorem encode_append (flavor : Flavor) (t u : Text) :
    flavor.encode (t ++ u) = flavor.encode t ++ flavor.encode u := by
  unfold encode
  split
  · exact List.flatMap_append
  · rfl

theorem image_add : flavor.image (K + L) = flavor.image K + flavor.image L := by
  ext w
  simp only [mem_image, Language.mem_add, or_and_right, exists_or]

theorem image_mul : flavor.image (K * L) = flavor.image K * flavor.image L := by
  have append : ∀ p q, flavor.encode (Text.ofChars (p ++ q)) =
      flavor.encode (Text.ofChars p) ++ flavor.encode (Text.ofChars q) := by
    intro p q
    rw [Text.ofChars, List.map_append, encode_append]
    rfl
  ext w
  simp only [mem_image, Language.mem_mul]
  constructor
  · intro h
    obtain ⟨_, ⟨p, hp, q, hq, rfl⟩, rfl⟩ := h
    exact ⟨_, ⟨p, hp, rfl⟩, _, ⟨q, hq, rfl⟩, (append p q).symm⟩
  · intro h
    obtain ⟨_, ⟨p, hp, rfl⟩, _, ⟨q, hq, rfl⟩, rfl⟩ := h
    exact ⟨_, ⟨p, hp, q, hq, rfl⟩, append p q⟩

theorem image_one : flavor.image 1 = 1 := by
  have empty : flavor.encode [] = [] := by
    unfold encode
    split <;> rfl
  ext w
  simp only [mem_image, Language.mem_one, exists_eq_left, Text.ofChars, List.map_nil, empty]
  exact eq_comm

theorem image_zero : flavor.image 0 = 0 := by
  ext w
  simp [mem_image, Language.notMem_zero]

theorem image_singles (cs : List Char) :
    encodings flavor (cs.map fun c => ⟨[c], true⟩) = flavor.image (anyChar cs) := by
  ext w
  rw [mem_encodings, mem_image]
  constructor
  · intro h
    obtain ⟨s, hs, rfl⟩ := h
    obtain ⟨c, hc, rfl⟩ := List.mem_map.1 hs
    exact ⟨[c], ⟨c, hc, rfl⟩, rfl⟩
  · intro h
    obtain ⟨_, ⟨c, hc, rfl⟩, rfl⟩ := h
    exact ⟨_, List.mem_map_of_mem hc, rfl⟩

theorem image_contents (placed : List Placed) (c : Class) :
    flavor.image (contents placed c) = encodings flavor (sequencesOf placed c) := by
  ext w
  rw [mem_encodings, mem_image]
  constructor
  · intro h
    obtain ⟨_, ⟨s, hs, rfl⟩, rfl⟩ := h
    exact ⟨s, hs, rfl⟩
  · intro h
    obtain ⟨s, hs, rfl⟩ := h
    exact ⟨_, ⟨s, hs, rfl⟩, rfl⟩

end Flavor

theorem fragment_symbol (flavor : Flavor) {c : Char} (plain : c.toNat < 0x10000) :
    Fragment flavor (flavor.image (anyChar [c])) (.symbol c.toNat) := by
  have units : flavor.encode [c.toNat] = [c.toNat] := by
    simp [Flavor.encode, Text.splitPairs, Text.units, plain]
  have word : flavor.image (anyChar [c]) = {[c.toNat]} := by
    ext w
    simp [Flavor.mem_image, Text.ofChars, units, eq_comm]
  refine ⟨.symbol ⟨by omega, fun _ => plain⟩, rfl, ?_, (Pattern.single_symbol _).greedy⟩
  rw [word]
  exact Pattern.spells_symbol _

namespace Auxiliary

structure Sound (flavor : Flavor) (a : Auxiliary) : Prop where
  zwj : Fragment flavor (flavor.image (anyChar [Pictograph.zwj])) a.zwj
  vs15 : a.vs15 = .symbol Pictograph.vs15.toNat
  vs16 : Fragment flavor (flavor.image (anyChar [Pictograph.vs16])) a.vs16
  keycap : Fragment flavor (flavor.image (anyChar [Pictograph.keycap])) a.keycap
  skinTone : Fragment flavor (flavor.image (anyChar skinTones)) a.skinTone
  skinToneOrVs16 :
    Fragment flavor (flavor.image (anyChar (Pictograph.vs16 :: skinTones))) a.skinToneOrVs16
  genderSign : Fragment flavor (flavor.image (anyChar [femaleSign, maleSign])) a.genderSign
  manWomanPerson : Fragment flavor (flavor.image (anyChar [man, woman, person])) a.manWomanPerson

theorem exists_oneOf (flavor : Flavor) {cs : List Char} (ne : cs ≠ []) :
    ∃ p, oneOf flavor cs = .ok p ∧ Fragment flavor (flavor.image (anyChar cs)) p := by
  have some : (cs.map fun c => (⟨[c], true⟩ : Sequence)) ≠ [] := by simpa using ne
  obtain ⟨p, ok, fragment⟩ := patternOf_numbers flavor [] some (by simp)
  rw [List.map_map] at ok
  rw [Flavor.image_singles] at fragment
  exact ⟨p, ok, fragment⟩

theorem exists_of (flavor : Flavor) : ∃ a, of flavor = .ok a ∧ a.Sound flavor := by
  obtain ⟨tone, toneOk, hTone⟩ := exists_oneOf flavor (by decide : skinTones ≠ [])
  obtain ⟨both, bothOk, hBoth⟩ := exists_oneOf flavor (List.cons_ne_nil Pictograph.vs16 skinTones)
  obtain ⟨sign, signOk, hSign⟩ := exists_oneOf flavor (List.cons_ne_nil femaleSign [maleSign])
  obtain ⟨head, headOk, hHead⟩ := exists_oneOf flavor (List.cons_ne_nil man [woman, person])
  have sound : Sound flavor {
      zwj := .symbol Pictograph.zwj.toNat
      vs15 := .symbol Pictograph.vs15.toNat
      vs16 := .symbol Pictograph.vs16.toNat
      keycap := .symbol Pictograph.keycap.toNat
      skinTone := tone
      skinToneOrVs16 := both
      genderSign := sign
      manWomanPerson := head } :=
    ⟨fragment_symbol flavor (by decide), rfl, fragment_symbol flavor (by decide),
      fragment_symbol flavor (by decide), hTone, hBoth, hSign, hHead⟩
  refine ⟨_, ?_, sound⟩
  rw [of, toneOk, bothOk, signOk, headOk]
  rfl

theorem sound_of {flavor : Flavor} {a : Auxiliary} (h : of flavor = .ok a) : a.Sound flavor := by
  obtain ⟨a', ok, sound⟩ := exists_of flavor
  rw [h] at ok
  rwa [Except.ok.inj ok]

end Auxiliary

namespace Pattern

variable {flavor : Flavor} {a : Auxiliary} {c : Class} {b : Pattern}
  {sequences : Language Char}

theorem part_around (sound : a.Sound flavor) (h : Fragment flavor (flavor.image sequences) b) :
    ∀ p ∈ around a c b, p.Part flavor := by
  have body := h.part
  have tone := Part.opt sound.skinTone.quantifiable sound.skinTone.part
  have both := Part.opt sound.skinToneOrVs16.quantifiable sound.skinToneOrVs16.part
  have selector := Part.opt sound.vs16.quantifiable sound.vs16.part
  have ahead : Part flavor (.group (.alt a.vs16 (.notAhead a.vs15))) := by
    have look : Part flavor (.notAhead (choice [[a.vs15]])) := by
      refine .notAhead (by simp) ?_
      simp only [List.mem_singleton, forall_eq, sound.vs15]
      exact .symbol ⟨by decide, fun _ => by decide⟩
    have either : Part flavor
        (.group (choice [[a.vs16], [.notAhead (choice [[a.vs15]])]])) := by
      refine .group (by simp) ?_
      simp only [List.mem_cons, List.not_mem_nil, or_false, forall_eq_or_imp, forall_eq]
      exact ⟨sound.vs16.part, look⟩
    exact either
  cases c <;>
    simp only [around, List.mem_cons, List.not_mem_nil, or_false, forall_eq_or_imp, forall_eq]
  case leadingGender => exact ⟨sound.manWomanPerson.part, tone, sound.zwj.part, body⟩
  case trailingGenderWithVariant =>
    exact ⟨body, both, sound.zwj.part, sound.genderSign.part, selector⟩
  case trailingGender => exact ⟨body, tone, sound.zwj.part, sound.genderSign.part, selector⟩
  case keycap => exact ⟨body, selector, sound.keycap.part⟩
  case variantDiversity => exact ⟨body, both⟩
  case diversity => exact ⟨body, tone⟩
  case textDefault => exact ⟨body, sound.vs16.part⟩
  case variant => exact ⟨body, ahead⟩
  all_goals exact body

theorem spells_around (sound : a.Sound flavor) (h : Fragment flavor (flavor.image sequences) b) :
    (concat (around a c b)).SpellsBefore fun r => flavor.image (c.wordsBefore sequences r) := by
  have body := h.spells
  have tone := sound.skinTone.spells.opt
  have both := sound.skinToneOrVs16.spells.opt
  have joiner := sound.zwj.spells
  have selector := sound.vs16.spells.opt
  have sign := joiner.concat_cons (sound.genderSign.spells.concat_cons selector.concat_last)
  have whole : ∀ {p : Pattern}, p.Spells (flavor.image (c.words sequences)) → c ≠ .variant →
      p.SpellsBefore fun r => flavor.image (c.wordsBefore sequences r) := by
    intro p hp ne
    exact hp.congr fun r => by simp [Class.wordsBefore, ne]
  cases c with
  | multiDiversity => exact whole body (by decide)
  | joined => exact whole body (by decide)
  | normal => exact whole body (by decide)
  | leadingGender =>
    have spells := sound.manWomanPerson.spells.concat_cons
      (tone.concat_cons (joiner.concat_cons body.concat_last))
    refine whole (spells.congr fun r => ?_) (by decide)
    simp only [Class.words, mul_assoc, Flavor.image_mul, Flavor.image_add, Flavor.image_one]
  | trailingGenderWithVariant =>
    refine whole ((body.concat_cons (both.concat_cons sign)).congr fun r => ?_) (by decide)
    simp only [Class.words, mul_assoc, Flavor.image_mul, Flavor.image_add, Flavor.image_one]
  | trailingGender =>
    refine whole ((body.concat_cons (tone.concat_cons sign)).congr fun r => ?_) (by decide)
    simp only [Class.words, mul_assoc, Flavor.image_mul, Flavor.image_add, Flavor.image_one]
  | keycap =>
    have spells := body.concat_cons (selector.concat_cons sound.keycap.spells.concat_last)
    refine whole (spells.congr fun r => ?_) (by decide)
    simp only [Class.words, mul_assoc, Flavor.image_mul, Flavor.image_add, Flavor.image_one]
  | variantDiversity =>
    refine whole ((body.concat_cons both.concat_last).congr fun r => ?_) (by decide)
    simp only [Class.words, Flavor.image_mul, Flavor.image_add, Flavor.image_one]
  | diversity =>
    refine whole ((body.concat_cons tone.concat_last).congr fun r => ?_) (by decide)
    simp only [Class.words, Flavor.image_mul, Flavor.image_add, Flavor.image_one]
  | textDefault =>
    refine whole ((body.concat_cons sound.vs16.spells.concat_last).congr fun r => ?_) (by decide)
    simp only [Class.words, Flavor.image_mul]
  | variant =>
    have look : (notAhead a.vs15).SpellsBefore fun r =>
        if r.head? = some vs15.toNat then 0 else 1 := by
      rw [sound.vs15]
      exact spellsBefore_notAhead _
    have ahead := (sound.vs16.spells.alt look).group
    refine (body.concat_cons ahead.concat_last).congr fun r => ?_
    by_cases plain : r.head? = some vs15.toNat
    · simp [Class.wordsBefore, plain, Flavor.image_mul]
    · simp [Class.wordsBefore, Class.words, plain, Flavor.image_mul, Flavor.image_add,
        Flavor.image_one]

end Pattern

namespace Compile

variable {flavor : Flavor} {placed : List Placed} {a : Auxiliary}

def restsOf (flavor : Flavor) (placed : List Placed) (a : Auxiliary) (c : Class) (t : Text) :
    List Text :=
  (alternative flavor placed a c).elim [] (·.rests t)

theorem mem_restsOf (sound : a.Sound flavor) (full : ∀ p ∈ placed, p.sequence.points ≠ [])
    {c : Class} {w r : Text} : r ∈ restsOf flavor placed a c (w ++ r) ↔
      w ∈ flavor.image (c.wordsBefore (contents placed c) r) := by
  unfold restsOf alternative
  cases e : body flavor placed c with
  | none =>
    have empty : sequencesOf placed c = [] := by
      by_contra ne
      have some := body_isSome flavor ne (points_ne_nil_iff.2 full c)
      rw [e] at some
      cases some
    have nothing : contents placed c = 0 := by
      ext p
      simp [mem_contents, empty]
    rw [nothing, Class.wordsBefore_zero, Flavor.image_zero]
    simp
  | some b =>
    have fragment := (fragment_body e).2
    rw [← Flavor.image_contents] at fragment
    exact Pattern.spells_around sound fragment w r

theorem rests_assembled (ne : placed ≠ []) (full : ∀ p ∈ placed, p.sequence.points ≠ [])
    (t : Text) : (assembled flavor placed a).pattern.rests t =
      Class.all.flatMap fun c => restsOf flavor placed a c t := by
  have some : Class.all.filterMap (alternative flavor placed a) ≠ [] := by
    obtain ⟨p, hp⟩ := List.exists_mem_of_ne_nil placed ne
    have filled : sequencesOf placed p.cls ≠ [] :=
      List.ne_nil_of_mem (mem_sequencesOf.2 hp : p.sequence ∈ sequencesOf placed p.cls)
    obtain ⟨b, hb⟩ := Option.isSome_iff_exists.1
      (body_isSome flavor filled (points_ne_nil_iff.2 full p.cls))
    have made : alternative flavor placed a p.cls = .some (.concat (Pattern.around a p.cls b)) := by
      rw [alternative, hb]
      rfl
    exact List.ne_nil_of_mem (List.mem_filterMap.2 ⟨p.cls, Class.mem_all p.cls, made⟩)
  rw [assembled, Pattern.rests, Pattern.rests_anyOf some]
  generalize Class.all = classes
  induction classes with
  | nil => rfl
  | cons c classes ih =>
    rw [List.flatMap_cons, ← ih, restsOf]
    cases e : alternative flavor placed a c with
    | none => simp [e]
    | some p => simp [e]

/-- The pattern of a table spells the words of its classes. -/
theorem spells_assembled (sound : a.Sound flavor) (ne : placed ≠ [])
    (full : ∀ p ∈ placed, p.sequence.points ≠ []) :
    (assembled flavor placed a).pattern.SpellsBefore fun r =>
      flavor.image (recognisedBefore placed r) := by
  intro w r
  rw [rests_assembled ne full, List.mem_flatMap]
  simp only [mem_restsOf sound full, Class.mem_all, true_and, Flavor.mem_image]
  constructor
  · intro h
    obtain ⟨c, p, hp, e⟩ := h
    exact ⟨p, ⟨c, hp⟩, e⟩
  · intro h
    obtain ⟨p, ⟨c, hp⟩, e⟩ := h
    exact ⟨c, p, hp, e⟩

theorem exists_of_mem_rests (sound : a.Sound flavor) (ne : placed ≠ [])
    (full : ∀ p ∈ placed, p.sequence.points ≠ []) {t r : Text}
    (hr : r ∈ (assembled flavor placed a).pattern.rests t) :
    ∃ w, w ≠ [] ∧ t = flavor.encode (Text.ofChars w) ++ r := by
  obtain ⟨_, ⟨w, ⟨c, hw⟩, rfl⟩, split⟩ := (spells_assembled sound ne full).mem_rests.1 hr
  refine ⟨w, ?_, split⟩
  rintro rfl
  obtain ⟨s, hs, empty⟩ := Class.nil_mem_of_mem_wordsBefore hw
  exact full _ (mem_sequencesOf.1 hs) empty

theorem part_assembled (sound : a.Sound flavor) :
    (assembled flavor placed a).pattern.Part flavor := by
  let branches := Class.all.filterMap fun c => (body flavor placed c).map (Pattern.around a c)
  have concats : branches.map Pattern.concat =
      Class.all.filterMap (alternative flavor placed a) := by
    rw [List.map_filterMap]
    simp only [Option.map_map]
    rfl
  have parts : ∀ b ∈ branches, ∀ p ∈ b, p.Part flavor := by
    intro b hb
    obtain ⟨c, -, e⟩ := List.mem_filterMap.1 hb
    obtain ⟨b', hb', rfl⟩ := Option.map_eq_some_iff.1 e
    have fragment := (fragment_body hb').2
    rw [← Flavor.image_contents] at fragment
    exact Pattern.part_around sound fragment
  rw [assembled, ← concats]
  by_cases none : branches = []
  · have nothing : Pattern.Part flavor (.group (Pattern.choice [[]])) :=
      .group (by simp) (by simp)
    rw [none]
    exact nothing
  · exact .group none parts

theorem read_source_assembled (sound : a.Sound flavor) :
    Pattern.read (assembled flavor placed a).source = some (assembled flavor placed a).pattern := by
  have parts : ∀ b ∈ [[(assembled flavor placed a).pattern]], ∀ p ∈ b, p.Part flavor := by
    simpa using part_assembled sound
  exact Pattern.read_source (by simp) parts

theorem executable_assembled (sound : a.Sound .points) :
    (assembled .points placed a).executable = .ok (assembled .points placed a).pattern := by
  have flavor : (assembled .points placed a).flavor = .points := rfl
  rw [CompiledPattern.executable, flavor, if_pos rfl, read_source_assembled sound]

end Compile

variable {settings : CompilerSettings} {items : List TableItem} {c : CompiledPattern}

/-- The pattern of a table with an entry, read back from its source, spells the words of the classes
of the table. -/
theorem exists_executable {entries : List Entry} (h : (compile settings items).result = .ok c)
    (points : settings.flavor = .points) (he : tableEntries items = .ok entries)
    (ne : entries ≠ []) :
    ∃ placed p, classify entries = .ok placed ∧ (∀ p ∈ placed, p.sequence.points ≠ []) ∧
      c.executable = .ok p ∧
      p.SpellsBefore fun r => Flavor.points.image (recognisedBefore placed r) := by
  obtain ⟨entries', placed, a, entriesOk, sorted, auxiliary, -, full, rfl⟩ :=
    Compile.compile_eq_ok_iff.1 h
  rw [he] at entriesOk
  cases entriesOk
  rw [points] at auxiliary ⊢
  have sound := Auxiliary.sound_of auxiliary
  exact ⟨placed, _, sorted, full, Compile.executable_assembled sound,
    Compile.spells_assembled sound (placed_ne_nil sorted ne) full⟩

theorem fullMatches_iff_of_spells {placed : List Placed} {p : Pattern}
    (spells : p.SpellsBefore fun r => Flavor.points.image (recognisedBefore placed r)) {t : Text} :
    p.fullMatches t = true ↔ t ∈ Flavor.points.image (recognised placed) := by
  rw [Pattern.fullMatches_iff, ← recognisedBefore_nil, ← spells t [], List.append_nil]

/-- A compiled pattern, written out and read back, matches exactly the words of its classes: as a
whole, at every place of every text, and wherever a search finds something. -/
theorem compiled_language (h : (compile settings items).result = .ok c)
    (points : settings.flavor = .points) (ne : tableEntries items ≠ .ok []) :
    ∃ entries placed p, tableEntries items = .ok entries ∧ classify entries = .ok placed ∧
      c.executable = .ok p ∧
      (∀ t, p.fullMatches t = true ↔ ∃ w ∈ recognised placed, t = Text.ofChars w) ∧
      (∀ (t : Text) (n : Nat), p.fitsAt (t.drop n) = true ↔
        ∃ w r, t.drop n = Text.ofChars w ++ r ∧ w ∈ recognisedBefore placed r) ∧
      ∀ (t : Text), ∀ f ∈ p.find t, ∃ w r, f.text = Text.ofChars w ∧
        t.drop f.start = f.text ++ r ∧ w ∈ recognisedBefore placed r := by
  obtain ⟨entries, _, _, entriesOk, -⟩ := Compile.compile_eq_ok_iff.1 h
  have some : entries ≠ [] := fun empty => ne (empty ▸ entriesOk)
  obtain ⟨placed, p, sorted, -, executable, spells⟩ := exists_executable h points entriesOk some
  refine ⟨entries, placed, p, entriesOk, sorted, executable, ?_, ?_, ?_⟩
  · intro t
    rw [fullMatches_iff_of_spells spells, Flavor.mem_image_points]
  · intro t n
    rw [Pattern.fitsAt_eq]
    constructor
    · intro fits
      obtain ⟨r, hr⟩ := List.exists_mem_of_ne_nil (p.rests (t.drop n)) (by simpa using fits)
      obtain ⟨_, ⟨w, hw, rfl⟩, split⟩ := spells.mem_rests.1 hr
      exact ⟨w, r, split, hw⟩
    · intro fits
      obtain ⟨w, r, split, hw⟩ := fits
      have hr := spells.mem_rests.2 ⟨_, ⟨w, hw, rfl⟩, split⟩
      simpa using List.ne_nil_of_mem hr
  · intro t f hf
    obtain ⟨r, -, split, takes⟩ := Pattern.mem_find hf
    obtain ⟨w, hw, e⟩ := (spells f.text r).1 takes.mem_rests
    exact ⟨w, r, e.symm, split, hw⟩

def hearts : List Entry :=
  [.bare ['❤', vs16] .variant, .bare ['❤', vs16, zwj, '🔥'] .normal]

theorem classify_hearts : classify hearts =
    .ok [⟨.joined, ⟨['❤', vs16, zwj, '🔥'], true⟩⟩, ⟨.variant, ⟨['❤'], true⟩⟩] := by decide

theorem compiled_language_hearts :
    ∃ c p, (compile ⟨.points, false⟩ (hearts.map .entry)).result = .ok c ∧
      c.executable = .ok p ∧ ∀ t, p.fullMatches t = true ↔
        ∃ w ∈ recognised [⟨.joined, ⟨['❤', vs16, zwj, '🔥'], true⟩⟩, ⟨.variant, ⟨['❤'], true⟩⟩],
          t = Text.ofChars w := by
  have entries := tableEntries_map_entry hearts
  have sorted : classify hearts =
      .ok [⟨.joined, ⟨['❤', vs16, zwj, '🔥'], true⟩⟩, ⟨.variant, ⟨['❤'], true⟩⟩] := by decide
  obtain ⟨a, auxiliary, -⟩ := Auxiliary.exists_of .points
  have compiled : (compile ⟨.points, false⟩ (hearts.map .entry)).result =
      .ok (Compile.assembled .points _ a) :=
    Compile.compile_eq_ok_iff.2 ⟨_, _, a, entries, sorted, auxiliary, by simp, by decide, rfl⟩
  obtain ⟨_, placed, p, entriesOk, placedOk, executable, whole, -⟩ :=
    compiled_language compiled rfl (by rw [entries]; decide)
  rw [entries] at entriesOk
  cases entriesOk
  rw [sorted] at placedOk
  cases placedOk
  exact ⟨_, p, compiled, executable, whole⟩

end Pictograph
