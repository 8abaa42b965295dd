import Pictograph.Proofs.Literals
import Pictograph.Proofs.Planes

/-!
Patterns for sets of characters. The pattern made of the spans of a set is the one that grouping
makes of its members as sequences of one character each, but for a single character of two units,
which stands without a group. Either way it matches exactly the members, as the flavor writes them.
-/

namespace Pictograph

def numbersOf (chars : List Char) : List Int := chars.map fun c => (c.toNat : Int)

def Sequence.single (c : Char) : Sequence := ⟨[c], true⟩

def Flavor.IsUnit (flavor : Flavor) (c : Char) : Prop := flavor ≠ .utf16 ∨ ¬ IsFar c

variable {flavor : Flavor} {chars : List Char} {c : Char}

theorem mem_numbersOf : (c.toNat : Int) ∈ numbersOf chars ↔ c ∈ chars :=
  List.mem_map_of_injective fun _ _ => number_injective

theorem write_of_isUnit (unit : flavor.IsUnit c) : flavor.write [c] = [c.toNat] := by
  rw [Flavor.write_singleton]
  split
  · next utf16 => exact units_of_not_far (unit.resolve_left (not_not_intro utf16))
  · rfl

theorem write_of_far (far : IsFar c) : Flavor.utf16.write [c] = [highOf c, lowOf c] := by
  rw [Flavor.write_singleton, if_pos rfl, units_of_far far]

/-! Grouping characters -/

def groupsOf (flavor : Flavor) (chars : List Char) : List Group :=
  Group.ofCuts (chars.map fun c => Group.cutWord (flavor.write [c]))

theorem full_singles (chars : List Char) : ∀ s ∈ chars.map Sequence.single, s.points ≠ [] := by
  simp [Sequence.single]

theorem ofSequences_singles (flavor : Flavor) (chars : List Char) :
    Group.ofSequences flavor (chars.map fun c => [(c.toNat : Int)]) =
      .ok (groupsOf flavor chars) := by
  have grouped : Group.ofSequences flavor ((chars.map Sequence.single).map (·.numbers)) = _ :=
    Group.ofSequences_numbers (full_singles chars)
  rwa [List.map_map, List.map_map] at grouped

theorem has_groupsOf {stem : List Int} {ending : Int} :
    Group.Has (groupsOf flavor chars) stem ending ↔
      ∃ c ∈ chars, Group.cutWord (flavor.write [c]) = (stem, ending) := by
  rw [groupsOf, Group.has_ofCuts, List.mem_map]

theorem groupsOf_units (ne : chars ≠ []) (units : ∀ c ∈ chars, flavor.IsUnit c) :
    groupsOf flavor chars = [⟨[], Span.members (numbersOf chars)⟩] := by
  have filled : Span.members (numbersOf chars) ≠ [] := by
    obtain ⟨c, hc⟩ := List.exists_mem_of_ne_nil _ ne
    exact List.ne_nil_of_mem (Span.mem_members.2 (mem_numbersOf.2 hc))
  refine (Group.canonical_ofCuts _).ext ?_ fun stem ending => ?_
  · exact Group.canonical_cons.2 ⟨by simp, Span.pairwise_members _, filled, Group.canonical_nil⟩
  · rw [← groupsOf, has_groupsOf]
    simp only [Group.Has, List.mem_singleton, exists_eq_left, Span.mem_members]
    constructor
    · rintro ⟨c, hc, cut⟩
      rw [write_of_isUnit (units c hc)] at cut
      obtain ⟨rfl, rfl⟩ := Prod.mk.inj cut
      exact ⟨rfl, mem_numbersOf.2 hc⟩
    · rintro ⟨rfl, there⟩
      obtain ⟨c, hc, rfl⟩ := List.mem_map.1 there
      refine ⟨c, hc, ?_⟩
      rw [write_of_isUnit (units c hc)]
      rfl

def groupsOfPlanes (planes : List Plane) (near : List Int) : List Group :=
  planes.reverse.map Plane.group ++ if near.isEmpty then [] else [⟨[], near⟩]

theorem canonical_groupsOfPlanes {planes : List Plane} {far : List Char} {near : List Int}
    (holds : Plane.Holds planes far)
    (ascending : near.Pairwise fun a b => decide (a < b) = true) :
    Group.Canonical (groupsOfPlanes planes near) := by
  have led : ∀ g ∈ planes.reverse.map Plane.group, ∃ p ∈ planes, p.group = g := by
    simp
  have rest : Group.Canonical (if near.isEmpty then [] else [⟨[], near⟩]) := by
    split
    case isTrue => exact Group.canonical_nil
    case isFalse some =>
      exact Group.canonical_cons.2
        ⟨by simp, ascending, by simpa using some, Group.canonical_nil⟩
  refine ⟨List.pairwise_append.2 ⟨?_, rest.ordered, ?_⟩, ?_, ?_⟩
  · rw [List.pairwise_map, List.pairwise_reverse]
    refine holds.descending.imp fun {p q} less => ?_
    simpa [Plane.group, Group.before, List.cons_lt_cons_iff] using less
  · intro g hg h hh
    obtain ⟨p, -, rfl⟩ := led g hg
    split at hh
    · cases hh
    · rw [List.mem_singleton.1 hh]
      rfl
  · intro g hg
    rcases List.mem_append.1 hg with hg | hg
    · obtain ⟨p, hp, rfl⟩ := led g hg
      exact holds.ascending p hp
    · exact rest.ascending g hg
  · intro g hg
    rcases List.mem_append.1 hg with hg | hg
    · obtain ⟨p, hp, rfl⟩ := led g hg
      exact holds.filled p hp
    · exact rest.filled g hg

theorem has_groupsOfPlanes {planes : List Plane} {near : List Int} {stem : List Int}
    {ending : Int} : Group.Has (groupsOfPlanes planes near) stem ending ↔
      (∃ high : Nat, stem = [(high : Int)] ∧ Plane.Has planes high ending) ∨
        (stem = [] ∧ ending ∈ near) := by
  have bare : (∃ g ∈ if near.isEmpty then [] else [Group.mk [] near],
      g.stem = stem ∧ ending ∈ g.endings) ↔ stem = [] ∧ ending ∈ near := by
    cases near with
    | nil => simp
    | cons n near => simp [eq_comm]
  simp only [Group.Has, groupsOfPlanes, List.mem_append, or_and_right, exists_or, bare]
  refine or_congr_left ?_
  simp only [List.mem_map, List.mem_reverse, Plane.Has]
  constructor
  · rintro ⟨_, ⟨p, hp, rfl⟩, rfl, there⟩
    exact ⟨p.high, rfl, p, hp, rfl, there⟩
  · rintro ⟨_, rfl, p, hp, rfl, there⟩
    exact ⟨p.group, ⟨p, hp, rfl⟩, rfl, there⟩

theorem groupsOf_eq_groupsOfPlanes {planes : List Plane} {far : List Char} {near : List Int}
    (holds : Plane.Holds planes far)
    (ascending : near.Pairwise fun a b => decide (a < b) = true)
    (mem_far : ∀ c, c ∈ far ↔ c ∈ chars ∧ IsFar c)
    (mem_near : ∀ n, n ∈ near ↔ ∃ c ∈ chars, ¬ IsFar c ∧ (c.toNat : Int) = n) :
    groupsOf .utf16 chars = groupsOfPlanes planes near := by
  refine (Group.canonical_ofCuts _).ext (canonical_groupsOfPlanes holds ascending)
    fun stem ending => ?_
  rw [← groupsOf, has_groupsOf, has_groupsOfPlanes]
  simp only [holds.has, mem_far, mem_near]
  constructor
  · rintro ⟨c, hc, cut⟩
    by_cases isFar : IsFar c
    · rw [write_of_far isFar] at cut
      obtain ⟨rfl, rfl⟩ := Prod.mk.inj cut
      exact .inl ⟨highOf c, rfl, c, ⟨hc, isFar⟩, rfl, rfl⟩
    · rw [write_of_isUnit (.inr isFar)] at cut
      obtain ⟨rfl, rfl⟩ := Prod.mk.inj cut
      exact .inr ⟨rfl, c, hc, isFar, rfl⟩
  · rintro (⟨_, rfl, c, ⟨hc, isFar⟩, rfl, rfl⟩ | ⟨rfl, c, hc, isNear, rfl⟩)
    · refine ⟨c, hc, ?_⟩
      rw [write_of_far isFar]
      rfl
    · refine ⟨c, hc, ?_⟩
      rw [write_of_isUnit (.inr isNear)]
      rfl

/-! The pattern of characters of one unit -/

theorem toPattern_bare (flavor : Flavor) (endings : List Int) :
    Group.toPattern flavor ⟨[], endings⟩ = Span.toPattern flavor (Span.ofValues endings) := by
  rw [Group.toPattern, List.mapM_nil, pure_bind]
  exact bind_pure _

theorem patternOf_units (name : Text) (ne : chars ≠ []) (units : ∀ c ∈ chars, flavor.IsUnit c) :
    patternOf flavor name (chars.map fun c => [(c.toNat : Int)]) =
      Span.toPattern flavor (Span.ofValues (numbersOf chars)) := by
  have spans : Span.ofValues (Span.members (numbersOf chars)) = Span.ofValues (numbersOf chars) :=
    Span.ofValues_congr fun n => Span.mem_members
  rw [patternOf, ofSequences_singles, groupsOf_units ne units, ← spans, ← toPattern_bare]
  rfl

theorem compact_units (ne : chars ≠ [])
    (units : flavor = .points ∨ ∀ n ∈ Span.members (numbersOf chars), n < 0x10000) :
    compact flavor (numbersOf chars) =
      Span.toPattern flavor (Span.ofValues (numbersOf chars)) := by
  rw [compact, Span.ofValues]
  cases members : Span.members (numbersOf chars) with
  | nil =>
    obtain ⟨c, hc⟩ := List.exists_mem_of_ne_nil _ ne
    have there := Span.mem_members.2 (mem_numbersOf.2 hc)
    rw [members] at there
    cases there
  | cons n more =>
    cases more with
    | nil =>
      have one : Span.toPattern flavor (Span.ofAscending [n]) =
          (Pattern.codeOf flavor n).map .symbol := if_pos rfl
      rw [one]
      dsimp only
      cases Pattern.codeOf flavor n with
      | error f => rfl
      | ok code => rfl
    | cons m more =>
      rw [members] at units
      have bare : flavor = .points ∨ (n :: m :: more).all (· < 0x10000) = true := by
        simpa only [List.all_eq_true, decide_eq_true_eq] using units
      simp only [if_pos bare]

/-! The pattern of characters some of which are two units -/

theorem patternOf_of_led {sequences : List (List Int)} {groups : List Group} (name : Text)
    (grouped : Group.ofSequences flavor sequences = .ok groups) (ne : groups ≠ [])
    (led : ∀ g, groups = [g] → g.stem ≠ []) :
    patternOf flavor name sequences =
      (groups.mapM (Group.toPattern flavor)).map fun ps => .group (.anyOf ps) := by
  rw [patternOf, grouped]
  obtain _ | ⟨g, _ | ⟨h, groups⟩⟩ := groups
  case nil => exact absurd rfl ne
  case cons.nil =>
    have stem : g.stem.isEmpty = false := by simpa using led g rfl
    simp only [bind, Except.bind, stem, List.mapM_cons]
    cases g.toPattern flavor with
    | error f => rfl
    | ok p => rfl
  case cons.cons =>
    simp only [bind, Except.bind]
    cases (g :: h :: groups).mapM (Group.toPattern flavor) with
    | error f => rfl
    | ok ps => rfl

/-- What a set of characters is cut into: the planes of those of two units, and the others. -/
structure Cuts (chars : List Char) (planes : List Plane) (near : List Int) : Prop where
  made : ∃ far, scalars ((Span.members (numbersOf chars)).filter (0x10000 ≤ ·)) = .ok far ∧
    Plane.ofChars far = planes.reverse
  rest : (Span.members (numbersOf chars)).filter (· < 0x10000) = near
  small : ∀ p ∈ planes, p.high < 0x10000
  groups : groupsOf .utf16 chars = groupsOfPlanes planes near

theorem exists_cuts (chars : List Char) : ∃ planes near, Cuts chars planes near := by
  let members := Span.members (numbersOf chars)
  let far : List Char := (members.filter (0x10000 ≤ ·)).map fun n => Char.ofNat n.toNat
  have ascending : members.Pairwise fun a b => decide (a < b) = true := Span.pairwise_members _
  have mem_members : ∀ n ∈ members, ∃ c ∈ chars, (c.toNat : Int) = n := by
    intro n hn
    exact List.mem_map.1 (Span.mem_members.1 hn)
  have numbers : numbersOf far = members.filter (0x10000 ≤ ·) := by
    rw [numbersOf, List.map_map]
    refine (List.map_congr_left fun n hn => ?_).trans (List.map_id _)
    obtain ⟨c, -, rfl⟩ := mem_members n (List.mem_of_mem_filter hn)
    simp
  have mem_far : ∀ c, c ∈ far ↔ c ∈ chars ∧ IsFar c := by
    intro c
    rw [← mem_numbersOf, numbers, List.mem_filter, Span.mem_members, mem_numbersOf, IsFar,
      decide_eq_true_eq]
    refine and_congr_right fun _ => ?_
    omega
  have order : far.Pairwise fun b c => b.toNat < c.toNat := by
    have sorted := ascending.filter (0x10000 ≤ ·)
    rw [← numbers, numbersOf, List.pairwise_map] at sorted
    simpa using sorted
  have holds := Plane.holds_foldl_add (fun c hc => ((mem_far c).1 hc).2) order
  refine ⟨far.foldl Plane.add [], members.filter (· < 0x10000), ⟨far, ?_, rfl⟩, rfl, ?_, ?_⟩
  · rw [← numbers]
    exact scalars_ofChars far
  · intro p hp
    obtain ⟨low, hlow⟩ := List.exists_mem_of_ne_nil _ (holds.filled p hp)
    obtain ⟨c, -, high, -⟩ := (holds.has p.high low).1 ⟨p, hp, rfl, hlow⟩
    rw [← high]
    exact (units_lt c).1
  · refine groupsOf_eq_groupsOfPlanes holds (ascending.filter _) mem_far fun n => ?_
    rw [List.mem_filter, Span.mem_members, decide_eq_true_eq]
    constructor
    · rintro ⟨known, small⟩
      obtain ⟨c, hc, rfl⟩ := List.mem_map.1 known
      exact ⟨c, hc, not_isFar_iff.2 small, rfl⟩
    · rintro ⟨c, hc, isNear, rfl⟩
      exact ⟨mem_numbersOf.2 hc, not_isFar_iff.1 isNear⟩

variable {planes : List Plane} {near : List Int}

theorem Cuts.mapM_planes (cuts : Cuts chars planes near) :
    planes.reverse.mapM (Plane.toPattern .utf16) =
      (planes.reverse.map Plane.group).mapM (Group.toPattern .utf16) := by
  rw [List.mapM_map]
  refine Traversal.mapM_congr fun p hp => ?_
  exact (Plane.toPattern_group (cuts.small p (List.mem_reverse.1 hp))).symm

theorem Cuts.compact_eq (cuts : Cuts chars planes near)
    (many : ∃ a ∈ chars, ∃ b ∈ chars, a ≠ b) (far : ∃ c ∈ chars, IsFar c) :
    compact .utf16 (numbersOf chars) =
      ((groupsOfPlanes planes near).mapM (Group.toPattern .utf16)).map
        fun ps => .group (.anyOf ps) := by
  obtain ⟨⟨cs, made, ofChars⟩, rest, -, -⟩ := id cuts
  have mem : ∀ c ∈ chars, (c.toNat : Int) ∈ Span.members (numbersOf chars) := fun c hc =>
    Span.mem_members.2 (mem_numbersOf.2 hc)
  obtain ⟨a, ha, b, hb, apart⟩ := many
  have apart' : (a.toNat : Int) ≠ b.toNat := fun same => apart (number_injective same)
  have mixed : ¬ (Flavor.utf16 = .points ∨
      (Span.members (numbersOf chars)).all (· < 0x10000) = true) := by
    rintro (other | small)
    · cases other
    · obtain ⟨c, hc, isFar⟩ := far
      rw [List.all_eq_true] at small
      exact not_isFar_iff.2 (of_decide_eq_true (small _ (mem c hc))) isFar
  rw [compact]
  match members : Span.members (numbersOf chars) with
  | [] =>
    have none := mem a ha
    rw [members] at none
    cases none
  | [n] =>
    have first := mem a ha
    have second := mem b hb
    rw [members, List.mem_singleton] at first second
    exact absurd (first.trans second.symm) apart'
  | n :: m :: more =>
    rw [members] at made rest mixed
    simp only [if_neg mixed, made, rest, bind, Except.bind]
    rw [groupsOfPlanes, List.mapM_append, ← cuts.mapM_planes, ← ofChars]
    cases (Plane.ofChars cs).mapM (Plane.toPattern .utf16) with
    | error f => rfl
    | ok ps =>
      by_cases none : near.isEmpty = true
      · simp [none, bind, Except.bind, pure, Except.pure, Except.map]
      · rw [if_neg none, List.mapM_cons, toPattern_bare]
        simp only [if_neg none]
        cases Span.toPattern .utf16 (Span.ofValues near) with
        | error f => rfl
        | ok p => rfl

theorem Cuts.patternOf_eq (cuts : Cuts chars planes near) (name : Text)
    (far : ∃ c ∈ chars, IsFar c) :
    patternOf .utf16 name (chars.map fun c => [(c.toNat : Int)]) =
      ((groupsOfPlanes planes near).mapM (Group.toPattern .utf16)).map
        fun ps => .group (.anyOf ps) := by
  obtain ⟨c, hc, isFar⟩ := far
  have has : Group.Has (groupsOfPlanes planes near) [(highOf c : Int)] (lowOf c) := by
    rw [← cuts.groups, has_groupsOf]
    exact ⟨c, hc, by rw [write_of_far isFar]; rfl⟩
  obtain ⟨g, hg, stem, -⟩ := has
  apply patternOf_of_led
  · rw [ofSequences_singles, cuts.groups]
  · exact List.ne_nil_of_mem hg
  · intro h only
    rw [only, List.mem_singleton] at hg
    rw [← hg, stem]
    exact List.cons_ne_nil _ _

/-- Both ways of making a pattern of characters agree, but for one character of two units. -/
theorem compact_eq_patternOf (known : flavor = .points ∨ flavor = .utf16) (name : Text)
    (ne : chars ≠ [])
    (many : (∀ c ∈ chars, flavor.IsUnit c) ∨ ∃ a ∈ chars, ∃ b ∈ chars, a ≠ b) :
    compact flavor (numbersOf chars) =
      patternOf flavor name (chars.map fun c => [(c.toNat : Int)]) := by
  by_cases units : ∀ c ∈ chars, flavor.IsUnit c
  · rw [patternOf_units name ne units]
    apply compact_units ne
    refine known.imp id fun utf16 n hn => ?_
    obtain ⟨c, hc, rfl⟩ := List.mem_map.1 (Span.mem_members.1 hn)
    exact not_isFar_iff.1 ((units c hc).resolve_left (not_not_intro utf16))
  · obtain ⟨c, hc, wide⟩ : ∃ c ∈ chars, ¬ flavor.IsUnit c := by
      simpa only [not_forall, exists_prop] using units
    rw [Flavor.IsUnit, not_or, not_not, not_not] at wide
    obtain ⟨rfl, isFar⟩ := wide
    obtain ⟨planes, near, cuts⟩ := exists_cuts chars
    rw [cuts.compact_eq (many.resolve_left units) ⟨c, hc, isFar⟩,
      cuts.patternOf_eq name ⟨c, hc, isFar⟩]

/-! One character of two units -/

theorem compact_lone (far : IsFar c) (ne : chars ≠ []) (only : ∀ a ∈ chars, a = c) :
    compact .utf16 (numbersOf chars) = .ok (.symbol c.toNat) := by
  have members : Span.members (numbersOf chars) = [(c.toNat : Int)] := by
    refine Span.eq_of_mem_iff_int (Span.pairwise_members _) (List.pairwise_singleton _ _) ?_
    intro n
    rw [Span.mem_members, numbersOf, List.mem_map, List.mem_singleton]
    constructor
    · rintro ⟨a, ha, rfl⟩
      rw [only a ha]
    · rintro rfl
      obtain ⟨a, ha⟩ := List.exists_mem_of_ne_nil _ ne
      exact ⟨c, only a ha ▸ ha, rfl⟩
  have code : Pattern.codeOf .utf16 (c.toNat : Int) = .ok c.toNat := by
    unfold IsFar at far
    rw [Pattern.codeOf, if_neg (by omega), if_pos ⟨rfl, by omega⟩, scalar_toNat]
    rfl
  rw [compact, members]
  dsimp only
  rw [code]
  rfl

theorem source_lone (far : IsFar c) : (Pattern.symbol c.toNat).source .utf16 =
    (Pattern.choice [[.symbol (highOf c), .symbol (lowOf c)]]).source .utf16 := by
  have pair : Pattern.choice [[.symbol (highOf c), .symbol (lowOf c)]] =
      .verbatim [highOf c, lowOf c] := rfl
  rw [pair, Pattern.source_verbatim, ← write_of_far far, Pattern.source, Source.literal_char]

/-! What is matched -/

theorem exists_patternOf_singles (flavor : Flavor) (name : Text) (ne : chars ≠ []) :
    ∃ p, patternOf flavor name (chars.map fun c => [(c.toNat : Int)]) = .ok p ∧
      p.Part flavor ∧ p.Spells {t | ∃ c ∈ chars, t = flavor.write [c]} := by
  have some : chars.map Sequence.single ≠ [] := by simpa using ne
  obtain ⟨p, made, fragment⟩ := patternOf_numbers flavor name some (full_singles chars)
  rw [List.map_map] at made
  refine ⟨p, made, fragment.part, fragment.spells.congr fun _ => ?_⟩
  ext t
  rw [mem_encodings]
  simp only [List.mem_map, exists_exists_and_eq_and]
  exact exists_congr fun c => and_congr_right fun _ => eq_comm

theorem spells_lone (far : IsFar c) (ne : chars ≠ []) (only : ∀ a ∈ chars, a = c) :
    (Pattern.choice [[.symbol (highOf c), .symbol (lowOf c)]]).Spells
      {t | ∃ a ∈ chars, t = Flavor.utf16.write [a]} := by
  refine (Pattern.spells_verbatim [highOf c, lowOf c]).congr fun _ => ?_
  ext t
  rw [Pattern.mem_word, ← write_of_far far]
  constructor
  · rintro rfl
    obtain ⟨a, ha⟩ := List.exists_mem_of_ne_nil _ ne
    exact ⟨a, ha, by rw [only a ha]⟩
  · rintro ⟨a, ha, rfl⟩
    rw [only a ha]

/-- The pattern for a set of characters can be read from its source and matches exactly what the
flavor writes for one of them. If there are several, or where text is made of code points, its
source is that of the pattern that grouping makes of them. -/
theorem compact_exact (known : flavor = .points ∨ flavor = .utf16) (ne : chars ≠ [])
    (name : Text) :
    ∃ p q, compact flavor (chars.map fun c => (c.toNat : Int)) = .ok p ∧
      Pattern.read (p.source flavor) = some q ∧
      (∀ t, q.fullMatches t = true ↔ ∃ c ∈ chars, t = flavor.write [c]) ∧
      (flavor = .points ∨ (∃ a ∈ chars, ∃ b ∈ chars, a ≠ b) →
        ∃ p', patternOf flavor name (chars.map fun c => [(c.toNat : Int)]) = .ok p' ∧
          p'.source flavor = p.source flavor) := by
  by_cases many : (∀ c ∈ chars, flavor.IsUnit c) ∨ ∃ a ∈ chars, ∃ b ∈ chars, a ≠ b
  · obtain ⟨p, made, part, spells⟩ := exists_patternOf_singles flavor name ne
    have read : Pattern.read ((Pattern.choice [[p]]).source flavor) =
        some (Pattern.choice [[p]]) := Pattern.read_source (by simp) (by simpa using part)
    exact ⟨p, p, (compact_eq_patternOf known name ne many).trans made, read,
      fun _ => spells.fullMatches_iff, fun _ => ⟨p, made, rfl⟩⟩
  · obtain ⟨wide, alike⟩ := not_or.1 many
    simp only [not_forall, exists_prop, Flavor.IsUnit, not_or, not_not] at wide
    obtain ⟨c, hc, rfl, far⟩ := wide
    have only : ∀ a ∈ chars, a = c := by
      intro a ha
      by_contra other
      exact alike ⟨a, ha, c, hc, other⟩
    have writable : ∀ u < 0x10000, Flavor.utf16.CanWrite u := fun u small =>
      ⟨by omega, fun _ => small⟩
    have parts : ∀ b ∈ [[Pattern.symbol (highOf c), .symbol (lowOf c)]],
        ∀ p ∈ b, p.Part .utf16 := by
      have units := units_lt c
      simp only [List.forall_mem_singleton, List.forall_mem_cons]
      exact ⟨.symbol (writable _ units.1), .symbol (writable _ units.2)⟩
    refine ⟨_, Pattern.choice [[.symbol (highOf c), .symbol (lowOf c)]],
      compact_lone far ne only, ?_, fun _ => (spells_lone far ne only).fullMatches_iff,
      fun exempt => ?_⟩
    · rw [source_lone far]
      exact Pattern.read_source (by simp) parts
    · exact absurd exempt (by simpa using alike)

/-- Characters of two planes and of the first one, in any order: the text is that of grouping, and a
half of a pair is not matched. -/
theorem compact_exact_mixed :
    let chars : List Char := [woman, 'b', '𝒳', man, 'a', woman, 'c']
    (Flavor.utf16 = .points ∨ Flavor.utf16 = .utf16) ∧ chars ≠ [] ∧
    ∃ p q p', compact .utf16 (chars.map fun c => (c.toNat : Int)) = .ok p ∧
      Pattern.read (p.source .utf16) = some q ∧
      q.fullMatches (Flavor.utf16.write [man]) = true ∧
      q.fullMatches [highOf man] = false ∧
      patternOf .utf16 [] (chars.map fun c => [(c.toNat : Int)]) = .ok p' ∧
      p'.source .utf16 = p.source .utf16 := by
  intro chars
  have several : ∃ a ∈ chars, ∃ b ∈ chars, a ≠ b := ⟨man, by decide, woman, by decide, by decide⟩
  obtain ⟨p, q, made, read, exact, same⟩ :=
    compact_exact (.inr rfl) (List.cons_ne_nil woman _ : chars ≠ []) []
  obtain ⟨p', made', sources⟩ := same (.inr several)
  refine ⟨.inr rfl, List.cons_ne_nil _ _, p, q, p', made, read, ?_, ?_, made', sources⟩
  · exact (exact _).2 ⟨man, by decide, rfl⟩
  · have apart : [highOf man] ∉ chars.map fun c => Flavor.utf16.write [c] := by decide
    rw [← Bool.not_eq_true, exact]
    exact fun ⟨c, hc, same⟩ => apart (List.mem_map.2 ⟨c, hc, same.symm⟩)

end Pictograph
