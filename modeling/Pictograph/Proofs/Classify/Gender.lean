import Mathlib.Data.Set.Lattice
import Mathlib.Order.CompletePartialOrder
import Pictograph.Proofs.Classify.Placed
import Pictograph.Proofs.Classify.Shapes

/-!
Gendered families. The check of the siblings makes the gendered bases of a table closed under change
of gender; so what is left of the families, with every gender put back, gives exactly these bases
again, and no base in two ways.
-/

namespace Pictograph

/-- Closed under the siblings that the shapes need. -/
def Closed (known : List (List Char)) : Prop :=
  ∀ p ∈ known, ∃ shape, Shape.Fits p shape ∧ ∀ q ∈ shape.complements, q ∈ known

/-- What is left of the known families on an axis. -/
def Residual (known : List (List Char)) (axis : Axis) (r : List Char) : Prop :=
  ∃ p ∈ known, ∃ shape, Shape.Fits p shape ∧ shape.residual = some (axis, r)

variable {known : List (List Char)}

theorem Residual.mono {known' : List (List Char)} (sub : ∀ p ∈ known, p ∈ known') {axis : Axis}
    {r : List Char} (h : Residual known axis r) : Residual known' axis r := by
  obtain ⟨p, hp, shape, fits, left⟩ := h
  exact ⟨p, sub p hp, shape, fits, left⟩

theorem residual_leading {r : List Char} :
    Residual known .leading r ↔ person :: zwj :: r ∈ known := by
  constructor
  · intro h
    obtain ⟨p, hp, shape, fits, left⟩ := h
    cases fits with
    | person r' =>
      simp only [Option.some.injEq, Prod.mk.injEq, true_and] at left
      rwa [← left]
    | _ => simp at left
  · intro h
    exact ⟨_, h, _, .person r, rfl⟩

theorem residual_variant {x : List Char} :
    Residual known .trailingWithVariant x ↔
      x ++ [vs16, zwj, maleSign, vs16] ∈ known ∧
        ¬ Shape.Led (x ++ [vs16, zwj, maleSign, vs16]) := by
  constructor
  · intro h
    obtain ⟨p, hp, shape, fits, left⟩ := h
    cases fits with
    | variantMale x' led =>
      simp only [Option.some.injEq, Prod.mk.injEq, true_and] at left
      rw [← left]
      exact ⟨hp, led⟩
    | _ => simp at left
  · intro h
    exact ⟨_, h.1, _, .variantMale x h.2, rfl⟩

theorem residual_bare {x : List Char} :
    Residual known .trailing x ↔
      x ++ [zwj, maleSign, vs16] ∈ known ∧ ¬ Shape.Led (x ++ [zwj, maleSign, vs16]) ∧
        x.getLast? ≠ some vs16 := by
  constructor
  · intro h
    obtain ⟨p, hp, shape, fits, left⟩ := h
    cases fits with
    | male x' led bare =>
      simp only [Option.some.injEq, Prod.mk.injEq, true_and] at left
      rw [← left]
      exact ⟨hp, led, bare⟩
    | _ => simp at left
  · intro h
    exact ⟨_, h.1, _, .male x h.2.1 h.2.2, rfl⟩

namespace Closed

theorem mem_of_fits (closed : Closed known) {p : List Char} {shape : Shape} (hp : p ∈ known)
    (fits : Shape.Fits p shape) : ∀ q ∈ shape.complements, q ∈ known := by
  obtain ⟨shape', fits', siblings⟩ := closed p hp
  have same : shape' = shape := by
    rw [← Shape.of?_eq_some_iff] at fits fits'
    exact Option.some.inj (fits'.symm.trans fits)
  rwa [same] at siblings

theorem mem_iff_of_siblings (closed : Closed known) {p q : List Char} {shape shape' : Shape}
    (fits : Shape.Fits p shape) (fits' : Shape.Fits q shape') (needs : q ∈ shape.complements)
    (needed : p ∈ shape'.complements) : p ∈ known ↔ q ∈ known := by
  constructor
  · intro h
    exact closed.mem_of_fits h fits q needs
  · intro h
    exact closed.mem_of_fits h fits' p needed

theorem mem_led (closed : Closed known) {g : Char} (hg : g ∈ people) {r : List Char} :
    g :: zwj :: r ∈ known ↔ person :: zwj :: r ∈ known := by
  simp only [people, List.mem_cons, List.not_mem_nil, or_false] at hg
  rcases hg with rfl | rfl | rfl
  · apply closed.mem_iff_of_siblings (.man r) (.person r)
    · simp
    · simp
  · apply closed.mem_iff_of_siblings (.woman r) (.person r)
    · simp
    · simp
  · rfl

theorem mem_variant (closed : Closed known) {s : Char} (hs : s ∈ signs) {x : List Char}
    (led : ¬ Shape.Led (x ++ [vs16, zwj, maleSign, vs16])) :
    x ++ [vs16, zwj, s, vs16] ∈ known ↔ x ++ [vs16, zwj, maleSign, vs16] ∈ known := by
  have led' : ¬ Shape.Led (x ++ [vs16, zwj, femaleSign, vs16]) := by
    rwa [Shape.led_append_variant_sign x femaleSign maleSign]
  simp only [signs, List.mem_cons, List.not_mem_nil, or_false] at hs
  rcases hs with rfl | rfl
  · apply closed.mem_iff_of_siblings (.variantFemale x led') (.variantMale x led)
    · simp
    · simp
  · rfl

theorem mem_bare (closed : Closed known) {s : Char} (hs : s ∈ signs) {x : List Char}
    (led : ¬ Shape.Led (x ++ [zwj, maleSign, vs16])) (bare : x.getLast? ≠ some vs16) :
    x ++ [zwj, s, vs16] ∈ known ↔ x ++ [zwj, maleSign, vs16] ∈ known := by
  have led' : ¬ Shape.Led (x ++ [zwj, femaleSign, vs16]) := by
    rwa [Shape.led_append_sign x femaleSign maleSign]
  simp only [signs, List.mem_cons, List.not_mem_nil, or_false] at hs
  rcases hs with rfl | rfl
  · apply closed.mem_iff_of_siblings (.female x led' bare) (.male x led bare)
    · simp
    · simp
  · rfl

theorem mem_signed (closed : Closed known) {s : Char} (hs : s ∈ signs) {stem : List Char}
    (led : ¬ Shape.Led (stem ++ [zwj, maleSign, vs16])) :
    stem ++ [zwj, s, vs16] ∈ known ↔ stem ++ [zwj, maleSign, vs16] ∈ known := by
  by_cases variant : stem.getLast? = some vs16
  · obtain ⟨x, rfl⟩ := List.getLast?_eq_some_iff.1 variant
    simp only [List.append_assoc, List.singleton_append] at led ⊢
    exact closed.mem_variant hs led
  · exact closed.mem_bare hs led variant

end Closed

def ledBy (rests : Set (List Char)) : Set (List Char) :=
  {p | ∃ g ∈ people, ∃ r ∈ rests, p = g :: zwj :: r}

def signedAfterVariant (starts : Set (List Char)) : Set (List Char) :=
  {p | ∃ s ∈ signs, ∃ x ∈ starts, p = x ++ [vs16, zwj, s, vs16]}

def signed (starts : Set (List Char)) : Set (List Char) :=
  {p | ∃ s ∈ signs, ∃ x ∈ starts, p = x ++ [zwj, s, vs16]}

theorem not_led_of_mem_variant {p : List Char}
    (h : p ∈ signedAfterVariant {x | Residual known .trailingWithVariant x}) : ¬ Shape.Led p := by
  obtain ⟨s, -, x, hx, rfl⟩ := h
  rw [Shape.led_append_variant_sign x s maleSign]
  exact (residual_variant.1 hx).2

theorem not_led_of_mem_bare {p : List Char}
    (h : p ∈ signed {x | Residual known .trailing x}) : ¬ Shape.Led p := by
  obtain ⟨s, -, x, hx, rfl⟩ := h
  rw [Shape.led_append_sign x s maleSign]
  exact (residual_bare.1 hx).2.1

/-- A closed collection is put together again from what is left of its families. -/
theorem Closed.eq_union (closed : Closed known) :
    {p | p ∈ known} = ledBy {r | Residual known .leading r} ∪
      signedAfterVariant {x | Residual known .trailingWithVariant x} ∪
        signed {x | Residual known .trailing x} := by
  ext p
  simp only [Set.mem_ofPred_eq, Set.mem_union]
  constructor
  · intro hp
    obtain ⟨shape, fits, -⟩ := closed p hp
    have led : ∀ {g r}, g ∈ people → p = g :: zwj :: r →
        p ∈ ledBy {r | Residual known .leading r} := by
      intro g r hg e
      rw [e, closed.mem_led hg] at hp
      exact ⟨g, hg, r, residual_leading.2 hp, e⟩
    have variant : ∀ {s x}, s ∈ signs → p = x ++ [vs16, zwj, s, vs16] → ¬ Shape.Led p →
        p ∈ signedAfterVariant {x | Residual known .trailingWithVariant x} := by
      intro s x hs e h
      rw [e, Shape.led_append_variant_sign x s maleSign] at h
      rw [e, closed.mem_variant hs h] at hp
      exact ⟨s, hs, x, residual_variant.2 ⟨hp, h⟩, e⟩
    have bare : ∀ {s x}, s ∈ signs → p = x ++ [zwj, s, vs16] → ¬ Shape.Led p →
        x.getLast? ≠ some vs16 → p ∈ signed {x | Residual known .trailing x} := by
      intro s x hs e h last
      rw [e, Shape.led_append_sign x s maleSign] at h
      rw [e, closed.mem_bare hs h last] at hp
      exact ⟨s, hs, x, residual_bare.2 ⟨hp, h, last⟩, e⟩
    -- The member that stands for the family decides where the sequence belongs.
    cases fits with
    | man r => exact .inl (.inl (led (by decide) rfl))
    | woman r => exact .inl (.inl (led (by decide) rfl))
    | person r => exact .inl (.inl (led (by decide) rfl))
    | variantMale x h => exact .inl (.inr (variant (by decide) rfl h))
    | variantFemale x h => exact .inl (.inr (variant (by decide) rfl h))
    | male x h last => exact .inr (bare (by decide) rfl h last)
    | female x h last => exact .inr (bare (by decide) rfl h last)
  · intro hp
    rcases hp with (hp | hp) | hp
    · obtain ⟨g, hg, r, hr, rfl⟩ := hp
      exact (closed.mem_led hg).2 (residual_leading.1 hr)
    · obtain ⟨s, hs, x, hx, rfl⟩ := hp
      obtain ⟨male, led⟩ := residual_variant.1 hx
      exact (closed.mem_variant hs led).2 male
    · obtain ⟨s, hs, x, hx, rfl⟩ := hp
      obtain ⟨male, led, last⟩ := residual_bare.1 hx
      exact (closed.mem_bare hs led last).2 male

theorem disjoint_led_variant (known : List (List Char)) :
    Disjoint (ledBy {r | Residual known .leading r})
      (signedAfterVariant {x | Residual known .trailingWithVariant x}) := by
  rw [Set.disjoint_left]
  intro p led variant
  obtain ⟨g, hg, r, -, e⟩ := led
  exact not_led_of_mem_variant variant ⟨g, hg, r, e⟩

theorem disjoint_led_bare (known : List (List Char)) :
    Disjoint (ledBy {r | Residual known .leading r}) (signed {x | Residual known .trailing x}) := by
  rw [Set.disjoint_left]
  intro p led bare
  obtain ⟨g, hg, r, -, e⟩ := led
  exact not_led_of_mem_bare bare ⟨g, hg, r, e⟩

theorem disjoint_variant_bare (known : List (List Char)) :
    Disjoint (signedAfterVariant {x | Residual known .trailingWithVariant x})
      (signed {x | Residual known .trailing x}) := by
  rw [Set.disjoint_left]
  intro p variant bare
  obtain ⟨s, -, y, -, e⟩ := variant
  obtain ⟨s', -, x, hx, e'⟩ := bare
  have last := (residual_bare.1 hx).2.2
  have split : (y ++ [vs16]) ++ [zwj, s, vs16] = x ++ [zwj, s', vs16] := by
    rw [← e', e]
    simp
  rw [← (List.append_inj' split rfl).1] at last
  simp at last

theorem Entry.gender_eq_ok_iff {e : Entry} {residual : Option (Axis × List Char)} :
    e.gender known = .ok residual ↔ ∃ shape, Shape.Fits e.base.points shape ∧
      (∀ q ∈ shape.complements, q ∈ known) ∧ residual = shape.residual := by
  unfold gender
  cases found : Shape.of? e.base.points with
  | none =>
    simp only [reduceCtorEq, false_iff, not_exists, not_and]
    intro shape fits
    rw [fits.of?_eq] at found
    cases found
  | some shape =>
    have only : ∀ {shape'}, Shape.Fits e.base.points shape' → shape' = shape := by
      intro shape' fits
      rw [fits.of?_eq] at found
      exact Option.some.inj found
    have all : shape.complements.find? (!known.contains ·) = none ↔
        ∀ q ∈ shape.complements, q ∈ known := by
      rw [List.find?_eq_none]
      simp
    constructor
    · intro h
      refine ⟨shape, Shape.of?_eq_some_iff.1 found, ?_⟩
      dsimp only at h
      split at h
      · cases h
      · next none =>
        exact ⟨all.1 none, (Except.ok.inj h).symm⟩
    · intro h
      obtain ⟨shape', fits, siblings, rfl⟩ := h
      rw [only fits] at siblings ⊢
      dsimp only
      rw [all.2 siblings]

variable {entries : List Entry} {placed : List Placed}

theorem closed_gendered (h : classify entries = .ok placed) : Closed (gendered entries) := by
  obtain ⟨-, multi, residuals, -, genders, -⟩ := classify_eq_ok_iff.1 h
  intro p hp
  obtain ⟨e, he, rfl⟩ := List.mem_map.1 hp
  obtain ⟨residual, -, ok⟩ := Traversal.ok_of_mapM_eq_ok genders he
  obtain ⟨shape, fits, siblings, -⟩ := Entry.gender_eq_ok_iff.1 ok
  exact ⟨shape, fits, siblings⟩

theorem notMem_zwj_of_classify (h : classify entries = .ok placed) {e : Entry} (he : e ∈ entries)
    (multi : e.kind ≠ .multiDiversity) (toned : e.kind ≠ .diversity) (normal : e.kind ≠ .normal) :
    zwj ∉ e.base.points := by
  intro joined
  rcases (classify_eq_ok_iff.1 h).1 e he multi joined with kind | kind
  · exact toned kind
  · exact normal kind

theorem exists_classify_eq_ok_iff : (∃ placed, classify entries = .ok placed) ↔
    (∀ e ∈ entries, e.kind ≠ .multiDiversity → zwj ∈ e.base.points →
      e.kind = .diversity ∨ e.kind = .normal) ∧
    (∀ e ∈ entries, e.kind = .multiDiversity → ∃ ss, e.renderings = .ok ss) ∧
    Closed (gendered entries) := by
  constructor
  · intro h
    obtain ⟨placed, h⟩ := h
    obtain ⟨check, multi, -, multiOk, -, -⟩ := classify_eq_ok_iff.1 h
    refine ⟨check, ?_, closed_gendered h⟩
    intro e he kind
    obtain ⟨ss, -, ok⟩ := Traversal.ok_of_mapM_eq_ok multiOk
      (List.mem_filter.2 ⟨he, Entry.isMulti_iff.2 kind⟩)
    exact ⟨ss, ok⟩
  · intro h
    obtain ⟨check, expand, closed⟩ := h
    have multi : ∃ multi, (entries.filter (·.isMulti)).mapM Entry.renderings = .ok multi := by
      rw [Traversal.exists_mapM_eq_ok_iff]
      intro e he
      obtain ⟨he, kind⟩ := List.mem_filter.1 he
      exact expand e he (Entry.isMulti_iff.1 kind)
    have genders : ∃ residuals,
        (toned entries).mapM (Entry.gender (gendered entries)) = .ok residuals := by
      rw [Traversal.exists_mapM_eq_ok_iff]
      intro e he
      obtain ⟨shape, fits, siblings⟩ := closed _ (List.mem_map_of_mem he)
      exact ⟨_, Entry.gender_eq_ok_iff.2 ⟨shape, fits, siblings, rfl⟩⟩
    obtain ⟨multi, multiOk⟩ := multi
    obtain ⟨residuals, residualsOk⟩ := genders
    exact ⟨_, classify_eq_ok_iff.2 ⟨check, multi, residuals, multiOk, residualsOk, rfl⟩⟩

theorem Entry.cls_place_ne_ofAxis (e : Entry) (axis : Axis) :
    e.place.cls ≠ Class.ofAxis axis := by
  unfold place
  cases e.kind <;> cases axis <;> simp [Class.ofKind, Class.ofAxis]

def pointsOf (placed : List Placed) (c : Class) : Set (List Char) :=
  {p | ∃ s ∈ sequencesOf placed c, s.points = p}

theorem pointsOf_ofAxis (h : classify entries = .ok placed) (axis : Axis) :
    pointsOf placed (Class.ofAxis axis) = {r | Residual (gendered entries) axis r} := by
  have closed := closed_gendered h
  ext r
  simp only [pointsOf, Set.mem_ofPred_eq, mem_sequencesOf]
  constructor
  · intro hr
    obtain ⟨s, hs, rfl⟩ := hr
    rcases (mem_classify h).1 hs with multi | family | joined | plain
    · obtain ⟨e, -, -, ss, -, s', -, same⟩ := multi
      cases axis <;> simp [Class.ofAxis] at same
    · obtain ⟨e, he, axis', r, ok, same⟩ := family
      obtain ⟨shape, fits, -, left⟩ := Entry.gender_eq_ok_iff.1 ok
      have axes : axis = axis' := by
        have classes := congrArg Placed.cls same
        cases axis <;> cases axis' <;> simp_all [Class.ofAxis]
      have points : s = ⟨r, true⟩ := congrArg Placed.sequence same
      rw [points, axes]
      exact ⟨_, List.mem_map_of_mem he, shape, fits, left.symm⟩
    · obtain ⟨e, -, -, -, same⟩ := joined
      cases axis <;> simp [Class.ofAxis] at same
    · obtain ⟨e, -, -, -, same⟩ := plain
      exact absurd (congrArg Placed.cls same).symm (e.cls_place_ne_ofAxis axis)
  · intro hr
    obtain ⟨p, hp, shape, fits, left⟩ := hr
    obtain ⟨e, he, rfl⟩ := List.mem_map.1 hp
    have ok : e.gender (gendered entries) = .ok (some (axis, r)) :=
      Entry.gender_eq_ok_iff.2 ⟨shape, fits, closed.mem_of_fits hp fits, left.symm⟩
    exact ⟨⟨r, true⟩, (mem_classify h).2 (.inr (.inl ⟨e, he, axis, r, ok, rfl⟩)), rfl⟩

theorem Entry.base_mem_renderings {e : Entry} {ss : List Sequence} (h : e.renderings = .ok ss) :
    e.base ∈ ss := by
  unfold renderings at h
  split at h
  · rw [← Except.ok.inj h]
    exact List.mem_cons_self
  · rw [← Except.ok.inj h]
    exact List.mem_cons_self
  · split at h
    · cases h
    · obtain ⟨rest, -, h⟩ := Traversal.bind_eq_ok.1 h
      rw [← Except.ok.inj h]
      exact List.mem_cons_self
  · rw [← Except.ok.inj h]
    exact List.mem_cons_self

theorem placed_ne_nil (h : classify entries = .ok placed) (ne : entries ≠ []) : placed ≠ [] := by
  obtain ⟨e, he⟩ := List.exists_mem_of_ne_nil entries ne
  obtain ⟨check, multi, residuals, multiOk, -, -⟩ := classify_eq_ok_iff.1 h
  by_cases two : e.kind = .multiDiversity
  · obtain ⟨ss, -, ok⟩ := Traversal.ok_of_mapM_eq_ok multiOk
      (List.mem_filter.2 ⟨he, Entry.isMulti_iff.2 two⟩)
    exact List.ne_nil_of_mem ((mem_classify h).2
      (.inl ⟨e, he, two, ss, ok, e.base, Entry.base_mem_renderings ok, rfl⟩))
  · by_cases joined : zwj ∈ e.base.points
    · rcases check e he two joined with kind | kind
      · have known : e.base.points ∈ {p | p ∈ gendered entries} :=
          mem_gendered.2 ⟨e, he, kind, joined, rfl⟩
        have left : ∃ axis r, Residual (gendered entries) axis r := by
          rw [(closed_gendered h).eq_union] at known
          rcases known with (⟨g, -, r, hr, -⟩ | ⟨s, -, x, hx, -⟩) | ⟨s, -, x, hx, -⟩
          · exact ⟨_, r, hr⟩
          · exact ⟨_, x, hx⟩
          · exact ⟨_, x, hx⟩
        obtain ⟨axis, r, hr⟩ := left
        have placed : r ∈ pointsOf placed (Class.ofAxis axis) := by
          rw [pointsOf_ofAxis h axis]
          exact hr
        obtain ⟨s, hs, -⟩ := placed
        exact List.ne_nil_of_mem (mem_sequencesOf.1 hs)
      · exact List.ne_nil_of_mem (joined_mem_of_classify h he kind joined)
    · exact List.ne_nil_of_mem (place_mem_of_classify h he two joined)

/-- Reducing the gendered families loses no base and adds none: with every gender put back, what is
left of the families gives the gendered bases of the table, each on one axis only. -/
theorem gendered_bases_eq_union (h : classify entries = .ok placed) :
    {p | ∃ e ∈ entries, e.kind = .diversity ∧ zwj ∈ e.base.points ∧ e.base.points = p} =
        ledBy (pointsOf placed .leadingGender) ∪
          signedAfterVariant (pointsOf placed .trailingGenderWithVariant) ∪
            signed (pointsOf placed .trailingGender) ∧
      Disjoint (ledBy (pointsOf placed .leadingGender))
        (signedAfterVariant (pointsOf placed .trailingGenderWithVariant)) ∧
      Disjoint (ledBy (pointsOf placed .leadingGender))
        (signed (pointsOf placed .trailingGender)) ∧
      Disjoint (signedAfterVariant (pointsOf placed .trailingGenderWithVariant))
        (signed (pointsOf placed .trailingGender)) := by
  have leading : pointsOf placed .leadingGender = _ := pointsOf_ofAxis h .leading
  have variant : pointsOf placed .trailingGenderWithVariant = _ :=
    pointsOf_ofAxis h .trailingWithVariant
  have bare : pointsOf placed .trailingGender = _ := pointsOf_ofAxis h .trailing
  have bases : {p | ∃ e ∈ entries, e.kind = .diversity ∧ zwj ∈ e.base.points ∧
      e.base.points = p} = {p | p ∈ gendered entries} := by
    ext p
    exact mem_gendered.symm
  rw [bases, leading, variant, bare]
  refine ⟨(closed_gendered h).eq_union, ?_, ?_, ?_⟩
  · exact disjoint_led_variant _
  · exact disjoint_led_bare _
  · exact disjoint_variant_bare _

def workers : List Entry :=
  [[man, zwj, '💻'], [woman, zwj, '💻'], [person, zwj, '💻'],
    ['🕵', vs16, zwj, maleSign, vs16], ['🕵', vs16, zwj, femaleSign, vs16],
    ['🏃', zwj, maleSign, vs16], ['🏃', zwj, femaleSign, vs16]].map (.bare · .diversity)

theorem gendered_bases_workers :
    ∃ placed, classify workers = .ok placed ∧
      {p | ∃ e ∈ workers, e.kind = .diversity ∧ zwj ∈ e.base.points ∧ e.base.points = p} =
        ledBy (pointsOf placed .leadingGender) ∪
          signedAfterVariant (pointsOf placed .trailingGenderWithVariant) ∪
            signed (pointsOf placed .trailingGender) := by
  have sorted : classify workers = .ok [⟨.leadingGender, ⟨['💻'], true⟩⟩,
      ⟨.trailingGenderWithVariant, ⟨['🕵'], true⟩⟩, ⟨.trailingGender, ⟨['🏃'], true⟩⟩] := by
    decide
  exact ⟨_, sorted, (gendered_bases_eq_union sorted).1⟩

end Pictograph
