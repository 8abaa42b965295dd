import Pictograph.Proofs.Classify.Given
import Pictograph.Proofs.Classify.Renderings
import Pictograph.Proofs.Templates

/-!
Entries of which a class keeps nothing. A class drops what its pattern adds again; an entry that is
made of this alone is an empty sequence of the class.
-/

namespace Pictograph

/-- The classes that get an empty sequence from the entry. -/
inductive Entry.Emptied (e : Entry) : Class → Prop where
  | multi (kind : e.kind = .multiDiversity)
      (empty : e.base.points = [] ∨ e.twoTones = some [] ∨ e.sameTone = some []) :
      Emptied e .multiDiversity
  | leading (kind : e.kind = .diversity) (points : e.base.points = [person, zwj]) :
      Emptied e .leadingGender
  | trailingWithVariant (kind : e.kind = .diversity)
      (points : e.base.points = [vs16, zwj, maleSign, vs16]) : Emptied e .trailingGenderWithVariant
  | trailing (kind : e.kind = .diversity) (points : e.base.points = [zwj, maleSign, vs16]) :
      Emptied e .trailingGender
  | keycap (kind : e.kind = .keycap)
      (points : ∀ p ∈ e.base.points, p = Pictograph.keycap ∨ p = vs16) : Emptied e .keycap
  | bare (single : e.kind ≠ .multiDiversity) (points : e.base.points = []) :
      Emptied e (Class.ofKind e.kind)

variable {entries : List Entry} {placed : List Placed} {e : Entry} {c : Class}

namespace Entry

theorem exists_numbersAt_eq_nil_iff {sameTone : Option (List (Option Int))}
    {twoTones : List (Option Int)} :
    (∃ p ∈ tonePairs, numbersAt sameTone twoTones p = []) ↔
      twoTones = [] ∨ sameTone = some [] := by
  constructor
  · intro h
    obtain ⟨p, -, empty⟩ := h
    rcases numbersAt_cases sameTone twoTones p with both | ⟨codes, rfl, one⟩
    · rw [both, Template.numbersWith_eq_nil_iff] at empty
      exact .inl empty
    · rw [one, Template.numbersWith_eq_nil_iff] at empty
      exact .inr (congrArg some empty)
  · intro h
    by_cases two : twoTones = []
    · refine ⟨(0, 1), by decide, ?_⟩
      rw [numbersAt_of_ne (by decide), two]
      rfl
    · refine ⟨(0, 0), by decide, ?_⟩
      rw [h.resolve_left two, numbersAt_of_eq rfl (Ne.symm two)]
      rfl

theorem exists_points_eq_nil_iff (kind : e.kind = .multiDiversity) {ss : List Sequence}
    (ok : e.renderings = .ok ss) : (∃ s ∈ ss, s.points = []) ↔
      e.base.points = [] ∨ e.twoTones = some [] ∨ e.sameTone = some [] := by
  have same := map_points_renderings kind
  rw [ok] at same
  cases given : e.twoTones with
  | none =>
    rw [given] at same
    cases same
  | some t =>
    rw [given] at same
    dsimp only [Option.map_some] at same
    cases all : tonePairs.mapM fun p =>
        scalars (numbersAt (e.sameTone.map Template.codes) t.codes p) with
    | error f =>
      rw [all] at same
      cases same
    | ok out =>
      rw [all] at same
      have points : ss.map Sequence.points = e.base.points :: out := Except.ok.inj same
      have later : [] ∈ out ↔ t = [] ∨ e.sameTone = some [] := by
        rw [Traversal.mem_of_mapM_eq_ok all]
        simp only [scalars_eq_nil_iff]
        rw [exists_numbersAt_eq_nil_iff]
        simp [Template.codes]
      have member : (∃ s ∈ ss, s.points = []) ↔ [] ∈ ss.map Sequence.points := List.mem_map.symm
      rw [member, points, List.mem_cons, later, Option.some.injEq, eq_comm]

theorem keep_eq_nil_iff (kind : Kind) (points : List Char) :
    (Class.ofKind kind).keep points = [] ↔
      points = [] ∨ kind = .keycap ∧ ∀ p ∈ points, p = Pictograph.keycap ∨ p = vs16 := by
  have late : Class.dropLateSelectors points = [] ↔ points = [] := by
    cases points <;> simp [Class.dropLateSelectors]
  cases kind with
  | keycap =>
    simp only [Class.ofKind, Class.keep, List.filter_eq_nil_iff, Bool.and_eq_true, bne_iff_ne,
      true_and]
    constructor
    · intro h
      exact .inr fun p hp => by simpa [or_iff_not_imp_left] using h p hp
    · rintro (rfl | h)
      · simp
      · intro p hp
        simpa [or_iff_not_imp_left] using h p hp
  | normal => simp [Class.ofKind, Class.keep]
  | flag => simp [Class.ofKind, Class.keep]
  | regional => simp [Class.ofKind, Class.keep]
  | multiDiversity => simp [Class.ofKind, Class.keep]
  | variant => simp [Class.ofKind, Class.keep, late]
  | diversity => simp [Class.ofKind, Class.keep, late]
  | variantDiversity => simp [Class.ofKind, Class.keep, late]
  | textDefault => simp [Class.ofKind, Class.keep, late]

theorem Gives.emptied {x : List Char} (given : e.Gives c x) (nothing : x = []) : e.Emptied c := by
  cases given with
  | rendering kind ok hs =>
    exact .multi kind ((exists_points_eq_nil_iff kind ok).1 ⟨_, hs, nothing⟩)
  | residual kind joined fits left =>
    generalize points : e.base.points = p at fits
    subst nothing
    cases fits with
    | person r =>
      cases left
      exact .leading kind points
    | variantMale x h =>
      cases left
      exact .trailingWithVariant kind points
    | male x h bare =>
      cases left
      exact .trailing kind points
    | man r => cases left
    | woman r => cases left
    | variantFemale x h => cases left
    | female x h bare => cases left
  | whole kind joined =>
    rw [nothing] at joined
    cases joined
  | kept single free =>
    rcases (keep_eq_nil_iff _ _).1 nothing with points | ⟨kind, points⟩
    · exact .bare single points
    · rw [kind]
      exact .keycap kind points

end Entry

theorem nil_mem_pointsOf_iff (h : classify entries = .ok placed) :
    [] ∈ pointsOf placed c ↔ ∃ e ∈ entries, e.Emptied c := by
  rw [mem_pointsOf_iff h]
  refine exists_congr fun e => and_congr_right fun he => ⟨fun given => given.emptied rfl, ?_⟩
  intro emptied
  have residual : ∀ {axis p}, e.kind = .diversity → e.base.points = p → zwj ∈ p →
      (∃ siblings, Shape.Fits p ⟨siblings, some (axis, [])⟩) → e.Gives (Class.ofAxis axis) [] := by
    intro axis p kind points joined fits
    obtain ⟨siblings, fits⟩ := fits
    exact .residual kind (points ▸ joined) (points ▸ fits) rfl
  have kept : ∀ {kind}, e.kind = kind → kind ≠ .multiDiversity → zwj ∉ e.base.points →
      (Class.ofKind kind).keep e.base.points = [] → e.Gives (Class.ofKind kind) [] := by
    intro kind same single free nothing
    rw [← nothing, ← same]
    exact .kept (same ▸ single) free
  cases emptied with
  | multi kind empty =>
    obtain ⟨ss, ok⟩ := exists_renderings h he
    obtain ⟨s, hs, points⟩ := (Entry.exists_points_eq_nil_iff kind ok).2 empty
    rw [← points]
    exact .rendering kind ok hs
  | leading kind points => exact residual kind points (by decide) ⟨_, .person []⟩
  | trailingWithVariant kind points =>
    have led : ¬ Shape.Led ([] ++ [vs16, zwj, maleSign, vs16]) := by
      rw [List.nil_append, Shape.led_cons]
      decide
    exact residual kind points (by decide) ⟨_, .variantMale [] led⟩
  | trailing kind points =>
    have led : ¬ Shape.Led ([] ++ [zwj, maleSign, vs16]) := by
      rw [List.nil_append, Shape.led_cons]
      decide
    exact residual kind points (by decide) ⟨_, .male [] led (by decide)⟩
  | keycap kind points =>
    have free : zwj ∉ e.base.points := fun joined => absurd (points zwj joined) (by decide)
    exact kept kind (by decide) free ((Entry.keep_eq_nil_iff _ _).2 (.inr ⟨rfl, points⟩))
  | bare single points =>
    exact kept rfl single (by simp [points]) ((Entry.keep_eq_nil_iff _ _).2 (.inl points))

end Pictograph
