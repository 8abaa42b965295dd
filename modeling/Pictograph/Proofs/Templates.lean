import Pictograph.Proofs.Traversal
import Pictograph.Table.Entry

/-!
Templates with tones in their slots. There is a tone for every slot, so filling a template never
fails, and only the numbers of its tokens matter; what a template makes is refused if and only if
one of these is no scalar value.
-/

namespace Pictograph

def IsScalar (n : Int) : Prop := 0 ≤ n ∧ n ≤ 0x10FFFF ∧ ¬ (0xD800 ≤ n ∧ n ≤ 0xDFFF)

theorem scalar_eq_ok_iff {shown : Value} {n : Int} :
    (∃ c, scalar shown n = .ok c) ↔ IsScalar n := by
  unfold scalar IsScalar
  split
  · simp
    omega
  · split
    · simp
      omega
    · simp
      omega

theorem fails_scalar (shown : Value) (n : Int) :
    Traversal.FailsWith (·.family = .value) (scalar shown n) := by
  unfold scalar
  split
  · refine .error ?_
    unfold rangeFault
    split
    · rfl
    · next failed =>
      obtain ⟨-, rfl⟩ := Value.write_eq_error_iff.1 failed
      rfl
  · split
    · exact .error rfl
    · exact .ok _ _

namespace Template

def codes (t : Template) : List (Option Int) := t.map Token.code?

theorem same_iff {a b : Template} : a.same b = true ↔ a.codes = b.codes := by
  unfold same codes
  exact beq_iff_eq

/-- The numbers with those of the tones in the slots, the last tone for all slots that are left. -/
def numbersWith (tone : Int) (more : List Int) : List (Option Int) → List Int
  | [] => []
  | some n :: rest => n :: numbersWith tone more rest
  | none :: rest =>
    tone :: match more with
      | [] => numbersWith tone [] rest
      | next :: more => numbersWith next more rest

theorem numbers_fill (t : Template) (tone : Int) (more : List Int) :
    (fill ((tone :: more).map .code) t).map numbers = .ok (numbersWith tone more t.codes) := by
  induction t generalizing tone more with
  | nil => rfl
  | cons token rest ih =>
    -- A token of one number is put in front of what the rest of the template gives.
    have step : ∀ {tones : List Token} {first : Token} {n : Int} {tail : List Int},
        first.code? = some n → (fill tones rest).map numbers = .ok tail →
        ((fill tones rest).map (first :: ·)).map numbers = .ok (n :: tail) := by
      intro tones first n tail code h
      cases e : fill tones rest with
      | error f =>
        rw [e] at h
        cases h
      | ok filled =>
        rw [e] at h
        have numbered : numbers filled = tail := Except.ok.inj h
        show Except.ok (numbers (first :: filled)) = _
        rw [← numbered, numbers, List.filterMap_cons, code]
        rfl
    cases token with
    | slot =>
      cases more with
      | nil => exact step rfl (ih tone [])
      | cons next more => exact step rfl (ih next more)
    | code n => exact step rfl (ih tone more)
    | flag b => exact step rfl (ih tone more)

theorem numbersWith_eq_nil_iff {tone : Int} {more : List Int}
    {codes : List (Option Int)} : numbersWith tone more codes = [] ↔ codes = [] := by
  cases codes with
  | nil => simp [numbersWith]
  | cons code rest => cases code <;> simp [numbersWith]

theorem mem_numbersWith {n tone : Int} {more : List Int} {codes : List (Option Int)}
    (h : n ∈ numbersWith tone more codes) : n ∈ tone :: more ∨ some n ∈ codes := by
  induction codes generalizing tone more with
  | nil => cases h
  | cons code rest ih =>
    cases code with
    | some m =>
      rcases List.mem_cons.1 h with rfl | h
      · exact .inr List.mem_cons_self
      · exact (ih h).imp_right (List.mem_cons_of_mem _)
    | none =>
      rcases List.mem_cons.1 h with rfl | h
      · exact .inl List.mem_cons_self
      · cases more with
        | nil => exact (ih h).imp_right (List.mem_cons_of_mem _)
        | cons next more =>
          exact (ih h).imp (List.mem_cons_of_mem _) (List.mem_cons_of_mem _)

theorem mem_numbersWith_of_mem {n : Int} {codes : List (Option Int)} (h : some n ∈ codes)
    (tone : Int) (more : List Int) : n ∈ numbersWith tone more codes := by
  induction codes generalizing tone more with
  | nil => cases h
  | cons code rest ih =>
    rcases List.mem_cons.1 h with rfl | later
    · exact List.mem_cons_self
    · cases code with
      | some m => exact List.mem_cons_of_mem _ (ih later tone more)
      | none =>
        cases more with
        | nil => exact List.mem_cons_of_mem _ (ih later tone [])
        | cons next more => exact List.mem_cons_of_mem _ (ih later next more)

end Template

theorem exists_scalars_iff {numbers : List Int} :
    (∃ cs, scalars numbers = .ok cs) ↔ ∀ n ∈ numbers, IsScalar n := by
  unfold scalars
  rw [Traversal.exists_mapM_eq_ok_iff]
  exact forall₂_congr fun n _ => scalar_eq_ok_iff

theorem scalars_eq_nil_iff {numbers : List Int} : scalars numbers = .ok [] ↔ numbers = [] := by
  rw [scalars, Traversal.mapM_eq_ok_iff, List.forall₂_nil_right_iff]

theorem fails_scalars (numbers : List Int) :
    Traversal.FailsWith (·.family = .value) (scalars numbers) :=
  .mapM fun n _ => fails_scalar _ n

namespace Entry

theorem filled_eq (t : Template) (tone : Int) (more : List Int) (shown : Bool) :
    filled t (tone :: more) shown =
      (scalars (Template.numbersWith tone more t.codes)).map (⟨·, shown⟩) := by
  have numbered := Template.numbers_fill t tone more
  unfold filled
  cases e : Template.fill ((tone :: more).map .code) t with
  | error f =>
    rw [e] at numbered
    cases numbered
  | ok filled =>
    rw [e] at numbered
    rw [← Except.ok.inj numbered]
    rfl

/-- The numbers of an emoji of two people with the tones at two places, by those of its templates.
A template for one tone counts only if it is another one. -/
def numbersAt (sameTone : Option (List (Option Int))) (twoTones : List (Option Int))
    (p : Nat × Nat) : List Int :=
  let both := Template.numbersWith (toneNumber p.1) [toneNumber p.2] twoTones
  match sameTone with
  | some sameTone =>
    if p.1 = p.2 ∧ sameTone ≠ twoTones then Template.numbersWith (toneNumber p.1) [] sameTone
    else both
  | none => both

theorem map_points_filled (t : Template) (tone : Int) (more : List Int) (shown : Bool) :
    (filled t (tone :: more) shown).map Sequence.points =
      scalars (Template.numbersWith tone more t.codes) := by
  rw [filled_eq]
  cases scalars (Template.numbersWith tone more t.codes) <;> rfl

theorem map_points_withTones (e : Entry) (t : Template) (p : Nat × Nat) :
    (e.withTones t p.1 p.2).map Sequence.points =
      scalars (numbersAt (e.sameTone.map Template.codes) t.codes p) := by
  unfold withTones numbersAt
  cases e.sameTone with
  | none => exact map_points_filled t _ _ _
  | some s =>
    have other : (!s.same t) = true ↔ s.codes ≠ t.codes := by
      rw [Bool.not_eq_true', ← Bool.not_eq_true, Template.same_iff]
    simp only [other, Option.map_some]
    split
    · exact map_points_filled s _ [] _
    · exact map_points_filled t _ _ _

theorem map_points_renderings {e : Entry} (kind : e.kind = .multiDiversity) :
    e.renderings.map (List.map Sequence.points) =
      match e.twoTones.map Template.codes with
      | none => .error (.table (.missingTemplate e.key))
      | some codes =>
        (tonePairs.mapM fun p => scalars (numbersAt (e.sameTone.map Template.codes) codes p)).map
          (e.base.points :: ·) := by
  unfold renderings
  rw [kind]
  dsimp only
  cases e.twoTones with
  | none => rfl
  | some t =>
    dsimp only [Option.map_some]
    simp only [← map_points_withTones]
    rw [← Traversal.map_mapM]
    cases tonePairs.mapM fun p => e.withTones t p.1 p.2 <;> rfl

theorem isScalar_toneNumber {i : Nat} (h : i < 5) : IsScalar (toneNumber i) := by
  unfold IsScalar toneNumber
  omega

theorem mem_tonePairs {p : Nat × Nat} : p ∈ tonePairs ↔ p.1 < 5 ∧ p.2 < 5 := by
  obtain ⟨i, j⟩ := p
  simp [tonePairs]

def Stands (sameTone : Option (List (Option Int))) (twoTones : List (Option Int)) (n : Int) :
    Prop :=
  some n ∈ twoTones ∨ ∃ codes, sameTone = some codes ∧ some n ∈ codes

variable {sameTone : Option (List (Option Int))} {twoTones : List (Option Int)} {n : Int}

theorem numbersAt_of_ne {p : Nat × Nat} (h : p.1 ≠ p.2) : numbersAt sameTone twoTones p =
    Template.numbersWith (toneNumber p.1) [toneNumber p.2] twoTones := by
  unfold numbersAt
  cases sameTone with
  | none => rfl
  | some codes =>
    dsimp only
    rw [if_neg fun both => h both.1]

theorem numbersAt_of_eq {p : Nat × Nat} (h : p.1 = p.2) {codes : List (Option Int)}
    (other : codes ≠ twoTones) : numbersAt (some codes) twoTones p =
      Template.numbersWith (toneNumber p.1) [] codes := by
  unfold numbersAt
  dsimp only
  rw [if_pos ⟨h, other⟩]

theorem numbersAt_cases (sameTone : Option (List (Option Int))) (twoTones : List (Option Int))
    (p : Nat × Nat) : numbersAt sameTone twoTones p =
        Template.numbersWith (toneNumber p.1) [toneNumber p.2] twoTones ∨
      ∃ codes, sameTone = some codes ∧ numbersAt sameTone twoTones p =
        Template.numbersWith (toneNumber p.1) [] codes := by
  cases sameTone with
  | none => exact .inl rfl
  | some codes =>
    by_cases one : p.1 = p.2 ∧ codes ≠ twoTones
    · exact .inr ⟨codes, rfl, numbersAt_of_eq one.1 one.2⟩
    · refine .inl ?_
      unfold numbersAt
      dsimp only
      rw [if_neg one]

theorem mem_numbersAt {p : Nat × Nat} (h : n ∈ numbersAt sameTone twoTones p) :
    n = toneNumber p.1 ∨ n = toneNumber p.2 ∨ Stands sameTone twoTones n := by
  rcases numbersAt_cases sameTone twoTones p with both | ⟨codes, rfl, one⟩
  · rw [both] at h
    rcases Template.mem_numbersWith h with tone | code
    · simp only [List.mem_cons, List.not_mem_nil, or_false] at tone
      exact tone.imp_right .inl
    · exact .inr (.inr (.inl code))
  · rw [one] at h
    rcases Template.mem_numbersWith h with tone | code
    · exact .inl (List.mem_singleton.1 tone)
    · exact .inr (.inr (.inr ⟨codes, rfl, code⟩))

theorem exists_mem_numbersAt (h : Stands sameTone twoTones n) :
    ∃ p ∈ tonePairs, n ∈ numbersAt sameTone twoTones p := by
  -- A number of the template for one tone alone shows only where both tones are the same.
  by_cases two : some n ∈ twoTones
  · refine ⟨(0, 1), by decide, ?_⟩
    rw [numbersAt_of_ne (by decide)]
    exact Template.mem_numbersWith_of_mem two _ _
  · obtain ⟨codes, rfl, code⟩ := h.resolve_left two
    have other : codes ≠ twoTones := fun same => two (same ▸ code)
    refine ⟨(0, 0), by decide, ?_⟩
    rw [numbersAt_of_eq (by decide) other]
    exact Template.mem_numbersWith_of_mem code _ _

/-- An emoji of two people can be expanded if and only if the numbers in its templates are those of
scalar values. -/
theorem exists_mapM_numbersAt_iff :
    (∃ out, tonePairs.mapM (fun p => scalars (numbersAt sameTone twoTones p)) = .ok out) ↔
      ∀ n, Stands sameTone twoTones n → IsScalar n := by
  rw [Traversal.exists_mapM_eq_ok_iff]
  simp only [exists_scalars_iff]
  constructor
  · intro h n hn
    obtain ⟨p, hp, used⟩ := exists_mem_numbersAt hn
    exact h p hp n used
  · intro h p hp n hn
    obtain ⟨first, second⟩ := mem_tonePairs.1 hp
    rcases mem_numbersAt hn with rfl | rfl | stands
    · exact isScalar_toneNumber first
    · exact isScalar_toneNumber second
    · exact h n stands

/-- An emoji of two people cannot be expanded without the template for two tones, or with a number
of no scalar value in a template. -/
theorem renderings_eq_error {e : Entry} (kind : e.kind = .multiDiversity) {f : Fault}
    (h : e.renderings = .error f) :
    (e.twoTones = none ∧ f = .table (.missingTemplate e.key)) ∨
      (f.family = .value ∧ ∃ t n, e.twoTones = some t ∧
        Stands (e.sameTone.map Template.codes) t.codes n ∧ ¬ IsScalar n) := by
  have same := map_points_renderings kind
  rw [h] at same
  cases given : e.twoTones with
  | none =>
    rw [given] at same
    exact .inl ⟨rfl, Except.error.inj same⟩
  | some t =>
    rw [given] at same
    dsimp only [Option.map_some] at same
    have expanded := @exists_mapM_numbersAt_iff (e.sameTone.map Template.codes) t.codes
    cases all : tonePairs.mapM fun p =>
        scalars (numbersAt (e.sameTone.map Template.codes) t.codes p) with
    | ok out =>
      rw [all] at same
      cases same
    | error f' =>
      rw [all] at same expanded
      cases same
      obtain ⟨-, p, -, -, -, fault⟩ := Traversal.mapM_eq_error_iff.1 all
      refine .inr ⟨fails_scalars _ _ fault, t, ?_⟩
      by_contra none
      push Not at none
      obtain ⟨out, ok⟩ := expanded.2 fun n hn => none n rfl hn
      cases ok

theorem exists_renderings_error {e : Entry} (kind : e.kind = .multiDiversity) {t : Template}
    (given : e.twoTones = some t) (stands : Stands (e.sameTone.map Template.codes) t.codes n)
    (bad : ¬ IsScalar n) : ∃ f, e.renderings = .error f ∧ f.family = .value := by
  cases result : e.renderings with
  | ok ss =>
    have same := map_points_renderings kind
    rw [result, given] at same
    dsimp only [Option.map_some] at same
    cases all : tonePairs.mapM fun p =>
        scalars (numbersAt (e.sameTone.map Template.codes) t.codes p) with
    | ok out => exact absurd (exists_mapM_numbersAt_iff.1 ⟨out, all⟩ n stands) bad
    | error f =>
      rw [all] at same
      cases same
  | error f =>
    refine ⟨f, rfl, ?_⟩
    rcases renderings_eq_error kind result with ⟨missing, -⟩ | ⟨value, -⟩
    · rw [given] at missing
      cases missing
    · exact value

end Entry

end Pictograph
