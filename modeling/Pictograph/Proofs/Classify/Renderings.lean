import Mathlib.Data.List.DropRight
import Pictograph.Proofs.Classify.Recognised

/-!
Renderings and classes. How an entry is expanded and what its class makes of it are decided apart;
both agree for all entries but those with selectors or joiners in unusual places, and for these
there is a table that derives a rendering and does not recognise it.
-/

namespace Pictograph

theorem forall_mem_of_all {cs : List Char} {p : Char → Prop} [DecidablePred p]
    (h : (cs.all fun c => p c) = true) : ∀ c ∈ cs, p c := by
  simpa using h

namespace Entry

variable {x y r : List Char} {tone : Char}

theorem dropSelectors_append_vs16 (x : List Char) :
    dropSelectors (x ++ [vs16]) = dropSelectors x :=
  List.rdropWhile_concat_pos _ x vs16 (by decide)

theorem dropSelectors_eq_self (h : x.getLast? ≠ some vs16) : dropSelectors x = x := by
  refine List.rdropWhile_eq_self_iff.2 fun ne => ?_
  rw [List.getLast?_eq_some_getLast ne] at h
  simpa using h

theorem exists_dropSelectors (x : List Char) :
    ∃ n, x = dropSelectors x ++ List.replicate n vs16 := by
  refine ⟨(x.rtakeWhile (· == vs16)).length, ?_⟩
  have dropped : x.rtakeWhile (· == vs16) =
      List.replicate (x.rtakeWhile (· == vs16)).length vs16 := by
    refine List.eq_replicate_iff.2 ⟨rfl, fun c hc => ?_⟩
    simpa using List.mem_rtakeWhile_imp hc
  rw [← dropped]
  exact List.rdropWhile_append_rtakeWhile.symm

theorem exists_dropLateSelectors (x : List Char) :
    ∃ n, x = Class.dropLateSelectors x ++ List.replicate n vs16 := by
  cases x with
  | nil => exact ⟨0, rfl⟩
  | cons c x =>
    obtain ⟨n, e⟩ := exists_dropSelectors x
    exact ⟨n, by rw [Class.dropLateSelectors, List.cons_append, ← e]⟩

theorem mem_of_mem_dropSelectors {c : Char} (h : c ∈ dropSelectors x) : c ∈ x :=
  (List.rdropWhile_prefix _ x).subset h

theorem withTone_plain (h : zwj ∉ x) (tone : Char) : withTone x tone = x ++ [tone] := by
  simp [withTone, h]

theorem ne_of_notMem (h : zwj ∉ x) : ∀ c ∈ x, (c != zwj) = true := by
  intro c hc
  rw [bne_iff_ne]
  intro e
  exact h (e ▸ hc)

theorem takeWhile_joined (h : zwj ∉ x) (r : List Char) :
    (x ++ zwj :: r).takeWhile (· != zwj) = x := by
  rw [List.takeWhile_append_of_pos (ne_of_notMem h)]
  simp

theorem dropWhile_joined (h : zwj ∉ x) (r : List Char) :
    (x ++ zwj :: r).dropWhile (· != zwj) = zwj :: r := by
  rw [List.dropWhile_append_of_pos (ne_of_notMem h)]
  simp

theorem withTone_joined (h : zwj ∉ x) (r : List Char) (tone : Char) :
    withTone (x ++ zwj :: r) tone = dropSelectors x ++ tone :: zwj :: r := by
  rw [withTone, if_pos (by simp), takeWhile_joined h, dropWhile_joined h]

theorem withTone_led {g : Char} (hg : g ∈ people) (r : List Char) (tone : Char) :
    withTone (g :: zwj :: r) tone = g :: tone :: zwj :: r := by
  have lone : ∀ g ∈ people, zwj ≠ g ∧ g ≠ vs16 := forall_mem_of_all (by decide)
  have split := withTone_joined (x := [g]) (by simpa using (lone g hg).1) r tone
  rwa [dropSelectors_eq_self (by simpa using (lone g hg).2)] at split

variable {e : Entry}

theorem renderings_toned (kind : e.kind = .diversity ∨ e.kind = .variantDiversity) :
    e.renderings = .ok (e.base :: skinTones.map fun t => ⟨withTone e.base.points t, true⟩) := by
  unfold renderings
  rcases kind with kind | kind
  · rw [kind]
  · rw [kind]

theorem withTone_mem_renderings (kind : e.kind = .diversity ∨ e.kind = .variantDiversity)
    {ss : List Sequence} (h : e.renderings = .ok ss) {t : Char} (ht : t ∈ skinTones) :
    ⟨withTone e.base.points t, true⟩ ∈ ss := by
  rw [renderings_toned kind, Except.ok.injEq] at h
  rw [← h]
  exact List.mem_cons_of_mem _ (List.mem_map_of_mem ht)

theorem renderings_bare (toned : e.kind ≠ .diversity ∧ e.kind ≠ .variantDiversity)
    (single : e.kind ≠ .multiDiversity) : e.renderings = .ok [e.base] := by
  unfold renderings
  split
  · next kind => exact absurd kind toned.1
  · next kind => exact absurd kind toned.2
  · next kind => exact absurd kind single
  · rfl

/-- Does the entry put selectors and tones where its class does? -/
def Agrees (e : Entry) : Prop :=
  match e.kind with
  | .variant =>
    e.base.points = Class.dropLateSelectors e.base.points ∨
      e.base.points = Class.dropLateSelectors e.base.points ++ [vs16]
  | .variantDiversity => e.base.points = Class.dropLateSelectors e.base.points
  | .diversity =>
    if zwj ∈ e.base.points then
      Shape.Led e.base.points ∨ (e.base.points.count zwj = 1 ∧
        ∀ s, ¬ [vs16, vs16, zwj, s, vs16] <:+ e.base.points)
    else e.base.points = Class.dropLateSelectors e.base.points
  | _ => True

end Entry

section

variable {entries : List Entry} {placed : List Placed} {e : Entry}

theorem mem_contents_ofAxis (h : classify entries = .ok placed) {axis : Axis} {x : List Char} :
    x ∈ contents placed (Class.ofAxis axis) ↔ Residual (gendered entries) axis x :=
  Set.ext_iff.1 (pointsOf_ofAxis h axis) x

theorem mem_recognised_signed (h : classify entries = .ok placed) {x : List Char} {s : Char}
    (hs : s ∈ signs) {u : List Char} :
    (Residual (gendered entries) .trailingWithVariant x →
      (u = [] ∨ ∃ c ∈ vs16 :: skinTones, u = [c]) → x ++ u ++ [zwj, s, vs16] ∈ recognised placed) ∧
    (Residual (gendered entries) .trailing x →
      (u = [] ∨ ∃ c ∈ skinTones, u = [c]) → x ++ u ++ [zwj, s, vs16] ∈ recognised placed) := by
  constructor
  · intro hx hu
    have content := (mem_contents_ofAxis h).2 hx
    exact ⟨.trailingGenderWithVariant, mem_signed.2 ⟨x, content, u, hu, s, hs, .inr rfl⟩⟩
  · intro hx hu
    have content := (mem_contents_ofAxis h).2 hx
    exact ⟨.trailingGender, mem_signed.2 ⟨x, content, u, hu, s, hs, .inr rfl⟩⟩

theorem mem_recognised_led (h : classify entries = .ok placed) {g : Char} (hg : g ∈ people)
    {r : List Char} (known : g :: zwj :: r ∈ gendered entries) :
    g :: zwj :: r ∈ recognised placed ∧
      ∀ t ∈ skinTones, Entry.withTone (g :: zwj :: r) t ∈ recognised placed := by
  have content : r ∈ contents placed .leadingGender := by
    rw [(closed_gendered h).mem_led hg] at known
    exact (mem_contents_ofAxis h).2 (residual_leading.2 known)
  constructor
  · exact ⟨.leadingGender, mem_words_leadingGender.2 ⟨g, hg, r, content, .inl rfl⟩⟩
  · intro t ht
    rw [Entry.withTone_led hg]
    exact ⟨.leadingGender, mem_words_leadingGender.2 ⟨g, hg, r, content, .inr ⟨t, ht, rfl⟩⟩⟩

theorem notMem_of_count {x r : List Char} (once : (x ++ zwj :: r).count zwj = 1) : zwj ∉ x := by
  rw [List.count_append, List.count_cons_self] at once
  exact List.count_eq_zero.1 (by omega)

theorem mem_recognised_gendered (h : classify entries = .ok placed) {p : List Char}
    (known : p ∈ gendered entries)
    (agrees : Shape.Led p ∨ p.count zwj = 1 ∧ ∀ s, ¬ [vs16, vs16, zwj, s, vs16] <:+ p) :
    p ∈ recognised placed ∧ ∀ t ∈ skinTones, Entry.withTone p t ∈ recognised placed := by
  by_cases led : Shape.Led p
  · obtain ⟨g, hg, r, rfl⟩ := led
    exact mem_recognised_led h hg known
  · obtain ⟨once, selectors⟩ := agrees.resolve_left led
    have member : p ∈ {p | p ∈ gendered entries} := known
    rw [(closed_gendered h).eq_union] at member
    rcases member with (⟨g, hg, r, -, e⟩ | ⟨s, hs, x, hx, rfl⟩) | ⟨s, hs, x, hx, rfl⟩
    · exact absurd ⟨g, hg, r, e⟩ led
    · have signed := fun u => (mem_recognised_signed h hs (x := x) (u := u)).1 hx
      have free : zwj ∉ x ++ [vs16] := by
        apply notMem_of_count (r := [s, vs16])
        simpa using once
      have bare : x.getLast? ≠ some vs16 := by
        intro last
        obtain ⟨y, rfl⟩ := List.getLast?_eq_some_iff.1 last
        exact selectors s ⟨y, by simp⟩
      constructor
      · simpa using signed [vs16] (.inr ⟨vs16, by simp, rfl⟩)
      · intro t ht
        have split := Entry.withTone_joined free [s, vs16] t
        rw [Entry.dropSelectors_append_vs16, Entry.dropSelectors_eq_self bare] at split
        have word := signed [t] (.inr ⟨t, List.mem_cons_of_mem vs16 ht, rfl⟩)
        simpa [← split] using word
    · have signed := fun u => (mem_recognised_signed h hs (x := x) (u := u)).2 hx
      have free := notMem_of_count once
      constructor
      · simpa using signed [] (.inl rfl)
      · intro t ht
        have split := Entry.withTone_joined free [s, vs16] t
        rw [Entry.dropSelectors_eq_self (residual_bare.1 hx).2.2] at split
        rw [split]
        simpa using signed [t] (.inr ⟨t, ht, rfl⟩)

theorem mem_contents_place (h : classify entries = .ok placed) (he : e ∈ entries)
    (single : e.kind ≠ .multiDiversity) (free : zwj ∉ e.base.points) :
    (Class.ofKind e.kind).keep e.base.points ∈ contents placed (Class.ofKind e.kind) := by
  exact ⟨_, mem_sequencesOf.2 (place_mem_of_classify h he single free), rfl⟩

theorem exists_renderings (h : classify entries = .ok placed) (he : e ∈ entries) :
    ∃ ss, e.renderings = .ok ss := by
  by_cases multi : e.kind = .multiDiversity
  · exact (exists_classify_eq_ok_iff.1 ⟨placed, h⟩).2.1 e he multi
  · by_cases toned : e.kind = .diversity ∨ e.kind = .variantDiversity
    · exact ⟨_, Entry.renderings_toned toned⟩
    · exact ⟨_, Entry.renderings_bare (not_or.1 toned) multi⟩

theorem mem_recognised_of_agrees (h : classify entries = .ok placed) (he : e ∈ entries)
    (shown : e.kind ≠ .keycap ∧ e.kind ≠ .textDefault) (agrees : e.Agrees) {ss : List Sequence}
    (hss : e.renderings = .ok ss) : ∀ s ∈ ss, s.points ∈ recognised placed := by
  have free := notMem_zwj_of_classify h he
  have content := mem_contents_place h he
  have single : e.kind ≠ .multiDiversity → e.kind ≠ .diversity → e.kind ≠ .variantDiversity →
      e.base.points ∈ recognised placed → ∀ s ∈ ss, s.points ∈ recognised placed := by
    intro m d v base s hs
    rw [Entry.renderings_bare ⟨d, v⟩ m, Except.ok.injEq] at hss
    rw [← hss, List.mem_singleton] at hs
    rwa [hs]
  have toned : e.kind = .diversity ∨ e.kind = .variantDiversity →
      e.base.points ∈ recognised placed ∧
        (∀ t ∈ skinTones, Entry.withTone e.base.points t ∈ recognised placed) →
      ∀ s ∈ ss, s.points ∈ recognised placed := by
    intro d all s hs
    rw [Entry.renderings_toned d, Except.ok.injEq] at hss
    rw [← hss, List.mem_cons, List.mem_map] at hs
    rcases hs with rfl | ⟨t, ht, rfl⟩
    · exact all.1
    · exact all.2 t ht
  unfold Entry.Agrees at agrees
  cases kind : e.kind with
  | keycap => exact absurd kind shown.1
  | textDefault => exact absurd kind shown.2
  | multiDiversity =>
    intro s hs
    have member := (mem_classify h).2 (.inl ⟨e, he, kind, ss, hss, s, hs, rfl⟩)
    exact ⟨.multiDiversity, s, mem_sequencesOf.2 member, rfl⟩
  | normal =>
    simp only [kind] at single content
    apply single (by decide) (by decide) (by decide)
    by_cases joined : zwj ∈ e.base.points
    · have member := joined_mem_of_classify h he kind joined
      exact ⟨.joined, e.base, mem_sequencesOf.2 member, rfl⟩
    · exact ⟨.normal, content (by decide) joined⟩
  | flag =>
    simp only [kind] at single content free
    apply single (by decide) (by decide) (by decide)
    exact ⟨.normal, content (by decide) (free (by decide) (by decide) (by decide))⟩
  | regional =>
    simp only [kind] at single content free
    apply single (by decide) (by decide) (by decide)
    exact ⟨.normal, content (by decide) (free (by decide) (by decide) (by decide))⟩
  | variant =>
    simp only [kind] at single content free agrees
    apply single (by decide) (by decide) (by decide)
    have kept := content (by decide) (free (by decide) (by decide) (by decide))
    refine ⟨.variant, mem_mul_anyChar_add_one.2 ?_⟩
    rcases agrees with same | selector
    · rw [same]
      exact .inl kept
    · exact .inr ⟨_, kept, vs16, by simp, selector⟩
  | variantDiversity =>
    simp only [kind] at content free agrees
    have free := free (by decide) (by decide) (by decide)
    have kept : e.base.points ∈ contents placed .variantDiversity := by
      rw [agrees]
      exact content (by decide) free
    apply toned (.inr kind)
    refine ⟨⟨.variantDiversity, mem_mul_anyChar_add_one.2 (.inl kept)⟩, ?_⟩
    intro t ht
    rw [Entry.withTone_plain free]
    exact ⟨.variantDiversity, mem_mul_anyChar_add_one.2
      (.inr ⟨_, kept, t, List.mem_cons_of_mem vs16 ht, rfl⟩)⟩
  | diversity =>
    simp only [kind] at content agrees
    apply toned (.inl kind)
    by_cases joined : zwj ∈ e.base.points
    · rw [if_pos joined] at agrees
      exact mem_recognised_gendered h (mem_gendered.2 ⟨e, he, kind, joined, rfl⟩) agrees
    · rw [if_neg joined] at agrees
      have kept : e.base.points ∈ contents placed .diversity := by
        rw [agrees]
        exact content (by decide) joined
      refine ⟨⟨.diversity, mem_mul_anyChar_add_one.2 (.inl kept)⟩, ?_⟩
      intro t ht
      rw [Entry.withTone_plain joined]
      exact ⟨.diversity, mem_mul_anyChar_add_one.2 (.inr ⟨_, kept, t, ht, rfl⟩)⟩

end

end Pictograph
