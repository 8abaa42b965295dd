import Pictograph.Proofs.Classify.Renderings

/-!
Smallest tables. An entry on its own, or with its siblings, is a table in which nothing else can
make up for a rendering that the class of the entry misses.
-/

namespace Pictograph

section

variable {x y r v : List Char} {t : Char}

theorem front_eq (hx : zwj ∉ x) (hy : zwj ∉ y) (e : x ++ zwj :: r = y ++ zwj :: v) : x = y := by
  rw [← Entry.takeWhile_joined hx r, e, Entry.takeWhile_joined hy]

theorem tone_ne : ∀ t ∈ skinTones, t ≠ vs16 ∧ zwj ≠ t := forall_mem_of_all (by decide)

theorem ne_dropSelectors_append_tone (ht : t ∈ skinTones) (x : List Char) :
    x ≠ Entry.dropSelectors x ++ [t] := by
  intro e
  obtain ⟨n, e'⟩ := Entry.exists_dropSelectors x
  have same : [t] = List.replicate n vs16 := List.append_cancel_left (e.symm.trans e')
  have tone := List.eq_of_mem_replicate (same ▸ List.mem_singleton_self t)
  exact (tone_ne t ht).1 tone

theorem notMem_dropSelectors_append (h : zwj ∉ x) (ht : t ∈ skinTones) :
    zwj ∉ Entry.dropSelectors x ++ [t] := by
  intro mem
  rcases List.mem_append.1 mem with mem | mem
  · exact h (Entry.mem_of_mem_dropSelectors mem)
  · exact (tone_ne t ht).2 (List.mem_singleton.1 mem)

theorem notMem_append {u : List Char} (h : zwj ∉ x)
    (hu : u = [] ∨ ∃ c ∈ vs16 :: skinTones, u = [c]) : zwj ∉ x ++ u := by
  have other : ∀ c ∈ vs16 :: skinTones, zwj ∉ [c] := forall_mem_of_all (by decide)
  rw [List.mem_append, not_or]
  refine ⟨h, ?_⟩
  rcases hu with rfl | ⟨c, hc, rfl⟩
  · decide
  · exact other c hc

theorem free_of_withTone {selector u : List Char} (ht : t ∈ skinTones)
    (e : Entry.withTone (x ++ selector ++ zwj :: r) t = x ++ u ++ zwj :: v) : zwj ∉ x := by
  intro mem
  -- With a joiner in `x`, the tone would stand before that one.
  obtain ⟨front, back, rfl, hf⟩ := List.eq_append_cons_of_mem mem
  have split := Entry.withTone_joined hf (back ++ selector ++ zwj :: r) t
  simp only [List.append_assoc, List.cons_append] at e split
  rw [split, List.append_cons (Entry.dropSelectors front)] at e
  have same := front_eq (notMem_dropSelectors_append hf ht) hf e
  exact ne_dropSelectors_append_tone ht front same.symm

theorem bare_of_withTone {selector u : List Char} (ht : t ∈ skinTones)
    (hs : selector = [] ∨ selector = [vs16]) (hu : u = [] ∨ ∃ c ∈ vs16 :: skinTones, u = [c])
    (free : zwj ∉ x) (e : Entry.withTone (x ++ selector ++ zwj :: r) t = x ++ u ++ zwj :: v) :
    x.getLast? ≠ some vs16 := by
  have freeSelector : zwj ∉ x ++ selector :=
    notMem_append free (hs.imp_right fun one => ⟨vs16, List.mem_cons_self, one⟩)
  have shorter : Entry.dropSelectors (x ++ selector) = Entry.dropSelectors x := by
    rcases hs with rfl | rfl
    · rw [List.append_nil]
    · exact Entry.dropSelectors_append_vs16 x
  have split := Entry.withTone_joined freeSelector r t
  rw [shorter, e, List.append_cons (Entry.dropSelectors x)] at split
  have same := front_eq (notMem_append free hu) (notMem_dropSelectors_append free ht) split
  intro last
  obtain ⟨z, rfl⟩ := List.getLast?_eq_some_iff.1 last
  -- Dropping the selector makes room for the tone, so nothing else stands before the sign.
  rw [Entry.dropSelectors_append_vs16] at same
  have short : (Entry.dropSelectors z).length ≤ z.length := (List.rdropWhile_prefix _ z).length_le
  have length := congrArg List.length same
  simp only [List.length_append, List.length_singleton] at length
  have none : u = [] := List.length_eq_zero_iff.1 (by omega)
  rw [none, List.append_nil] at same
  have ends := (List.append_inj' same rfl).2
  exact (tone_ne t ht).1 (List.singleton_inj.1 ends).symm

end

def siblings (stem : List Char) : List Entry :=
  signs.map fun s => .bare (stem ++ [zwj, s, vs16]) .diversity

section

variable {stem : List Char} {known : List (List Char)} {entries : List Entry} {placed : List Placed}
  {e : Entry}

theorem closed_of_stem (led : ¬ Shape.Led (stem ++ [zwj, maleSign, vs16]))
    (only : ∀ q, q ∈ known ↔ ∃ s ∈ signs, q = stem ++ [zwj, s, vs16]) : Closed known := by
  have female : stem ++ [zwj, femaleSign, vs16] ∈ known := (only _).2 ⟨femaleSign, by decide, rfl⟩
  have male : stem ++ [zwj, maleSign, vs16] ∈ known := (only _).2 ⟨maleSign, by decide, rfl⟩
  have led' : ¬ Shape.Led (stem ++ [zwj, femaleSign, vs16]) := by
    rwa [Shape.led_append_sign stem femaleSign maleSign]
  intro p hp
  obtain ⟨s, hs, rfl⟩ := (only p).1 hp
  have sign : s = femaleSign ∨ s = maleSign := by simpa [signs] using hs
  by_cases variant : stem.getLast? = some vs16
  · obtain ⟨x, rfl⟩ := List.getLast?_eq_some_iff.1 variant
    simp only [List.append_assoc, List.singleton_append] at *
    rcases sign with rfl | rfl
    · exact ⟨_, .variantFemale x led', by simpa using male⟩
    · exact ⟨_, .variantMale x led, by simpa using female⟩
  · rcases sign with rfl | rfl
    · exact ⟨_, .female stem led' variant, by simpa using male⟩
    · exact ⟨_, .male stem led variant, by simpa using female⟩

theorem toned_siblings {s : Char} (kind : e.kind = .diversity)
    (base : e.base.points = stem ++ [zwj, s, vs16]) :
    ∀ e' ∈ e :: siblings stem, e'.kind = .diversity ∧ zwj ∈ e'.base.points := by
  intro e' he'
  rcases List.mem_cons.1 he' with rfl | he'
  · exact ⟨kind, by simp [base]⟩
  · obtain ⟨s', -, rfl⟩ := List.mem_map.1 he'
    exact ⟨rfl, by simp [Entry.bare]⟩

theorem mem_gendered_siblings {s : Char} (hs : s ∈ signs) (kind : e.kind = .diversity)
    (base : e.base.points = stem ++ [zwj, s, vs16]) (q : List Char) :
    q ∈ gendered (e :: siblings stem) ↔ ∃ s ∈ signs, q = stem ++ [zwj, s, vs16] := by
  rw [mem_gendered]
  constructor
  · intro h
    obtain ⟨e', he', -, -, rfl⟩ := h
    rcases List.mem_cons.1 he' with rfl | he'
    · exact ⟨s, hs, base⟩
    · obtain ⟨s', hs', rfl⟩ := List.mem_map.1 he'
      exact ⟨s', hs', rfl⟩
  · intro h
    obtain ⟨s', hs', rfl⟩ := h
    refine ⟨_, List.mem_cons_of_mem e (List.mem_map_of_mem hs'), rfl, ?_, rfl⟩
    simp [Entry.bare]

theorem residual_of_mem (h : classify entries = .ok placed)
    (all : ∀ e ∈ entries, e.kind = .diversity ∧ zwj ∈ e.base.points) {p : Placed}
    (hp : p ∈ placed) :
    ∃ axis, p.cls = Class.ofAxis axis ∧ Residual (gendered entries) axis p.sequence.points := by
  have axis : ∃ axis, p.cls = Class.ofAxis axis := by
    rcases (mem_classify h).1 hp with multi | family | joined | plain
    · obtain ⟨e, he, kind, -⟩ := multi
      rw [(all e he).1] at kind
      cases kind
    · obtain ⟨e, -, axis, r, -, rfl⟩ := family
      exact ⟨axis, rfl⟩
    · obtain ⟨e, he, kind, -⟩ := joined
      rw [(all e he).1] at kind
      cases kind
    · obtain ⟨e, he, -, free, -⟩ := plain
      exact absurd (all e he).2 free
  obtain ⟨axis, cls⟩ := axis
  refine ⟨axis, cls, (mem_contents_ofAxis h).1 ?_⟩
  rw [← cls]
  exact ⟨_, mem_sequencesOf.2 hp, rfl⟩

theorem not_led_of_stem (led : ¬ Shape.Led (stem ++ [zwj, maleSign, vs16]))
    (only : ∀ q, q ∈ known ↔ ∃ s ∈ signs, q = stem ++ [zwj, s, vs16]) {q : List Char}
    (hq : q ∈ known) : ¬ Shape.Led q := by
  obtain ⟨s, -, rfl⟩ := (only q).1 hq
  rwa [Shape.led_append_sign stem s maleSign]

theorem stem_of_residual (led : ¬ Shape.Led (stem ++ [zwj, maleSign, vs16]))
    (only : ∀ q, q ∈ known ↔ ∃ s ∈ signs, q = stem ++ [zwj, s, vs16]) {axis : Axis} {x : List Char}
    (h : Residual known axis x) : axis ≠ .leading ∧
      (stem = x ++ [vs16] ∨ stem = x ∧ x.getLast? ≠ some vs16) := by
  cases axis with
  | leading =>
    have first := residual_leading.1 h
    exact absurd ⟨person, by decide, x, rfl⟩ (not_led_of_stem led only first)
  | trailingWithVariant =>
    obtain ⟨s, -, e⟩ := (only _).1 (residual_variant.1 h).1
    have split : (x ++ [vs16]) ++ [zwj, maleSign, vs16] = stem ++ [zwj, s, vs16] := by
      simpa using e
    exact ⟨by decide, .inl (List.append_inj' split rfl).1.symm⟩
  | trailing =>
    obtain ⟨s, -, e⟩ := (only _).1 (residual_bare.1 h).1
    have same := (List.append_inj' e rfl).1
    exact ⟨by decide, .inr ⟨same.symm, (residual_bare.1 h).2.2⟩⟩

theorem exists_of_recognised (h : classify entries = .ok placed)
    (all : ∀ e ∈ entries, e.kind = .diversity ∧ zwj ∈ e.base.points)
    (led : ¬ Shape.Led (stem ++ [zwj, maleSign, vs16]))
    (only : ∀ q, q ∈ gendered entries ↔ ∃ s ∈ signs, q = stem ++ [zwj, s, vs16])
    {w : List Char} (hw : w ∈ recognised placed) :
    ∃ x u v, (stem = x ++ [vs16] ∨ stem = x ∧ x.getLast? ≠ some vs16) ∧
      (u = [] ∨ ∃ c ∈ vs16 :: skinTones, u = [c]) ∧ w = x ++ u ++ zwj :: v := by
  obtain ⟨c, hw⟩ := hw
  obtain ⟨_, s, hs, rfl⟩ := Class.exists_of_mem_words hw
  obtain ⟨axis, cls, -⟩ := residual_of_mem h all (mem_sequencesOf.1 hs)
  have cls : c = Class.ofAxis axis := cls
  subst cls
  have left : ∀ x ∈ contents placed (Class.ofAxis axis), axis ≠ .leading ∧
      (stem = x ++ [vs16] ∨ stem = x ∧ x.getLast? ≠ some vs16) := by
    intro x hx
    exact stem_of_residual led only ((mem_contents_ofAxis h).1 hx)
  have last := (left _ ⟨s, hs, rfl⟩).1
  have signed : ∃ x ∈ contents placed (Class.ofAxis axis), ∃ u,
      (u = [] ∨ ∃ c ∈ vs16 :: skinTones, u = [c]) ∧ ∃ v, w = x ++ u ++ zwj :: v := by
    cases axis with
    | leading => exact absurd rfl last
    | trailingWithVariant =>
      obtain ⟨x, hx, u, hu, s, -, e | e⟩ := mem_signed.1 hw
      · exact ⟨x, hx, u, hu, [s], e⟩
      · exact ⟨x, hx, u, hu, [s, vs16], e⟩
    | trailing =>
      obtain ⟨x, hx, u, hu, s, -, e⟩ := mem_signed.1 hw
      have tone : u = [] ∨ ∃ c ∈ vs16 :: skinTones, u = [c] := by
        rcases hu with none | ⟨c, hc, one⟩
        · exact .inl none
        · exact .inr ⟨c, List.mem_cons_of_mem vs16 hc, one⟩
      rcases e with e | e
      · exact ⟨x, hx, u, tone, [s], e⟩
      · exact ⟨x, hx, u, tone, [s, vs16], e⟩
  obtain ⟨x, hx, u, hu, v, e⟩ := signed
  exact ⟨x, u, v, (left x hx).2, hu, e⟩

theorem agrees_of_stem {s : Char} (hs : s ∈ signs)
    (base : e.base.points = stem ++ [zwj, s, vs16]) (kind : e.kind = .diversity)
    (led : ¬ Shape.Led (stem ++ [zwj, maleSign, vs16]))
    (h : classify (e :: siblings stem) = .ok placed)
    (all : ∀ t ∈ skinTones, Entry.withTone e.base.points t ∈ recognised placed) :
    e.base.points.count zwj = 1 ∧ ∀ s, ¬ [vs16, vs16, zwj, s, vs16] <:+ e.base.points := by
  have only := mem_gendered_siblings hs kind base
  have toned := toned_siblings kind base
  have tone : skinTones.head (by decide) ∈ skinTones := List.head_mem _
  obtain ⟨x, u, v, start, hu, e'⟩ := exists_of_recognised h toned led only (all _ tone)
  have selector : ∃ selector, stem = x ++ selector ∧ (selector = [] ∨ selector = [vs16]) := by
    rcases start with start | start
    · exact ⟨[vs16], start, .inr rfl⟩
    · exact ⟨[], by simpa using start.1, .inl rfl⟩
  obtain ⟨selector, split, hselector⟩ := selector
  rw [base, split] at e'
  have free := free_of_withTone tone e'
  have last := bare_of_withTone tone hselector hu free e'
  have sign : ∀ s ∈ signs, zwj ∉ [s, vs16] := forall_mem_of_all (by decide)
  have freeStem : zwj ∉ stem := by
    rw [split]
    exact notMem_append free (hselector.imp_right fun one => ⟨vs16, List.mem_cons_self, one⟩)
  constructor
  · rw [base, List.count_append, List.count_cons_self, List.count_eq_zero.2 freeStem,
      List.count_eq_zero.2 (sign s hs)]
  · intro s' suffix
    obtain ⟨z, e''⟩ := suffix
    have split' : (z ++ [vs16, vs16]) ++ [zwj, s', vs16] = stem ++ [zwj, s, vs16] := by
      simpa [base] using e''
    have same := (List.append_inj' split' rfl).1
    rcases start with start | start
    · have inner : z ++ [vs16] = x := by
        rw [start] at same
        exact (List.append_inj' (by simpa using same) rfl).1
      exact last (by simp [← inner])
    · rw [start.1] at same
      exact last (by simp [← same])

theorem exists_stem (h : classify entries = .ok placed) {p : List Char}
    (known : p ∈ gendered entries) (led : ¬ Shape.Led p) :
    ∃ stem, ∃ s ∈ signs, p = stem ++ [zwj, s, vs16] := by
  have member : p ∈ {p | p ∈ gendered entries} := known
  rw [(closed_gendered h).eq_union] at member
  rcases member with (⟨g, hg, r, -, e⟩ | ⟨s, hs, x, -, e⟩) | ⟨s, hs, x, -, e⟩
  · exact absurd ⟨g, hg, r, e⟩ led
  · exact ⟨x ++ [vs16], s, hs, by simpa using e⟩
  · exact ⟨x, s, hs, e⟩

theorem exists_classify_siblings (h : classify entries = .ok placed)
    (full : ∀ p ∈ placed, p.sequence.points ≠ []) (he : e ∈ entries) (kind : e.kind = .diversity)
    {s : Char} (hs : s ∈ signs) (base : e.base.points = stem ++ [zwj, s, vs16])
    (led : ¬ Shape.Led (stem ++ [zwj, maleSign, vs16])) :
    ∃ placed, classify (e :: siblings stem) = .ok placed ∧
      ∀ p ∈ placed, p.sequence.points ≠ [] := by
  have only := mem_gendered_siblings hs kind base
  have toned := toned_siblings kind base
  have sorted : ∃ placed, classify (e :: siblings stem) = .ok placed := by
    refine exists_classify_eq_ok_iff.2 ⟨?_, ?_, closed_of_stem led only⟩
    · intro e' he' _ _
      exact .inl (toned e' he').1
    · intro e' he' multi
      rw [(toned e' he').1] at multi
      cases multi
  obtain ⟨placed', h'⟩ := sorted
  refine ⟨placed', h', ?_⟩
  have known : ∀ q ∈ gendered (e :: siblings stem), q ∈ gendered entries := by
    intro q hq
    have closed := closed_gendered h
    obtain ⟨s', hs', rfl⟩ := (only q).1 hq
    rw [closed.mem_signed hs' led, ← closed.mem_signed hs led, ← base, mem_gendered]
    exact ⟨e, he, kind, by simp [base], rfl⟩
  intro p hp
  obtain ⟨axis, -, residual⟩ := residual_of_mem h' toned hp
  obtain ⟨s', hs', same⟩ := (mem_contents_ofAxis h).2 (residual.mono known)
  rw [← same]
  exact full _ (mem_sequencesOf.1 hs')

theorem classify_singleton (single : e.kind ≠ .multiDiversity) (free : zwj ∉ e.base.points) :
    classify [e] = .ok [e.place] := by
  have multi : e.isMulti = false := by simpa [Entry.isMulti] using single
  have plain : e.isPlain = true := Entry.isPlain_iff.2 ⟨single, free⟩
  have joined : e.isJoined = false := by simp [Entry.isJoined, Sequence.joined, free]
  simp [classify, multi, plain, joined, bind, Except.bind, pure, Except.pure]

theorem mem_words_of_recognised_singleton {p : Placed} {w : List Char} (h : w ∈ recognised [p]) :
    w ∈ p.cls.words {p.sequence.points} := by
  obtain ⟨c, hw⟩ := h
  obtain ⟨_, s, hs, -⟩ := Class.exists_of_mem_words hw
  have cls : c = p.cls := congrArg Placed.cls (List.mem_singleton.1 (mem_sequencesOf.1 hs))
  have content : contents [p] c = {p.sequence.points} := by
    ext x
    have one : x ∈ ({p.sequence.points} : Language Char) ↔ x = p.sequence.points := Iff.rfl
    rw [mem_contents, cls, one]
    simp [sequencesOf, eq_comm]
  rwa [content, cls] at hw

theorem eq_dropLateSelectors_of_toned {p cs : List Char} {t : Char}
    (h : p ++ [t] ∈ ({Class.dropLateSelectors p} : Language Char) * (anyChar cs + 1)) :
    p = Class.dropLateSelectors p := by
  rcases mem_mul_anyChar_add_one.1 h with whole | ⟨_, rfl, c, -, e⟩
  · obtain ⟨n, e⟩ := Entry.exists_dropLateSelectors p
    have longer := congrArg List.length (Set.mem_singleton_iff.1 whole)
    have length := congrArg List.length e
    simp only [List.length_append, List.length_singleton, List.length_replicate] at longer length
    omega
  · exact (List.append_inj' e rfl).1

/-- Does every table with the entry that can be sorted recognise all its renderings? -/
def Entry.AlwaysRecognised (e : Entry) : Prop :=
  ∀ entries placed, e ∈ entries → classify entries = .ok placed →
    (∀ p ∈ placed, p.sequence.points ≠ []) →
    ∃ ss, e.renderings = .ok ss ∧ ∀ s ∈ ss, s.points ∈ recognised placed

theorem Entry.AlwaysRecognised.alone (all : e.AlwaysRecognised)
    (h : classify entries = .ok placed) (full : ∀ p ∈ placed, p.sequence.points ≠ [])
    (he : e ∈ entries) (single : e.kind ≠ .multiDiversity) (free : zwj ∉ e.base.points) :
    ∃ ss, e.renderings = .ok ss ∧ ∀ s ∈ ss, s.points ∈ e.place.cls.words
      ({e.place.sequence.points} : Language Char) := by
  have member := place_mem_of_classify h he single free
  obtain ⟨ss, hss, words⟩ := all [e] [e.place] (List.mem_singleton_self e)
    (classify_singleton single free) (by simpa using full _ member)
  refine ⟨ss, hss, ?_⟩
  intro s hs
  exact mem_words_of_recognised_singleton (words s hs)

theorem Entry.AlwaysRecognised.eq_dropLateSelectors (all : e.AlwaysRecognised)
    (h : classify entries = .ok placed) (full : ∀ p ∈ placed, p.sequence.points ≠ [])
    (he : e ∈ entries) (toned : e.kind = .diversity ∨ e.kind = .variantDiversity)
    (free : zwj ∉ e.base.points) : e.base.points = Class.dropLateSelectors e.base.points := by
  have single : e.kind ≠ .multiDiversity := by
    rcases toned with kind | kind
    · simp [kind]
    · simp [kind]
  have tone : skinTones.head (by decide) ∈ skinTones := List.head_mem _
  obtain ⟨ss, hss, words⟩ := all.alone h full he single free
  have word := words _ (Entry.withTone_mem_renderings toned hss tone)
  rw [Entry.withTone_plain free] at word
  rcases toned with kind | kind
  · simp only [Entry.place, kind] at word
    exact eq_dropLateSelectors_of_toned word
  · simp only [Entry.place, kind] at word
    exact eq_dropLateSelectors_of_toned word

theorem Entry.AlwaysRecognised.led_or_count (all : e.AlwaysRecognised)
    (h : classify entries = .ok placed) (full : ∀ p ∈ placed, p.sequence.points ≠ [])
    (he : e ∈ entries) (kind : e.kind = .diversity) (joined : zwj ∈ e.base.points) :
    Shape.Led e.base.points ∨ e.base.points.count zwj = 1 ∧
      ∀ s, ¬ [vs16, vs16, zwj, s, vs16] <:+ e.base.points := by
  by_cases led : Shape.Led e.base.points
  · exact .inl led
  · right
    have known : e.base.points ∈ gendered entries := mem_gendered.2 ⟨e, he, kind, joined, rfl⟩
    obtain ⟨stem, s, hs, base⟩ := exists_stem h known led
    rw [base, Shape.led_append_sign stem s maleSign] at led
    obtain ⟨placed', h', full'⟩ := exists_classify_siblings h full he kind hs base led
    obtain ⟨ss, hss, words⟩ := all _ _ List.mem_cons_self h' full'
    refine agrees_of_stem hs base kind led h' ?_
    intro t ht
    exact words _ (Entry.withTone_mem_renderings (.inl kind) hss ht)

/-- An entry of a table agrees if all tables with it recognise its renderings. -/
theorem agrees_of_recognised (h : classify entries = .ok placed)
    (full : ∀ p ∈ placed, p.sequence.points ≠ []) (he : e ∈ entries)
    (all : e.AlwaysRecognised) : e.Agrees := by
  have free := notMem_zwj_of_classify h he
  unfold Entry.Agrees
  cases kind : e.kind with
  | variant =>
    simp only [kind] at free
    obtain ⟨ss, hss, words⟩ := all.alone h full he (by simp [kind])
      (free (by decide) (by decide) (by decide))
    rw [Entry.renderings_bare (by simp [kind]) (by simp [kind]), Except.ok.injEq] at hss
    have word := words e.base (hss ▸ List.mem_singleton_self e.base)
    simp only [Entry.place, kind] at word
    rcases mem_mul_anyChar_add_one.1 word with whole | ⟨_, rfl, c, hc, same⟩
    · exact .inl whole
    · rw [List.mem_singleton.1 hc] at same
      exact .inr same
  | variantDiversity =>
    simp only [kind] at free
    exact all.eq_dropLateSelectors h full he (.inr kind)
      (free (by decide) (by decide) (by decide))
  | diversity =>
    dsimp only
    split
    · next joined => exact all.led_or_count h full he kind joined
    · next free => exact all.eq_dropLateSelectors h full he (.inl kind) free
  | _ => trivial

end

end Pictograph
