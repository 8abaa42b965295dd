import Pictograph.Proofs.Pattern.Words

/-!
The longest way first. A pattern prefers the longest way of matching if it is greedy, and also if a
greedy pattern is followed by one that leads at least as far from a later start as from an earlier
one.
-/

namespace Pictograph.Pattern

variable {p q : Pattern} {ps qs : List Pattern}

/-- The preferred way of matching uses up the most. -/
def PrefersLongest (p : Pattern) : Prop :=
  ∀ t r, (p.rests t).head? = some r → ∀ r' ∈ p.rests t, r.length ≤ r'.length

/-- Where the pattern fits, it leads as far as from any earlier start. -/
def Patient (p : Pattern) : Prop :=
  ∀ t y, p.rests t ≠ [] → ∀ r' ∈ p.rests (y ++ t), ∃ r ∈ p.rests t, r.length ≤ r'.length

theorem Greedy.prefersLongest (h : p.Greedy) : p.PrefersLongest := by
  intro t r first r' hr'
  have order := h t
  cases e : p.rests t with
  | nil =>
    rw [e] at hr'
    simp at hr'
  | cons r₁ rests =>
    rw [e] at first hr' order
    cases first
    rcases List.mem_cons.1 hr' with rfl | hr'
    · exact le_refl _
    · exact le_of_lt (List.rel_of_pairwise_cons order hr')

theorem rests_concat_append (ps qs : List Pattern) (t : Text) :
    (concat (ps ++ qs)).rests t = ((concat ps).rests t).flatMap (concat qs).rests := by
  induction ps generalizing t with
  | nil => simp [concat, rests]
  | cons p ps ih =>
    have tail : (concat (ps ++ qs)).rests = fun t =>
        ((concat ps).rests t).flatMap (concat qs).rests := funext ih
    rw [List.cons_append, rests_concat_cons, rests_concat_cons, List.flatMap_assoc, tail]

theorem Single.greedy_concat_append (hp : (concat ps).Single) (hq : (concat qs).Greedy) :
    (concat (ps ++ qs)).Greedy := by
  intro t
  rw [rests_concat_append]
  have short := hp t
  match e : (concat ps).rests t with
  | [] => simp
  | [r] => simpa using hq r
  | r :: r' :: _ => simp [e] at short

theorem Greedy.opt (h : p.Greedy) (used : ∀ t, ∀ r ∈ p.rests t, r.length < t.length) :
    (opt p).Greedy := by
  intro t
  rw [rests, List.pairwise_append]
  refine ⟨h t, List.pairwise_singleton _ _, ?_⟩
  intro r hr r' hr'
  rw [List.mem_singleton.1 hr']
  exact used t r hr

theorem eq_of_mem_rests_notAhead {t r : Text} (h : r ∈ (notAhead p).rests t) : r = t := by
  rw [rests] at h
  split at h
  · exact List.mem_singleton.1 h
  · simp at h

theorem Greedy.alt_notAhead (h : p.Greedy) (used : ∀ t, ∀ r ∈ p.rests t, r.length < t.length) :
    (alt p (notAhead q)).Greedy := by
  intro t
  refine List.pairwise_append.2 ⟨h t, ?_, ?_⟩
  · rw [rests]
    split
    · exact List.pairwise_singleton _ _
    · exact List.Pairwise.nil
  · intro r hr r' hr'
    rw [eq_of_mem_rests_notAhead hr']
    exact used t r hr

theorem Greedy.prefersLongest_concat_cons (hp : p.Greedy) (hq : (concat qs).PrefersLongest)
    (patient : (concat qs).Patient) : (concat (p :: qs)).PrefersLongest := by
  intro t r first
  rw [rests_concat_cons] at first ⊢
  have order := hp t
  have suffix : ∀ m ∈ p.rests t, m <:+ t := fun m hm => suffix_of_mem_rests hm
  generalize p.rests t = middles at first order suffix
  -- The first middle from which the second part goes on decides.
  induction middles with
  | nil => simp
  | cons m middles ih =>
    rw [List.flatMap_cons] at first ⊢
    by_cases stuck : (concat qs).rests m = []
    · rw [stuck, List.nil_append] at first ⊢
      exact ih first order.of_cons fun m' hm' => suffix m' (List.mem_cons_of_mem m hm')
    · rw [List.head?_append_of_ne_nil _ stuck] at first
      intro r' hr'
      rcases List.mem_append.1 hr' with hr' | hr'
      · exact hq m r first r' hr'
      · obtain ⟨m', hm', hr'⟩ := List.mem_flatMap.1 hr'
        have longer := List.rel_of_pairwise_cons order hm'
        obtain ⟨y, rfl⟩ := List.suffix_of_suffix_length_le (suffix m List.mem_cons_self)
          (suffix m' (List.mem_cons_of_mem m hm')) (le_of_lt longer)
        obtain ⟨r₀, hr₀, short⟩ := patient m y stuck r' hr'
        exact (hq m r first r₀ hr₀).trans short

theorem patient_of_used (n : Nat)
    (h : ∀ t, ∀ r ∈ p.rests t, r.length + n ≤ t.length ∧ t.length ≤ r.length + n + 1) :
    p.Patient := by
  intro t y fits r' hr'
  obtain ⟨r, hr⟩ := List.exists_mem_of_ne_nil _ fits
  cases y with
  | nil => exact ⟨r', hr', le_refl _⟩
  | cons a y =>
    have here := h t r hr
    have there := h _ r' hr'
    simp only [List.cons_append, List.length_cons, List.length_append] at there
    exact ⟨r, hr, by omega⟩

section Letters

variable {s u : Nat → Prop}

theorem Spells.mem_rests_letters (h : p.Spells (letters s)) {t r : Text} :
    r ∈ p.rests t ↔ ∃ c, s c ∧ t = c :: r := by
  rw [SpellsBefore.mem_rests h]
  constructor
  · intro hr
    obtain ⟨w, ⟨c, hc, rfl⟩, rfl⟩ := hr
    exact ⟨c, hc, rfl⟩
  · intro hr
    obtain ⟨c, hc, rfl⟩ := hr
    exact ⟨[c], ⟨c, hc, rfl⟩, rfl⟩

theorem Spells.used_letters (h : p.Spells (letters s)) {t r : Text} (hr : r ∈ p.rests t) :
    t.length = r.length + 1 := by
  obtain ⟨c, -, rfl⟩ := h.mem_rests_letters.1 hr
  rfl

theorem Spells.lt_letters (h : p.Spells (letters s)) :
    ∀ t, ∀ r ∈ p.rests t, r.length < t.length := by
  intro t r hr
  rw [h.used_letters hr]
  exact Nat.lt_succ_self _

theorem Greedy.single_letters (greedy : p.Greedy) (h : p.Spells (letters s)) : p.Single := by
  intro t
  have order := greedy t
  match e : p.rests t with
  | [] => simp
  | [r] => simp
  | r :: r' :: rests =>
    have hr := h.used_letters (e ▸ List.mem_cons_self : r ∈ p.rests t)
    have hr' := h.used_letters (t := t) (r := r') (by simp [e])
    rw [e] at order
    have less := List.rel_of_pairwise_cons order (List.mem_cons_self (a := r') (l := rests))
    omega

theorem single_opt_concat (hp : p.Spells (letters s)) (hq : q.Spells (letters u))
    (single : p.Single) (single' : q.Single) (other : ∀ c, s c → ¬ u c) :
    (concat [opt p, q]).Single := by
  intro t
  have split : (concat [opt p, q]).rests t = (p.rests t).flatMap q.rests ++ q.rests t := by
    simp [concat, rests]
  rw [split]
  by_cases here : q.rests t = []
  · have both : (concat [p, q]).Single := single.concat_cons single'
    have short := both t
    rw [rests_concat_cons] at short
    rwa [here, List.append_nil]
  · have none : p.rests t = [] := by
      by_contra there
      obtain ⟨r, hr⟩ := List.exists_mem_of_ne_nil _ here
      obtain ⟨r', hr'⟩ := List.exists_mem_of_ne_nil _ there
      obtain ⟨c, hc, rfl⟩ := hq.mem_rests_letters.1 hr
      obtain ⟨c', hc', e⟩ := hp.mem_rests_letters.1 hr'
      rw [List.cons.injEq] at e
      exact other c' hc' (e.1 ▸ hc)
    rw [none]
    exact single' t

structure Tail (a j g b : Nat → Prop) (t r : Text) (x y : Text) (c d : Nat) : Prop where
  first : x = [] ∨ ∃ n, a n ∧ x = [n]
  joiner : j c
  sign : g d
  last : y = [] ∨ ∃ n, b n ∧ y = [n]
  split : t = x ++ c :: d :: (y ++ r)

variable {a j g b : Nat → Prop} {pa pj pg pb : Pattern}

theorem mem_rests_tail (ha : pa.Spells (letters a)) (hj : pj.Spells (letters j))
    (hg : pg.Spells (letters g)) (hb : pb.Spells (letters b)) {t r : Text} :
    r ∈ (concat [opt pa, pj, pg, opt pb]).rests t ↔
      ∃ x y c d, Tail a j g b t r x y c d := by
  simp only [concat, rests, List.mem_flatMap, List.mem_append, List.mem_singleton,
    ha.mem_rests_letters, hj.mem_rests_letters, hg.mem_rests_letters, hb.mem_rests_letters]
  constructor
  · intro h
    obtain ⟨m, hm, _, ⟨c, hc, rfl⟩, m', ⟨d, hd, rfl⟩, hr⟩ := h
    have last : ∃ y, (y = [] ∨ ∃ n, b n ∧ y = [n]) ∧ m' = y ++ r := by
      rcases hr with ⟨n, hn, rfl⟩ | rfl
      · exact ⟨[n], .inr ⟨n, hn, rfl⟩, rfl⟩
      · exact ⟨[], .inl rfl, rfl⟩
    obtain ⟨y, hy, rfl⟩ := last
    rcases hm with ⟨n, hn, rfl⟩ | rfl
    · exact ⟨[n], y, c, d, .inr ⟨n, hn, rfl⟩, hc, hd, hy, rfl⟩
    · exact ⟨[], y, c, d, .inl rfl, hc, hd, hy, rfl⟩
  · intro h
    obtain ⟨x, y, c, d, hx, hc, hd, hy, rfl⟩ := h
    refine ⟨c :: d :: (y ++ r), ?_, _, ⟨c, hc, rfl⟩, _, ⟨d, hd, rfl⟩, ?_⟩
    · rcases hx with rfl | ⟨n, hn, rfl⟩
      · exact .inr rfl
      · exact .inl ⟨n, hn, rfl⟩
    · rcases hy with rfl | ⟨n, hn, rfl⟩
      · exact .inr rfl
      · exact .inl ⟨n, hn, rfl⟩

/-- From one code value earlier, a tail with a joiner in it leads no further: either the joiner
comes right after that code value, or there is none. -/
theorem patient_tail (ha : pa.Spells (letters a)) (hj : pj.Spells (letters j))
    (hg : pg.Spells (letters g)) (hb : pb.Spells (letters b)) (noSign : ∀ c, a c → ¬ g c)
    (noJoiner : ∀ c, j c → ¬ g c) : (concat [opt pa, pj, pg, opt pb]).Patient := by
  have mem := fun {t r : Text} => mem_rests_tail (t := t) (r := r) ha hj hg hb
  intro t y fits r' hr'
  obtain ⟨r, hr⟩ := List.exists_mem_of_ne_nil _ fits
  obtain ⟨x, z, c, d, here⟩ := mem.1 hr
  obtain ⟨x', z', c', d', there⟩ := mem.1 hr'
  have atMost : ∀ {s : Nat → Prop} {v : Text}, (v = [] ∨ ∃ n, s n ∧ v = [n]) → v.length ≤ 1 := by
    intro s v hv
    rcases hv with rfl | ⟨n, -, rfl⟩
    · simp
    · simp
  match y with
  | [] => exact ⟨r', hr', le_refl _⟩
  | k :: l :: y =>
    have length := congrArg List.length here.split
    have length' := congrArg List.length there.split
    have front := atMost there.first
    have back := atMost there.last
    simp only [List.length_append, List.length_cons, List.cons_append] at length length'
    exact ⟨r, hr, by omega⟩
  | [k] =>
    have split := there.split
    have start := here.split
    rcases there.first with none | ⟨n, hn, one⟩
    · -- The joiner is the code value before, so a sign comes next, where nothing can start.
      rw [none, List.singleton_append, List.nil_append, List.cons.injEq] at split
      rw [split.2] at start
      rcases here.first with none | ⟨n, hn, one⟩
      · rw [none, List.nil_append, List.cons.injEq] at start
        exact absurd (start.1 ▸ there.sign) (noJoiner c here.joiner)
      · rw [one, List.singleton_append, List.cons.injEq] at start
        exact absurd (start.1 ▸ there.sign) (noSign n hn)
    · rw [one, List.singleton_append, List.singleton_append, List.cons.injEq] at split
      exact ⟨r', mem.2 ⟨[], z', c', d', .inl rfl, there.joiner, there.sign, there.last,
        split.2⟩, le_refl _⟩

theorem greedy_tail (ha : pa.Spells (letters a)) (hj : pj.Spells (letters j))
    (hb : pb.Spells (letters b)) (sa : pa.Single) (sj : pj.Single) (sg : pg.Single)
    (sb : pb.Single) (other : ∀ c, a c → ¬ j c) : (concat [opt pa, pj, pg, opt pb]).Greedy := by
  have last : (concat [opt pb]).Greedy := sb.greedy.opt hb.lt_letters
  have sign : (concat [pg]).Single := sg
  have front := single_opt_concat ha hj sa sj other
  exact front.greedy_concat_append (sign.greedy_concat_append last)

end Letters

end Pictograph.Pattern
