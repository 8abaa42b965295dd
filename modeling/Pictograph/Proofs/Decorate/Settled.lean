import Pictograph.Proofs.Classify.Placed
import Pictograph.Proofs.Compile.Steady
import Pictograph.Proofs.Decorate.Runs
import Pictograph.Proofs.Pattern.Cut

/-!
Decorating again. A stretch of a text, from one image to the next, becomes a text of its own without
its stray selectors. It holds no match that was not there before if the selectors were at its ends
and no text selector follows it; but where one was left out between two other code values, these
may match now.
-/

namespace Pictograph

/-- A text from one image to the next: gaps, each with the unresolved match after it, the last gap,
and the match of the image behind it. -/
structure Stretch where
  parts : List (Text × Text)
  last : Text
  next : Option Text

namespace Stretch

def bare (part : Text × Text) : Text × Text := (dropStray part.1, part.2)

def plain (s : Stretch) : Text := Pattern.joined (s.parts.map bare) (dropStray s.last)

/-- One more gap and match in front. A match that is resolved ends a stretch. -/
def push (image? : Text → Option Markup.Attributes) (part : Text × Text)
    (s : Stretch × List Stretch) : Stretch × List Stretch :=
  match image? part.2 with
  | some _ => (⟨[], part.1, some part.2⟩, s.1 :: s.2)
  | none => (⟨part :: s.1.parts, s.1.last, s.1.next⟩, s.2)

def ofParts (image? : Text → Option Markup.Attributes) (rest : Text)
    (parts : List (Text × Text)) : Stretch × List Stretch :=
  parts.foldr (push image?) (⟨[], rest, none⟩, [])

/-- Stray selectors are only at the ends of the stretch, and no text selector is right behind it. -/
inductive Tidy : Stretch → Prop
  | alone {gap : Text} {next : Option Text} (m n : Nat) (free : vs16.toNat ∉ gap)
      (plain : next.bind (·.head?) ≠ some vs15.toNat) :
      Tidy ⟨[], List.replicate m vs16.toNat ++ gap ++ List.replicate n vs16.toNat, next⟩
  | among {gap raw last : Text} {parts : List (Text × Text)} {next : Option Text} (m n : Nat)
      (first : vs16.toNat ∉ gap) (middle : ∀ part ∈ parts, vs16.toNat ∉ part.1)
      (free : vs16.toNat ∉ last) (plain : next.bind (·.head?) ≠ some vs15.toNat) :
      Tidy ⟨(List.replicate m vs16.toNat ++ gap, raw) :: parts,
        last ++ List.replicate n vs16.toNat, next⟩

/-- The stretch stands in a search: no match in it is resolved, and the next match is behind it. -/
structure Stands (p : Pattern) (image? : Text → Option Markup.Attributes) (after : Text)
    (s : Stretch) : Prop where
  walks : p.Walks after s.parts s.last
  unresolved : ∀ part ∈ s.parts, image? part.2 = none
  behind : after.head? = s.next.bind (·.head?)

end Stretch

theorem Dealt.ofParts_eq (image? : Text → Option Markup.Attributes) (rest : Text)
    (parts : List (Text × Text)) :
    (ofParts image? rest parts).leading = (Stretch.ofParts image? rest parts).1.plain ∧
    (ofParts image? rest parts).images.map (·.2) =
      (Stretch.ofParts image? rest parts).2.map (·.plain) := by
  induction parts with
  | nil => exact ⟨rfl, rfl⟩
  | cons part parts ih =>
    obtain ⟨leading, images⟩ := ih
    rw [ofParts, List.foldr_cons, ← ofParts, Stretch.ofParts, List.foldr_cons, ← Stretch.ofParts,
      push, Stretch.push]
    cases image? part.2 with
    | some attributes =>
      refine ⟨rfl, ?_⟩
      simp [leading, images]
    | none =>
      refine ⟨?_, images⟩
      simp [leading, Stretch.plain, Stretch.bare, Pattern.joined]

variable {p : Pattern} {image? : Text → Option Markup.Attributes}

namespace Stretch

theorem stands_ofParts (image? : Text → Option Markup.Attributes) {rest : Text}
    {parts : List (Text × Text)} (walks : p.Walks [] parts rest) :
    (∃ after, Pattern.joined parts rest =
        Pattern.joined (ofParts image? rest parts).1.parts (ofParts image? rest parts).1.last ++
          after ∧
      (ofParts image? rest parts).1.Stands p image? after) ∧
    ∀ s ∈ (ofParts image? rest parts).2, ∃ after, s.Stands p image? after := by
  induction parts with
  | nil => exact ⟨⟨[], (List.append_nil _).symm, walks, by simp [ofParts], rfl⟩, by simp [ofParts]⟩
  | cons part parts ih =>
    obtain ⟨gap, raw⟩ := part
    obtain ⟨idle, used, first, later⟩ := walks
    obtain ⟨⟨after, split, stands⟩, more⟩ := ih later
    rw [List.append_nil] at idle first
    rw [List.append_nil] at first
    rw [ofParts, List.foldr_cons, ← ofParts, push]
    cases resolved : image? raw with
    | some attributes =>
      -- The gap is a stretch of its own, and the match is behind it.
      refine ⟨⟨raw ++ Pattern.joined parts rest, Pattern.joined_cons _ _ _, idle, by simp, ?_⟩, ?_⟩
      · exact List.head?_append_of_ne_nil _ used
      · rw [List.forall_mem_cons]
        exact ⟨⟨after, stands⟩, more⟩
    | none =>
      rw [split, ← List.append_assoc] at idle first
      refine ⟨⟨after, ?_, ⟨idle, used, first, stands.walks⟩, ?_, stands.behind⟩, more⟩
      · rw [Pattern.joined_cons, Pattern.joined_cons, split]
        simp only [List.append_assoc]
      · rw [List.forall_mem_cons]
        exact ⟨resolved, stands.unresolved⟩

/-- Selectors do not matter in front of what follows, since a text selector is something else. -/
theorem head?_selectors {after : Text} (plain : after.head? ≠ some vs15.toNat) (n : Nat) :
    (List.replicate n vs16.toNat ++ after).head? ≠ some vs15.toNat := by
  cases n with
  | zero => exact plain
  | succ n =>
    have other : some vs16.toNat ≠ some vs15.toNat := by decide
    exact other

theorem Tidy.walks {s : Stretch} (tidy : s.Tidy) (steady : Pattern.Steady vs15.toNat p.rests)
    {after : Text} (stands : s.Stands p image? after) :
    p.Walks [] (s.parts.map bare) (dropStray s.last) := by
  have behind := stands.behind
  have walks := stands.walks
  -- The end of the last gap joins what is behind, and the front of the first gap is passed over.
  cases tidy with
  | @alone gap next m n free plain =>
    have last : dropStray (List.replicate m vs16.toNat ++ gap ++ List.replicate n vs16.toNat) =
        gap := by
      rw [dropStray_append, dropStray_append, dropStray_replicate, dropStray_replicate,
        dropStray_of_free free, List.nil_append, List.append_nil]
    rw [← behind] at plain
    have inside : p.Idle gap (List.replicate n vs16.toNat ++ after) :=
      Pattern.Idle.suffix (Pattern.Walks.drop_back walks)
    rw [last]
    have path : p.Walks (List.replicate n vs16.toNat ++ after) [] gap := inside
    exact path.alone steady (head?_selectors plain n)
  | @among gap raw last parts next m n first middle free plain =>
    rw [← behind] at plain
    have inside := Pattern.Walks.drop_front (Pattern.Walks.drop_back walks)
    have kept : parts.map bare = parts := by
      refine (List.map_congr_left fun part hp => ?_).trans (List.map_id parts)
      rw [bare, dropStray_of_free (middle part hp)]
      rfl
    have same : ((List.replicate m vs16.toNat ++ gap, raw) :: parts).map bare =
        (gap, raw) :: parts := by
      rw [List.map_cons, kept, bare, dropStray_append, dropStray_replicate,
        dropStray_of_free first, List.nil_append]
    have back : dropStray (last ++ List.replicate n vs16.toNat) = last := by
      rw [dropStray_append, dropStray_replicate, dropStray_of_free free, List.append_nil]
    rw [same, back]
    exact inside.alone steady (head?_selectors plain n)

theorem mem_of_mem_ofParts (image? : Text → Option Markup.Attributes) (rest : Text)
    (parts : List (Text × Text)) :
    ∀ s ∈ (ofParts image? rest parts).1 :: (ofParts image? rest parts).2,
      ∀ part ∈ s.parts, part ∈ parts := by
  induction parts with
  | nil => simp [ofParts]
  | cons part parts ih =>
    obtain ⟨first, more⟩ := List.forall_mem_cons.1 ih
    rw [ofParts, List.foldr_cons, ← ofParts, push]
    cases image? part.2 with
    | some attributes =>
      refine List.forall_mem_cons.2 ⟨List.forall_mem_nil _, ?_⟩
      exact fun s hs part hp => List.mem_cons_of_mem _ (ih s hs part hp)
    | none =>
      refine List.forall_mem_cons.2
        ⟨?_, fun s hs part hp => List.mem_cons_of_mem _ (more s hs part hp)⟩
      refine List.forall_mem_cons.2 ⟨List.mem_cons_self, fun part hp => ?_⟩
      exact List.mem_cons_of_mem _ (first part hp)

end Stretch

variable {σ : Type} {d : Decorator σ} {a : Answers} {t : Text}

namespace Decorator

/-- No match of the text is resolved, and none ends the call. -/
def Quiet (d : Decorator σ) (a : Answers) (t : Text) : Prop :=
  ∀ part ∈ (d.matcher.cut t).parts, a.image? d.settings part.2 = .ok none

theorem image?_eq_iff {raw : Text} :
    a.image? d.settings raw = .ok none ↔
      a.failure d.settings raw = none ∧ a.imageOf d.settings raw = none := by
  rw [Answers.failure, Answers.imageOf]
  cases a.image? d.settings raw with
  | ok image => simp
  | error raised => simp

theorem quiet_iff : d.Quiet a t ↔ d.failure a t = none ∧ (d.deal a t).images = [] := by
  rw [failure, List.findSome?_eq_none_iff, images_deal_eq_nil_iff, ← forall₂_and]
  exact forall₂_congr fun part _ => image?_eq_iff

theorem quiet_nil (d : Decorator σ) (a : Answers) : d.Quiet a [] := by
  intro part hp
  rw [d.raw_eq_nil_of_mem_cut_nil hp]
  rfl

/-- What is left of a text is quiet. -/
def Settled (d : Decorator σ) (a : Answers) (t : Text) : Prop :=
  ∀ r ∈ remains (d.deal a) t, d.Quiet a r

theorem settled_of_images_eq_nil (calm : d.failure a t = none)
    (none : (d.deal a t).images = []) : d.Settled a t := by
  intro r hr
  rw [remains, if_pos none, List.mem_singleton] at hr
  rw [hr]
  exact quiet_iff.2 ⟨calm, none⟩

def stretches (d : Decorator σ) (a : Answers) (t : Text) : List Stretch :=
  let s := Stretch.ofParts (a.imageOf d.settings) (d.matcher.cut t).rest (d.matcher.cut t).parts
  s.1 :: s.2

theorem exists_stretch_of_mem_remains {r : Text} (some : (d.deal a t).images ≠ [])
    (hr : r ∈ remains (d.deal a) t) : ∃ s ∈ d.stretches a t, s.plain = r := by
  obtain ⟨leading, images⟩ := Dealt.ofParts_eq (a.imageOf d.settings) (d.matcher.cut t).rest
    (d.matcher.cut t).parts
  have of_plain : ∀ {x : Text}, r ∈ (plainPieces x).filterMap Piece.text? → r = x := by
    intro x hr
    rw [Element.filterMap_plainPieces, Element.ofText] at hr
    split at hr
    · simp at hr
    · simpa using hr
  have whole := some
  rw [deal, Dealt.images_orText] at whole
  rw [remains, if_neg some, deal, Dealt.orText_of_ne whole, Dealt.pieces, List.filterMap_append,
    List.mem_append] at hr
  rcases hr with hr | hr
  · exact ⟨_, List.mem_cons_self, leading.symm.trans (of_plain hr).symm⟩
  · rw [List.filterMap_flatMap, List.mem_flatMap] at hr
    obtain ⟨i, hi, hr⟩ := hr
    have text : i.2 ∈ (Stretch.ofParts (a.imageOf d.settings) (d.matcher.cut t).rest
        (d.matcher.cut t).parts).2.map (·.plain) := images ▸ List.mem_map_of_mem hi
    obtain ⟨s, hs, plain⟩ := List.mem_map.1 text
    exact ⟨s, List.mem_cons_of_mem _ hs, plain.trans (of_plain hr).symm⟩

/-- A pattern that uses nothing up finds matches without a key only. -/
theorem quiet_of_idle (same : d.matcher = p.matcher) (idle : ∀ t, p.rests t = [t]) (t : Text) :
    d.Quiet a t := by
  intro part hp
  have found : part.2 ∈ (p.find t).map (·.text) := by
    have all := d.matcher.matches_cut t
    rw [same] at all hp
    exact all ▸ List.mem_map_of_mem hp
  rw [Pattern.find_of_rests_eq idle, List.map_map] at found
  obtain ⟨n, -, empty⟩ := List.mem_map.1 found
  rw [← empty]
  rfl

/-- What is left of tidy stretches holds no match that is resolved. -/
theorem settled_of_tidy (same : d.matcher = p.matcher)
    (steady : Pattern.Steady vs15.toNat p.rests)
    (used : ∀ t, ∀ r ∈ p.rests t, r.length < t.length) (calm : d.failure a t = none)
    (tidy : ∀ s ∈ d.stretches a t, s.Tidy) : d.Settled a t := by
  by_cases none : (d.deal a t).images = []
  · exact settled_of_images_eq_nil calm none
  intro r hr
  obtain ⟨s, hs, rfl⟩ := exists_stretch_of_mem_remains none hr
  have cut : ∀ t, d.matcher.cut t = p.cut t := fun _ => by rw [same]; rfl
  have walks := (Pattern.walks_cut used t).2
  rw [← cut] at walks
  obtain ⟨⟨after, -, stands⟩, more⟩ := Stretch.stands_ofParts (a.imageOf d.settings) walks
  have stands : ∃ after, s.Stands p (a.imageOf d.settings) after := by
    rcases List.mem_cons.1 hs with rfl | hs
    · exact ⟨after, stands⟩
    · exact more s hs
  obtain ⟨after, stands⟩ := stands
  have path := (tidy s hs).walks steady stands
  intro part hp
  rw [cut, Stretch.plain, path.cut (Pattern.rests_nil used)] at hp
  obtain ⟨part', hp', rfl⟩ := List.mem_map.1 hp
  refine image?_eq_iff.2 ⟨?_, stands.unresolved part' hp'⟩
  exact List.findSome?_eq_none_iff.1 calm part' (Stretch.mem_of_mem_ofParts _ _ _ s hs part' hp')

end Decorator

variable {runs visited : List Text}

theorem forall_quiet_iff (mem : ∀ t, t ∈ visited ↔ t ∈ runs ∧ t ≠ []) :
    (∀ t ∈ runs, d.Quiet a t) ↔
      visited.findSome? (d.failure a) = none ∧ ∀ t ∈ runs, (d.deal a t).images = [] := by
  rw [List.findSome?_eq_none_iff]
  constructor
  · intro quiet
    exact ⟨fun t ht => (Decorator.quiet_iff.1 (quiet t ((mem t).1 ht).1)).1,
      fun t ht => (Decorator.quiet_iff.1 (quiet t ht)).2⟩
  · rintro ⟨calm, none⟩ t ht
    by_cases empty : t = []
    · rw [empty]
      exact d.quiet_nil a
    · exact Decorator.quiet_iff.2 ⟨calm t ((mem t).2 ⟨ht, empty⟩), none t ht⟩

theorem forall_settled_iff (mem : ∀ t, t ∈ visited ↔ t ∈ runs ∧ t ≠ []) :
    (∀ r ∈ runs.flatMap (remains (d.deal a)), d.Quiet a r) ↔ ∀ t ∈ visited, d.Settled a t := by
  constructor
  · intro quiet t ht r hr
    exact quiet r (List.mem_flatMap.2 ⟨t, ((mem t).1 ht).1, hr⟩)
  · intro settled r hr
    obtain ⟨t, ht, hr⟩ := List.mem_flatMap.1 hr
    by_cases empty : t = []
    · rw [empty, remains, if_pos (d.images_deal_nil a), List.mem_singleton] at hr
      rw [hr]
      exact d.quiet_nil a
    · exact settled t ((mem t).2 ⟨ht, empty⟩) r hr

/-- A pass over a tree ends without an error and leaves the tree as it is exactly if the texts in it
are quiet. -/
theorem Element.decorate_eq_self_iff (h : d.Gives a) (e : Element) (s : Session σ) :
    (((decorate d e).run ⟨s, none⟩).2.error = none ∧ ((decorate d e).run ⟨s, none⟩).1 = e) ↔
      ∀ t ∈ e.runs, d.Quiet a t := by
  obtain ⟨ends, gives⟩ := run_decorate h e s
  rw [forall_quiet_iff fun _ => e.mem_visited_iff, ← rebuilt_eq_self_iff, ends]
  exact and_congr_right fun none => by rw [gives none]

theorem Node.decorateInside_eq_self_iff (h : d.Gives a) (above : List Text) (name : Text)
    (attributes : List (Text × Value)) (children : List Node) (s : Session σ) :
    let pass := (decorateInside d above (element name attributes children)).run ⟨s, none⟩
    (pass.2.error = none ∧ pass.1 = element name attributes children) ↔
      ∀ t ∈ runsAll ((name :: above).any Markup.isSkipped) children, d.Quiet a t := by
  intro pass
  obtain ⟨ends, gives⟩ := run_decorateInside h above name attributes children s
  rw [forall_quiet_iff fun _ => mem_visitedAll_iff children, ← splicedAll_eq_self_iff, ends]
  exact and_congr_right fun none => by rw [gives none]; simp

/-- If decorating a tree does not end in an error, then decorating it again does not either and
leaves the tree as it is exactly if no match that is resolved or ends the call is in what the first
time left of its texts. There is none in a text without images, and none where stray selectors were
only at the ends of the stretches and no text selector right behind one. -/
theorem decorate_again {settings : CompilerSettings} {items : List TableItem} {c : CompiledPattern}
    (h : (compile settings items).result = .ok c) (runs : c.executable = .ok p)
    (same : d.matcher = p.matcher) (gives : d.Gives a) :
    (∀ (e : Element) (s s' : Session σ),
      let once := (Element.decorate d e).run ⟨s, none⟩
      let again := (Element.decorate d once.1).run ⟨s', none⟩
      once.2.error = none →
        ((again.2.error = none ∧ again.1 = once.1) ↔ ∀ t ∈ e.visited, d.Settled a t)) ∧
    (∀ (above : List Text) (name : Text) (attributes : List (Text × Value))
      (children : List Node) (s s' : Session σ),
      let skipped := (name :: above).any Markup.isSkipped
      let once := (Node.decorateInside d above (.element name attributes children)).run ⟨s, none⟩
      let again := (Node.decorateInside d above once.1).run ⟨s', none⟩
      once.2.error = none → ((again.2.error = none ∧ again.1 = once.1) ↔
        ∀ t ∈ Node.visitedAll skipped children, d.Settled a t)) ∧
    ∀ t, d.failure a t = none →
      ((d.deal a t).images = [] ∨ ∀ s ∈ d.stretches a t, s.Tidy) → d.Settled a t := by
  refine ⟨?_, ?_, ?_⟩
  · intro e s s' once again none
    obtain ⟨ends, rebuilt⟩ := Element.run_decorate gives e s
    have first : once.1 = e.rebuilt (d.deal a) := rebuilt (ends.symm.trans none)
    rw [Element.decorate_eq_self_iff gives once.1 s', first, Element.runs_rebuilt]
    exact forall_settled_iff fun _ => e.mem_visited_iff
  · intro above name attributes children s s' skipped once again none
    obtain ⟨ends, spliced⟩ := Node.run_decorateInside gives above name attributes children s
    have first : once.1 = .element name attributes (Node.splicedAll (d.deal a) skipped children) :=
      spliced (ends.symm.trans none)
    have second := Node.decorateInside_eq_self_iff gives above name attributes
      (Node.splicedAll (d.deal a) skipped children) s'
    rw [← first] at second
    refine second.trans ?_
    rw [Node.runsAll_splicedAll]
    exact forall_settled_iff fun _ => Node.mem_visitedAll_iff children
  · intro t calm quiet
    rcases quiet with none | tidy
    · exact Decorator.settled_of_images_eq_nil calm none
    · rcases steady_or_idle h runs with ⟨steady, used⟩ | idle
      · exact Decorator.settled_of_tidy same steady used calm tidy
      · exact fun r _ => Decorator.quiet_of_idle same idle r

def flagAndFace : List Entry := [.bare ['🇦', '🇧'] .normal, .bare ['😀'] .normal]

def flagAndFacePattern : Pattern :=
  .group (.group (.alt (.seq (.symbol 0x1F1E6) (.symbol 0x1F1E7)) (.symbol 0x1F600)))

theorem exists_compile_flagAndFace : ∃ c,
    (compile ⟨.points, false⟩ (flagAndFace.map .entry)).result = .ok c ∧
      c.executable = .ok flagAndFacePattern := by
  have sorted : classify flagAndFace =
      .ok [⟨.normal, ⟨['🇦', '🇧'], true⟩⟩, ⟨.normal, ⟨['😀'], true⟩⟩] := by decide
  obtain ⟨a, auxiliary, sound⟩ := Auxiliary.exists_of .points
  exact ⟨_, Compile.compile_eq_ok_iff.2
      ⟨_, _, a, tableEntries_map_entry _, sorted, auxiliary, by simp, by decide, rfl⟩,
    Compile.executable_assembled sound⟩

theorem failure_byKey (p : Pattern) (t : Text) : (Decorator.byKey p).failure .keys t = none :=
  (gives_byKey p).failure_eq_none (orderly_byKey p) 0 t

theorem decorate_again_face : ∃ c,
    (compile ⟨.points, false⟩ (flagAndFace.map .entry)).result = .ok c ∧
      c.executable = .ok flagAndFacePattern ∧ ∀ s s' : Session Nat,
        let d := Decorator.byKey flagAndFacePattern
        let once := (Element.decorate d
          (.node (.tag (codes "p")) [] (some [0x61, 0x1F600, 0xFE0F, 0x62]) [] none)).run ⟨s, none⟩
        let again := (Element.decorate d once.1).run ⟨s', none⟩
        once.2.error = none ∧ again.2.error = none ∧ again.1 = once.1 := by
  obtain ⟨c, compiled, executable⟩ := exists_compile_flagAndFace
  have again := decorate_again compiled executable rfl (gives_byKey flagAndFacePattern)
  refine ⟨c, compiled, executable, fun s s' => ?_⟩
  intro d once
  have none : once.2.error = .none :=
    (Element.run_decorate (gives_byKey flagAndFacePattern) _ s).1.trans
      (List.findSome?_eq_none_iff.2 fun t _ => failure_byKey _ t)
  refine ⟨none, (again.1 _ s s' none).2 ?_⟩
  intro t ht
  have text : t = [0x61, 0x1F600, 0xFE0F, 0x62] := List.mem_singleton.1 ht
  apply again.2.2 t (failure_byKey _ t)
  rw [text]
  right
  have stretches : (Decorator.byKey flagAndFacePattern).stretches .keys
      [0x61, 0x1F600, 0xFE0F, 0x62] =
      [⟨[], [0x61], some [0x1F600]⟩, ⟨[], [0xFE0F, 0x62], .none⟩] := rfl
  rw [stretches, List.forall_mem_cons, List.forall_mem_singleton]
  have front : vs16.toNat ∉ [0x61] := by decide
  have back : vs16.toNat ∉ [0x62] := by decide
  exact ⟨.alone 0 0 front (by decide), .alone 1 0 back (by decide)⟩

theorem decorate_again_ne {t r : Text} (left : r ∈ remains ((Decorator.byKey p).deal .keys) t)
    (found : ((Decorator.byKey p).deal .keys r).images ≠ []) (s s' : Session Nat) :
    let d := Decorator.byKey p
    let once := (Element.decorate d (.node (.tag (codes "p")) [] (some t) [] none)).run ⟨s, none⟩
    let again := (Element.decorate d once.1).run ⟨s', none⟩
    once.2.error = none ∧ again.1 ≠ once.1 := by
  intro d once again
  have calm : ∀ texts : List Text, texts.findSome? (d.failure .keys) = none :=
    fun texts => List.findSome?_eq_none_iff.2 fun t _ => failure_byKey p t
  obtain ⟨ends, rebuilt⟩ := Element.run_decorate (gives_byKey p)
    (.node (.tag (codes "p")) [] (some t) [] none) s
  refine ⟨ends.trans (calm _), fun same => ?_⟩
  have quiet := (Element.decorate_eq_self_iff (gives_byKey p) once.1 s').1
    ⟨(Element.run_decorate (gives_byKey p) once.1 s').1.trans (calm _), same⟩
  rw [show once.1 = _ from rebuilt (calm _), Element.runs_rebuilt] at quiet
  have there := quiet r (List.mem_flatMap.2 ⟨t, by simp [Element.runs], left⟩)
  exact found (Decorator.quiet_iff.1 there).2

/-- The letters of a flag match when the selector between them is left out. -/
theorem flag_decorated_again : ∃ c,
    (compile ⟨.points, false⟩ (flagAndFace.map .entry)).result = .ok c ∧
      c.executable = .ok flagAndFacePattern ∧ ∀ s s' : Session Nat,
        let d := Decorator.byKey flagAndFacePattern
        let once := (Element.decorate d (.node (.tag (codes "p")) []
          (some [0x1F1E6, 0xFE0F, 0x1F1E7, 0x1F600]) [] none)).run ⟨s, none⟩
        let again := (Element.decorate d once.1).run ⟨s', none⟩
        once.2.error = none ∧ again.1 ≠ once.1 := by
  obtain ⟨c, compiled, executable⟩ := exists_compile_flagAndFace
  have left : [0x1F1E6, 0x1F1E7] ∈ remains ((Decorator.byKey flagAndFacePattern).deal .keys)
      [0x1F1E6, 0xFE0F, 0x1F1E7, 0x1F600] := by decide
  exact ⟨c, compiled, executable, decorate_again_ne left (by decide)⟩

def heartAndSelector : List Entry := [.bare ['❤'] .variant, .bare [vs15] .normal]

def heartAndSelectorPattern : Pattern :=
  .group (.alt
    (.seq (.symbol 0x2764) (.group (.alt (.symbol 0xFE0F) (.notAhead (.symbol 0xFE0E)))))
    (.symbol 0xFE0E))

theorem textHeart_decorated_again : ∃ c,
    (compile ⟨.points, false⟩ (heartAndSelector.map .entry)).result = .ok c ∧
      c.executable = .ok heartAndSelectorPattern ∧ ∀ s s' : Session Nat,
        let d := Decorator.byKey heartAndSelectorPattern
        let once := (Element.decorate d
          (.node (.tag (codes "p")) [] (some [0x2764, 0xFE0E]) [] none)).run ⟨s, none⟩
        let again := (Element.decorate d once.1).run ⟨s', none⟩
        once.2.error = none ∧ again.1 ≠ once.1 := by
  have sorted : classify heartAndSelector =
      .ok [⟨.variant, ⟨['❤'], true⟩⟩, ⟨.normal, ⟨[vs15], true⟩⟩] := by decide
  obtain ⟨a, auxiliary, sound⟩ := Auxiliary.exists_of .points
  have pattern : (Compile.assembled .points
      [⟨.variant, ⟨['❤'], true⟩⟩, ⟨.normal, ⟨[vs15], true⟩⟩] a).pattern =
      heartAndSelectorPattern := by
    have shared : (Auxiliary.of .points).map (·.vs16) = .ok (.symbol 0xFE0F) := rfl
    rw [auxiliary] at shared
    have vs16 : a.vs16 = .symbol 0xFE0F := Except.ok.inj shared
    have vs15 : a.vs15 = .symbol 0xFE0E := sound.vs15
    have made : (Compile.assembled .points
        [⟨.variant, ⟨['❤'], true⟩⟩, ⟨.normal, ⟨[Pictograph.vs15], true⟩⟩] a).pattern =
        .group (.alt (.seq (.symbol 0x2764) (.group (.alt a.vs16 (.notAhead a.vs15))))
          (.symbol 0xFE0E)) := rfl
    rw [made, vs16, vs15]
    rfl
  have left : [0x2764] ∈ remains ((Decorator.byKey heartAndSelectorPattern).deal .keys)
      [0x2764, 0xFE0E] := by decide
  refine ⟨_, Compile.compile_eq_ok_iff.2
      ⟨_, _, a, tableEntries_map_entry _, sorted, auxiliary, by simp, by decide, rfl⟩, ?_,
    decorate_again_ne left (by decide)⟩
  rw [← pattern]
  exact Compile.executable_assembled sound

end Pictograph
