import Pictograph.Proofs.Decorate.Fate
import Pictograph.Proofs.Decorate.Read

/-!
Texts that are asked about. A pass over a tree does to a session what asking for the images of some
texts does, one text after the other and up to the match in which the pass ends, and all that it
makes of the texts depends on the answers.
-/

namespace Pictograph

def matchedOf (asked : List Asked) : List Answered := asked.flatMap (·.matched)

def endedOf (asked : List Asked) : Option (Text × Raised) := asked.findSome? (·.ended)

/-- The matches that were asked about, with the one in which the pass ended. -/
def rawsOf (asked : List Asked) : List Text :=
  (matchedOf asked).map (·.raw) ++ (endedOf asked).toList.map (·.1)

namespace Matcher

def scanned (p : Matcher) (texts : List Text) : List Text :=
  texts.flatMap fun t => (p.find t).map (·.text)

theorem scanned_cons (p : Matcher) (t : Text) (texts : List Text) :
    p.scanned (t :: texts) = (p.cut t).parts.map (·.2) ++ p.scanned texts := by
  rw [scanned, List.flatMap_cons, ← p.matches_cut]
  rfl

end Matcher

namespace Asked

structure Whole (p : Matcher) (x : Asked) : Prop where
  parts : x.matched.map Answered.part = (p.cut x.text).parts
  ended : x.ended = none

/-- If there are images for the text, its matches are answered in order, and every image has its
match as the alternative text. -/
structure Sound (p : Matcher) (x : Asked) : Prop where
  whole : x.images ≠ [] → x.Whole p
  alt : ∀ m ∈ x.matched, ∀ attributes, m.image = some attributes →
    attributes.lookup (codes "alt") = some m.raw

theorem sound_nil (p : Matcher) (t : Text) : Sound p ⟨t, [], none⟩ :=
  ⟨fun some => absurd rfl some, List.forall_mem_nil _⟩

end Asked

variable {σ α β : Type}

namespace Decorator

variable (d : Decorator σ)

/-- Matches answered in order, each in the session that those before it left. -/
inductive Answering : Session σ → List Answered → Session σ → Prop
  | nil {s : Session σ} : Answering s [] s
  | cons {m : Answered} {matched : List Answered} {s s' s'' : Session σ}
      (first : (d.image? m.raw).run.run s = (.ok m.image, s')) (later : Answering s' matched s'') :
      Answering s (m :: matched) s''

/-- The call goes on, or ends in this match. -/
def Ending (s : Session σ) (ended : Option (Text × Raised)) (s' : Session σ) : Prop :=
  match ended with
  | none => s' = s
  | some (raw, raised) => (d.image? raw).run.run s = (.error raised, s')

theorem Orderly.ended_eq_none {d : Decorator σ} (h : d.Orderly) {s s' : Session σ}
    {ended : Option (Text × Raised)} (ending : d.Ending s ended s') : ended = none := by
  cases ended with
  | none => rfl
  | some ended =>
    have lapse := d.meets_image? ended.1 s
    rw [show (d.image? ended.1).run.run s = _ from ending] at lapse
    exact absurd lapse h.not_lapse

variable {d} {s s' s'' : Session σ} {matched matched' : List Answered}

theorem Answering.append (front : d.Answering s matched s')
    (back : d.Answering s' matched' s'') : d.Answering s (matched ++ matched') s'' := by
  induction front with
  | nil => exact back
  | cons first _ ih => exact .cons first (ih back)

theorem Answering.alt (h : d.Answering s matched s') :
    ∀ m ∈ matched, ∀ attributes, m.image = some attributes →
      attributes.lookup (codes "alt") = some m.raw := by
  induction h with
  | nil => exact List.forall_mem_nil _
  | @cons m _ s _ _ first _ ih =>
    rw [List.forall_mem_cons]
    refine ⟨fun attributes image => ?_, ih⟩
    have fate := d.meets_image? m.raw s
    rw [first, image] at fate
    cases fate with
    | resolved => exact lookup_setMember_self ..

variable (d)

theorem answering_answers (parts : List (Text × Text)) (s : Session σ) :
    ∃ s', d.Answering s ((d.answers parts).run s).1.1 s' ∧
      d.Ending s' ((d.answers parts).run s).1.2 ((d.answers parts).run s).2 ∧
      ((d.answers parts).run s).1.1.map (·.raw) ++
        ((d.answers parts).run s).1.2.toList.map (·.1) <+: parts.map (·.2) ∧
      (((d.answers parts).run s).1.2 = none →
        ((d.answers parts).run s).1.1.map Answered.part = parts) := by
  induction parts generalizing s with
  | nil => exact ⟨s, .nil, rfl, List.nil_prefix, fun _ => rfl⟩
  | cons part parts ih =>
    rw [d.run_answers_cons]
    rcases first : (d.image? part.2).run.run s with ⟨raised | image, s'⟩
    · exact ⟨s, .nil, first, ⟨parts.map (·.2), rfl⟩, nofun⟩
    · obtain ⟨s'', later, ending, inside, whole⟩ := ih s'
      refine ⟨s'', .cons (m := ⟨part.1, part.2, image⟩) first later, ending, ?_, fun none => ?_⟩
      · exact List.prefix_cons_inj _ |>.2 inside
      · exact congrArg (part :: ·) (whole none)

def asks (texts : List Text) : Walk σ (List Asked) := texts.mapM d.asking

/-- A pass through texts: their matches are answered in order, up to the one in which the pass ends,
if it does. -/
structure Asking (c : Course σ) (texts : List Text) (asked : List Asked) (c' : Course σ) :
    Prop where
  answers : ∃ s, d.Answering c.session (matchedOf asked) s ∧
    d.Ending s (endedOf asked) c'.session
  error : c'.error = c.error.or ((endedOf asked).map (·.2))
  same : asked.map (·.text) = texts
  sound : ∀ x ∈ asked, x.Sound d.matcher
  raws : rawsOf asked <+: d.matcher.scanned texts
  whole : c'.error = none → ∀ x ∈ asked, x.Whole d.matcher

theorem run_asks_cons (t : Text) (texts : List Text) (c : Course σ) :
    (d.asks (t :: texts)).run c =
      (((d.asking t).run c).1 :: ((d.asks texts).run ((d.asking t).run c).2).1,
        ((d.asks texts).run ((d.asking t).run c).2).2) := by
  rw [asks, List.mapM_cons]
  rfl

theorem run_asks_append (texts texts' : List Text) (c : Course σ) :
    (d.asks (texts ++ texts')).run c =
      (((d.asks texts).run c).1 ++ ((d.asks texts').run ((d.asks texts).run c).2).1,
        ((d.asks texts').run ((d.asks texts).run c).2).2) := by
  rw [asks, List.mapM_append]
  rfl

theorem run_asks_of_error (texts : List Text) (s : Session σ) (raised : Raised) :
    (d.asks texts).run ⟨s, some raised⟩ =
      (texts.map fun t => ⟨t, [], none⟩, ⟨s, some raised⟩) := by
  induction texts with
  | nil => rfl
  | cons t texts ih =>
    have here : (d.asking t).run ⟨s, some raised⟩ = (⟨t, [], none⟩, ⟨s, some raised⟩) := rfl
    rw [run_asks_cons, here, ih]
    rfl

theorem passed_over (texts : List Text) :
    let asked := texts.map fun t => Asked.mk t [] none
    matchedOf asked = [] ∧ endedOf asked = none := by
  intro asked
  refine ⟨?_, ?_⟩
  · exact List.flatMap_eq_nil_iff.2 fun x hx => by
      obtain ⟨t, -, rfl⟩ := List.mem_map.1 hx
      rfl
  · exact List.findSome?_eq_none_iff.2 fun x hx => by
      obtain ⟨t, -, rfl⟩ := List.mem_map.1 hx
      rfl

variable {d} {t : Text} {texts : List Text}

theorem Asking.cons {asked : List Asked} {c' : Course σ} (answering : d.Answering s matched s')
    (whole : matched.map Answered.part = (d.matcher.cut t).parts)
    (later : d.Asking ⟨s', none⟩ texts asked c') :
    d.Asking ⟨s, none⟩ (t :: texts) (⟨t, matched, none⟩ :: asked) c' where
  answers := by
    obtain ⟨s'', answering', ending⟩ := later.answers
    exact ⟨s'', answering.append answering', ending⟩
  error := later.error
  same := congrArg (t :: ·) later.same
  sound := List.forall_mem_cons.2 ⟨⟨fun _ => ⟨whole, rfl⟩, answering.alt⟩, later.sound⟩
  raws := by
    have raws : rawsOf (⟨t, matched, none⟩ :: asked) = matched.map (·.raw) ++ rawsOf asked := by
      rw [rawsOf, matchedOf, List.flatMap_cons, List.map_append, List.append_assoc]
      rfl
    have all : matched.map (·.raw) = (d.matcher.cut t).parts.map (·.2) := by
      rw [← whole, List.map_map]
      rfl
    rw [raws, Matcher.scanned_cons, all]
    exact (List.prefix_append_right_inj _).2 later.raws
  whole := fun none => List.forall_mem_cons.2 ⟨⟨whole, rfl⟩, later.whole none⟩

theorem asking_of_ended {ended : Text × Raised} (answering : d.Answering s matched s')
    (ending : d.Ending s' (some ended) s'')
    (inside : matched.map (·.raw) ++ [ended.1] <+: (d.matcher.cut t).parts.map (·.2)) :
    d.Asking ⟨s, none⟩ (t :: texts)
      (⟨t, matched, some ended⟩ :: texts.map fun t => ⟨t, [], none⟩) ⟨s'', some ended.2⟩ where
  answers := by
    refine ⟨s', ?_, ending⟩
    rw [matchedOf, List.flatMap_cons, ← matchedOf, (passed_over texts).1, List.append_nil]
    exact answering
  error := rfl
  same := by
    rw [List.map_cons, List.map_map]
    exact congrArg (t :: ·) (List.map_id texts)
  sound := by
    refine List.forall_mem_cons.2 ⟨⟨fun some => absurd rfl some, answering.alt⟩, fun x hx => ?_⟩
    obtain ⟨t, -, rfl⟩ := List.mem_map.1 hx
    exact Asked.sound_nil _ t
  raws := by
    have raws : rawsOf (⟨t, matched, some ended⟩ :: texts.map fun t => ⟨t, [], none⟩) =
        matched.map (·.raw) ++ [ended.1] := by
      rw [rawsOf, matchedOf, List.flatMap_cons, ← matchedOf, (passed_over texts).1,
        List.append_nil]
      rfl
    rw [raws, Matcher.scanned_cons]
    exact inside.trans (List.prefix_append _ _)
  whole := nofun

variable (d)

theorem asking_asks (texts : List Text) (c : Course σ) :
    d.Asking c texts ((d.asks texts).run c).1 ((d.asks texts).run c).2 := by
  obtain ⟨s, error⟩ := c
  cases error with
  | some raised =>
    rw [run_asks_of_error]
    obtain ⟨matched, ended⟩ := passed_over texts
    refine ⟨⟨s, ?_, ?_⟩, ?_, ?_, ?_, ?_, nofun⟩
    · rw [matched]
      exact .nil
    · rw [ended]
      rfl
    · rfl
    · rw [List.map_map]
      exact List.map_id texts
    · intro x hx
      obtain ⟨t, -, rfl⟩ := List.mem_map.1 hx
      exact Asked.sound_nil _ t
    · rw [rawsOf, matched, ended]
      exact List.nil_prefix
  | none =>
    induction texts generalizing s with
    | nil =>
      exact ⟨⟨s, .nil, rfl⟩, rfl, rfl, List.forall_mem_nil _, List.nil_prefix,
        fun _ => List.forall_mem_nil _⟩
    | cons t texts ih =>
      obtain ⟨s', answering, ending, inside, whole⟩ := d.answering_answers (d.matcher.cut t).parts s
      rw [run_asks_cons, run_asking]
      rcases ran : (d.answers (d.matcher.cut t).parts).run s with ⟨⟨matched, _ | ended⟩, s''⟩
      · rw [ran] at answering ending whole
        obtain rfl : s'' = s' := ending
        exact .cons answering (whole rfl) (ih s'')
      · rw [ran] at answering ending inside
        dsimp only [Option.map_some]
        rw [run_asks_of_error]
        exact asking_of_ended answering ending inside

end Decorator

/-- A pass that asks about texts, with what it gives by the answers. -/
def Asks (d : Decorator σ) (texts : List Text) (m : Walk σ α) (P : List Asked → α → Prop) : Prop :=
  ∀ c, (m.run c).2 = ((d.asks texts).run c).2 ∧ P ((d.asks texts).run c).1 (m.run c).1

variable {d : Decorator σ} {texts texts' : List Text} {P : List Asked → α → Prop}
  {Q : List Asked → β → Prop}

theorem Asks.error_eq_none {m : Walk σ α} (h : Asks d texts m P) (orderly : d.Orderly)
    (s : Session σ) : (m.run ⟨s, none⟩).2.error = none := by
  obtain ⟨⟨_, -, ending⟩, error, -⟩ := d.asking_asks texts ⟨s, none⟩
  rw [(h ⟨s, none⟩).1, error, orderly.ended_eq_none ending]
  rfl

theorem asks_pure {x : α} (h : P [] x) : Asks d [] (pure x) P := fun _ => ⟨rfl, h⟩

theorem Asks.bind {m : Walk σ α} {k : α → Walk σ β} (h : Asks d texts m P)
    (next : ∀ asked x, P asked x → Asks d texts' (k x) fun asked' y => Q (asked ++ asked') y) :
    Asks d (texts ++ texts') (m >>= k) Q := by
  intro c
  obtain ⟨same, here⟩ := h c
  have later := next _ _ here (m.run c).2
  rw [d.run_asks_append, ← same]
  exact later

theorem Asks.last {m : Walk σ α} {k : α → Walk σ β} (h : Asks d texts m P)
    (next : ∀ asked x, P asked x → Asks d [] (k x) fun _ y => Q asked y) :
    Asks d texts (m >>= k) Q := by
  rw [← List.append_nil texts]
  refine h.bind fun asked x here c => ?_
  obtain ⟨same, there⟩ := next asked x here c
  have all : asked ++ ((d.asks []).run c).1 = asked := List.append_nil asked
  exact ⟨same, by rwa [← all] at there⟩

theorem asks_dealing (d : Decorator σ) (t : Text) :
    Asks d [t] (d.dealing t) fun asked dealt =>
      ∃ x : Asked, asked = [x] ∧ x.text = t ∧ x.Sound d.matcher ∧ dealt = x.dealt d.matcher := by
  intro c
  obtain ⟨-, -, same, sound, -, -⟩ := d.asking_asks [t] c
  have one : (d.asks [t]).run c = ([((d.asking t).run c).1], ((d.asking t).run c).2) := by
    rw [d.run_asks_cons]
    rfl
  rw [one] at same sound ⊢
  exact ⟨rfl, _, rfl, (List.cons.inj same).1, sound _ List.mem_cons_self, rfl⟩

end Pictograph
