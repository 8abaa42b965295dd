import Pictograph.Proofs.Decorate.Dealt

/-!
Callbacks that answer by their arguments alone. They may keep a state, but what a call gives does not
depend on it: either it ends in the first match whose answers are such an error, or a text is dealt
out by what its matches get.
-/

namespace Pictograph

/-- What callbacks say of a key, and of a match and its key. -/
structure Answers where
  resolve : Text → Except Raised Loose
  attributes : Text → Text → Except Raised Offered

/-- All errors that are raised are ordinary ones that can be written, and all that is answered can
be tested and written. -/
structure Answers.Orderly (a : Answers) : Prop where
  failed : ∀ key raised, a.resolve key = .error raised → ∃ shown, raised.handled = .ok shown
  resolved : ∀ key v, a.resolve key = .ok v → ∃ b src, v.truthy = .ok b ∧ v.display = .ok src
  refused : ∀ raw key raised, a.attributes raw key = .error raised →
    ∃ shown, raised.handled = .ok shown
  offered : ∀ raw key m, a.attributes raw key = .ok (.mapping m) → ∃ given, m.texts = .ok given

def Decorator.Orderly {σ : Type} (d : Decorator σ) : Prop :=
  ∀ host, Answers.Orderly ⟨fun key => ((d.resolve key).run host).1,
    fun raw key => ((d.attributes raw key).run host).1⟩

/-- The callbacks give these answers whatever state they are in. They may change the state. -/
structure Decorator.Gives {σ : Type} (d : Decorator σ) (a : Answers) : Prop where
  resolve : ∀ key host, ((d.resolve key).run host).1 = a.resolve key
  attributes : ∀ raw key host, ((d.attributes raw key).run host).1 = a.attributes raw key

namespace Answers

variable (a : Answers)

/-- The source of the image with a key. An answer that is an ordinary error or counts as false gives
none. -/
def source (key : Text) : Except Raised (Option Text) :=
  if key.isEmpty then .ok none
  else
    match a.resolve key with
    | .error raised => do
      let _ ← raised.handled
      return none
    | .ok v => do
      if ← v.truthy then return some (← v.display) else return none

/-- The attributes added to an image. Only a mapping has any. -/
def given (raw key : Text) : Except Raised (List (Text × Text)) :=
  match a.attributes raw key with
  | .error raised => do
    let _ ← raised.handled
    return []
  | .ok (.mapping m) => m.texts
  | .ok .nothing | .ok (.other _) => return []

def image? (settings : DecoratorSettings) (raw : Text) :
    Except Raised (Option Markup.Attributes) := do
  let key := canonicalKey raw
  match ← a.source key with
  | some src => return some (Decorator.dress settings raw src (← a.given raw key))
  | none => return none

/-- The image for a match in which the call does not end. -/
def imageOf (settings : DecoratorSettings) (raw : Text) : Option Markup.Attributes :=
  match a.image? settings raw with
  | .ok image => image
  | .error _ => none

def failure (settings : DecoratorSettings) (raw : Text) : Option Raised :=
  match a.image? settings raw with
  | .ok _ => none
  | .error raised => some raised

def answered (settings : DecoratorSettings) (part : Text × Text) : Answered :=
  ⟨part.1, part.2, a.imageOf settings part.2⟩

theorem imageOf_nil (settings : DecoratorSettings) : a.imageOf settings [] = none := rfl

variable {a}

theorem Orderly.exists_given (h : a.Orderly) (raw key : Text) :
    ∃ given, a.given raw key = .ok given := by
  rw [given]
  cases answer : a.attributes raw key with
  | error raised =>
    obtain ⟨shown, handled⟩ := h.refused raw key raised answer
    dsimp only
    rw [handled]
    exact ⟨[], rfl⟩
  | ok offered =>
    cases offered with
    | nothing => exact ⟨[], rfl⟩
    | mapping m => exact h.offered raw key m answer
    | other type => exact ⟨[], rfl⟩

theorem Orderly.exists_source (h : a.Orderly) (key : Text) : ∃ src, a.source key = .ok src := by
  rw [source]
  split
  · exact ⟨none, rfl⟩
  · cases answer : a.resolve key with
    | error raised =>
      obtain ⟨shown, handled⟩ := h.failed key raised answer
      dsimp only
      rw [handled]
      exact ⟨none, rfl⟩
    | ok v =>
      obtain ⟨b, src, truthy, display⟩ := h.resolved key v answer
      dsimp only
      rw [truthy, display]
      cases b with
      | true => exact ⟨some src, rfl⟩
      | false => exact ⟨none, rfl⟩

theorem Orderly.failure_eq_none (h : a.Orderly) (settings : DecoratorSettings) (raw : Text) :
    a.failure settings raw = none := by
  obtain ⟨given, attributes⟩ := h.exists_given raw (canonicalKey raw)
  obtain ⟨src, source⟩ := h.exists_source (canonicalKey raw)
  rw [failure, image?, source, attributes]
  cases src with
  | none => rfl
  | some src => rfl

end Answers

variable {σ α β : Type}

namespace Decorator

variable (d : Decorator σ) (a : Answers)

/-- A text dealt out by a decorator with these answers, if no match of it ends the call. -/
def deal (t : Text) : Dealt :=
  (Dealt.ofParts (a.imageOf d.settings) (d.matcher.cut t).rest (d.matcher.cut t).parts).orText t

def failure (t : Text) : Option Raised :=
  (d.matcher.cut t).parts.findSome? fun part => a.failure d.settings part.2

/-- What a pass over a tree makes of a text, given the error that ended the pass, if there is one. -/
def dealingBy (t : Text) : StateM (Option Raised) Dealt := fun error =>
  match error.or (d.failure a t) with
  | some raised => (⟨t, []⟩, some raised)
  | none => (d.deal a t, none)

theorem Gives.failure_eq_none {d : Decorator σ} {a : Answers} (h : d.Gives a) (orderly : d.Orderly)
    (host : σ) (t : Text) : d.failure a t = none := by
  have here := orderly host
  simp only [h.resolve, h.attributes] at here
  exact List.findSome?_eq_none_iff.2 fun part _ => here.failure_eq_none d.settings part.2

theorem raw_eq_nil_of_mem_cut_nil {part : Text × Text} (h : part ∈ (d.matcher.cut []).parts) :
    part.2 = [] := by
  have found := List.mem_map_of_mem (f := (·.2)) h
  rw [d.matcher.matches_cut] at found
  obtain ⟨f, hf, same⟩ := List.mem_map.1 found
  exact same.symm.trans (d.matcher.text_eq_nil_of_mem_find hf)

theorem images_deal_nil : (d.deal a []).images = [] := by
  rw [deal, Dealt.images_orText, ← List.map_eq_nil_iff, Dealt.images_ofParts,
    List.filterMap_eq_nil_iff]
  intro part hp
  rw [d.raw_eq_nil_of_mem_cut_nil hp]
  exact a.imageOf_nil d.settings

theorem images_deal (t : Text) :
    (d.deal a t).images.map (·.1) =
      (d.matcher.cut t).parts.filterMap fun part => a.imageOf d.settings part.2 := by
  rw [deal, Dealt.images_orText, Dealt.images_ofParts]

theorem images_deal_eq_nil_iff {t : Text} :
    (d.deal a t).images = [] ↔
      ∀ part ∈ (d.matcher.cut t).parts, a.imageOf d.settings part.2 = none := by
  rw [← List.filterMap_eq_nil_iff, ← images_deal, List.map_eq_nil_iff]

theorem ofAnswered_answered (t : Text) :
    (Dealt.ofAnswered (d.matcher.cut t).rest
      ((d.matcher.cut t).parts.map (a.answered d.settings))).orText t = d.deal a t :=
  congrArg (Dealt.orText t) (Dealt.ofAnswered_map ..)

end Decorator

namespace Decorating

/-- The call ends in this way, whatever has happened before. -/
def Ensures (m : Decorating σ α) (x : Except Raised α) : Prop := ∀ s, (m.run.run s).1 = x

theorem ensures_pure (x : α) : Ensures (σ := σ) (pure x) (.ok x) := fun _ => rfl

theorem ensures_unwrap (x : Except Raised α) : Ensures (σ := σ) (unwrap x) x := fun _ => rfl

theorem ensures_count (outcome : String) : Ensures (σ := σ) (count outcome) (.ok ()) := fun _ => rfl

theorem ensures_warn (message : String) (extra : List (Text × Text)) :
    Ensures (σ := σ) (warn message extra) (.ok ()) := fun _ => rfl

theorem ensures_call {callback : StateM σ α} {x : α} (h : ∀ host, (callback.run host).1 = x) :
    Ensures (call callback) (.ok x) := by
  intro s
  exact congrArg Except.ok (h s.host)

theorem Ensures.bind {m : Decorating σ α} {x : Except Raised α} {k : α → Decorating σ β}
    {f : α → Except Raised β} (h : Ensures m x) (next : ∀ y, x = .ok y → Ensures (k y) (f y)) :
    Ensures (m >>= k) (x >>= f) := by
  intro s
  have here := h s
  rw [run_bind]
  rcases ran : m.run.run s with ⟨raised | y, s'⟩
  · rw [← here, ran]
    rfl
  · rw [ran] at here
    rw [← here]
    exact next y here.symm s'

theorem Ensures.after {m : Decorating σ α} {y : α} {k : α → Decorating σ β} {x : Except Raised β}
    (h : Ensures m (.ok y)) (next : Ensures (k y) x) : Ensures (m >>= k) x :=
  h.bind (f := fun _ => x) fun _ same => Except.ok.inj same ▸ next

theorem Ensures.reported {message : String} {key : Text} {raised : Raised}
    {k : Unit → Decorating σ α} {y : α} (next : Ensures (k ()) (.ok y)) :
    Ensures (report message key raised >>= k) (raised.handled >>= fun _ => .ok y) := by
  rw [report, bind_assoc]
  exact (ensures_unwrap _).bind fun _ _ => (ensures_warn _ _).after next

end Decorating

open Decorating

namespace Decorator.Gives

variable {d : Decorator σ} {a : Answers} (h : d.Gives a)

include h

theorem ensures_source (key : Text) : Ensures (d.source key) (a.source key) := by
  unfold source Answers.source
  split
  · exact (ensures_count _).after (ensures_pure none)
  · refine (ensures_call (h.resolve key)).after ?_
    cases a.resolve key with
    | error raised => exact Ensures.reported ((ensures_count _).after (ensures_pure none))
    | ok v =>
      refine (ensures_unwrap _).bind fun truthy _ => ?_
      cases truthy with
      | true =>
        exact (ensures_count _).after ((ensures_unwrap _).bind fun src _ => ensures_pure (some src))
      | false => exact (ensures_count _).after (ensures_pure none)

theorem ensures_givenAttributes (raw key : Text) :
    Ensures (d.givenAttributes raw key) (a.given raw key) := by
  unfold givenAttributes Answers.given
  refine (ensures_call (h.attributes raw key)).after ?_
  cases a.attributes raw key with
  | error raised => exact Ensures.reported (ensures_pure [])
  | ok offered =>
    cases offered with
    | nothing => exact ensures_pure []
    | mapping m => exact ensures_unwrap m.texts
    | other type => exact (ensures_warn _ _).after (ensures_pure [])

theorem ensures_image? (raw : Text) : Ensures (d.image? raw) (a.image? d.settings raw) := by
  unfold image? Answers.image?
  refine (h.ensures_source (canonicalKey raw)).bind fun src _ => ?_
  cases src with
  | none => exact ensures_pure none
  | some src =>
    exact (h.ensures_givenAttributes raw (canonicalKey raw)).bind fun given _ => ensures_pure _

/-- To ask about matches ends the call with the error of the first match that has one, or gives all
images. -/
theorem ensures_mapM_answer (parts : List (Text × Text)) :
    Ensures (parts.mapM d.answer)
      (match parts.findSome? fun part => a.failure d.settings part.2 with
      | some raised => .error raised
      | none => .ok (parts.map (a.answered d.settings))) := by
  induction parts with
  | nil => exact ensures_pure []
  | cons part parts ih =>
    have first : Ensures (d.answer part) (do
        return ⟨part.1, part.2, ← a.image? d.settings part.2⟩) :=
      (h.ensures_image? part.2).bind fun _ _ => ensures_pure _
    have here : ∀ later, Ensures (parts.mapM d.answer) later →
        Ensures ((part :: parts).mapM d.answer) (do
          let image ← a.image? d.settings part.2
          let matched ← later
          return ⟨part.1, part.2, image⟩ :: matched) := by
      intro later ih
      rw [List.mapM_cons]
      have all := first.bind (k := fun m => do return m :: (← parts.mapM d.answer))
        (f := fun m => later >>= fun matched => .ok (m :: matched))
        fun m _ => ih.bind fun _ _ => ensures_pure _
      rw [bind_assoc] at all
      exact all
    rw [List.findSome?_cons, List.map_cons, Answers.failure, Answers.answered, Answers.imageOf]
    have here := here _ ih
    cases image : a.image? d.settings part.2 with
    | error raised =>
      rw [image] at here
      exact here
    | ok image' =>
      rw [image] at here
      cases failure : parts.findSome? fun part => a.failure d.settings part.2 with
      | some raised =>
        rw [failure] at here
        exact here
      | none =>
        rw [failure] at here
        exact here

theorem ensures_ask (t : Text) :
    Ensures (d.ask t)
      (match d.failure a t with
      | some raised => .error raised
      | none => .ok ((d.matcher.cut t).parts.map (a.answered d.settings))) :=
  h.ensures_mapM_answer (d.matcher.cut t).parts

theorem ensures_pieces (t : Text) :
    Ensures (d.pieces t)
      (match d.failure a t with
      | some raised => .error raised
      | none => .ok (d.deal a t).pieces?) := by
  rw [d.pieces_eq]
  have asked := h.ensures_ask t
  cases failure : d.failure a t with
  | some raised =>
    rw [failure] at asked
    exact asked.bind (f := fun _ => .error raised) fun _ same => nomatch same
  | none =>
    rw [failure] at asked
    rw [← d.ofAnswered_answered, Dealt.pieces?_orText]
    exact asked.after (ensures_pure _)

end Decorator.Gives

/-- Programs of two sorts that agree if their steps do. -/
structure Simulation (m m' : Type → Type) [Monad m] [Monad m']
    (R : ∀ {α : Type}, m α → m' α → Prop) : Prop where
  pure {α : Type} (x : α) : R (Pure.pure x) (Pure.pure x)
  bind {α β : Type} {x : m α} {x' : m' α} {k : α → m β} {k' : α → m' β} :
    R x x' → (∀ y, R (k y) (k' y)) → R (x >>= k) (x' >>= k')

namespace Walk

/-- The pass over a tree gives what the program gives that only knows of its error. -/
def Tracks (m : Walk σ α) (m' : StateM (Option Raised) α) : Prop :=
  ∀ c, (m.run c).1 = (m'.run c.error).1 ∧ (m.run c).2.error = (m'.run c.error).2

theorem simulation_tracks : Simulation (Walk σ) (StateM (Option Raised)) Tracks where
  pure _ _ := ⟨rfl, rfl⟩
  bind {α β x x' k k'} first next := by
    intro c
    obtain ⟨same, error⟩ := first c
    have run : (x' >>= k').run c.error = (k' (x.run c).1).run (x.run c).2.error := by
      rw [same, error]
      rfl
    rw [run]
    exact next (x.run c).1 (x.run c).2

/-- The program ends with the error it starts with or else with this one, and if there is none, it
gives this value. -/
def Deals (m : StateM (Option Raised) α) (failure : Option Raised) (x : α) : Prop :=
  ∀ error, (m.run error).2 = error.or failure ∧ ((m.run error).2 = none → (m.run error).1 = x)

theorem deals_pure (x : α) : Deals (pure x) none x := fun _ => ⟨Option.or_none.symm, fun _ => rfl⟩

theorem Deals.bind {m : StateM (Option Raised) α} {k : α → StateM (Option Raised) β}
    {failure failure' : Option Raised} {x : α} {g : α → β} (h : Deals m failure x)
    (next : ∀ y, Deals (k y) failure' (g y)) : Deals (m >>= k) (failure.or failure') (g x) := by
  intro error
  obtain ⟨ends, gives⟩ := h error
  obtain ⟨ends', gives'⟩ := next (m.run error).1 (m.run error).2
  refine ⟨?_, ?_⟩
  · rw [← Option.or_assoc, ← ends]
    exact ends'
  · intro none
    have before : (m.run error).2 = .none := (Option.or_eq_none_iff.1 (ends'.symm.trans none)).1
    rw [← gives before]
    exact gives' none

theorem Tracks.run {m : Walk σ α} {m' : StateM (Option Raised) α} {failure : Option Raised} {x : α}
    (tracks : Tracks m m') (deals : Deals m' failure x) (s : Session σ) :
    (m.run ⟨s, none⟩).2.error = failure ∧ (failure = none → (m.run ⟨s, none⟩).1 = x) := by
  obtain ⟨same, error⟩ := tracks ⟨s, none⟩
  obtain ⟨ends, gives⟩ := deals none
  rw [Option.none_or] at ends
  exact ⟨error.trans ends, fun none => same.trans (gives (ends.trans none))⟩

end Walk

theorem Decorator.run_dealingBy (d : Decorator σ) (a : Answers) (t : Text)
    (error : Option Raised) :
    (d.dealingBy a t).run error =
      match error.or (d.failure a t) with
      | some raised => (⟨t, []⟩, some raised)
      | none => (d.deal a t, none) := rfl

theorem Decorator.deals_dealingBy (d : Decorator σ) (a : Answers) (t : Text) :
    Walk.Deals (d.dealingBy a t) (d.failure a t) (d.deal a t) := by
  intro error
  rw [d.run_dealingBy]
  cases error.or (d.failure a t) with
  | some raised => exact ⟨rfl, nofun⟩
  | none => exact ⟨rfl, fun _ => rfl⟩

theorem Decorator.Gives.tracks_dealing {d : Decorator σ} {a : Answers} (h : d.Gives a) (t : Text) :
    Walk.Tracks (d.dealing t) (d.dealingBy a t) := by
  intro c
  obtain ⟨s, error⟩ := c
  cases error with
  | some raised => exact ⟨rfl, rfl⟩
  | none =>
    have asked := h.ensures_ask t s
    rw [ask, d.run_mapM_answer] at asked
    revert asked
    rw [run_dealing, run_asking, d.run_dealingBy, Option.none_or]
    rcases (d.answers (d.matcher.cut t).parts).run s with ⟨⟨matched, _ | ⟨raw, raised⟩⟩, s'⟩
    · intro asked
      cases failure : d.failure a t with
      | some raised =>
        rw [failure] at asked
        cases asked
      | none =>
        rw [failure] at asked
        obtain rfl := Except.ok.inj asked
        exact ⟨d.ofAnswered_answered a t, rfl⟩
    · intro asked
      cases failure : d.failure a t with
      | some raised =>
        rw [failure] at asked
        obtain rfl := Except.error.inj asked
        exact ⟨rfl, rfl⟩
      | none =>
        rw [failure] at asked
        cases asked

/-- A decorator with an image for every match that has a key, which is its source. It counts how
often it is asked for one. -/
def Decorator.byKey (p : Pattern) : Decorator Nat where
  matcher := p.matcher
  settings := ⟨[], [], [], []⟩
  resolve := fun key calls => (.ok (.ofText key), calls + 1)
  attributes := fun _ _ calls => (.ok .nothing, calls)

def Answers.keys : Answers := ⟨fun key => .ok (.ofText key), fun _ _ => .ok .nothing⟩

theorem gives_byKey (p : Pattern) : (Decorator.byKey p).Gives .keys :=
  ⟨fun _ _ => rfl, fun _ _ _ => rfl⟩

theorem orderly_byKey (p : Pattern) : (Decorator.byKey p).Orderly := by
  intro host
  constructor
  case resolved =>
    intro key v same
    obtain rfl := Except.ok.inj same
    exact ⟨_, key, rfl, rfl⟩
  case failed => exact fun _ _ same => by cases same
  case refused => exact fun _ _ _ same => by cases same
  case offered => exact fun _ _ _ same => by cases same

end Pictograph
