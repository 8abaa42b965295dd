import Pictograph.Proofs.Decorate.Gives

/-!
What becomes of a match. A match without a key is unresolved; for every other one the resolver is
called once, and its answer decides what is counted and logged. Only the attribute callback comes
after that, and the image is dressed with what it gives. The call may also end in the match: before
anything of it is counted, or after it has counted as resolved.
-/

namespace Pictograph

open Decorating

variable {σ : Type}

def tellsFailure (e : Log.Event) : Bool := e.message == codes "emoji image resolver failed"

def resolverFailed (key shown : Text) : Log.Event :=
  warning "emoji image resolver failed" [(codes "key", key), (codes "error", shown)]

namespace Decorator

variable (d : Decorator σ) (raw key : Text) (s : Session σ)

/-- What the callbacks answer about a match in a session. The one for attributes is called after the
resolver. -/
def answersIn : Answers where
  resolve key := ((d.resolve key).run s.host).1
  attributes raw' key :=
    ((d.attributes raw' key).run ((d.resolve (canonicalKey raw)).run s.host).2).1

/-- What becomes of a match: the attributes of its image, if it gets one, and the session after
that. -/
inductive Fate : Option Markup.Attributes → Session σ → Prop
  | keyless (none : canonicalKey raw = []) :
      Fate .none { s with tally := s.tally.bump (codes "unresolved") }
  | failed {raised : Raised} {shown : Text} {host : σ} (key : canonicalKey raw ≠ [])
      (answer : (d.resolve (canonicalKey raw)).run s.host = (.error raised, host))
      (handled : raised.handled = .ok shown) :
      Fate none ⟨host, s.tally.bump (codes "error"),
        s.events ++ [resolverFailed (canonicalKey raw) shown]⟩
  | unresolved {v : Loose} {host : σ} (key : canonicalKey raw ≠ [])
      (answer : (d.resolve (canonicalKey raw)).run s.host = (.ok v, host))
      (nothing : v.truthy = .ok false) :
      Fate none ⟨host, s.tally.bump (codes "unresolved"), s.events⟩
  | resolved {v : Loose} {host : σ} {src : Text} {given : List (Text × Text)}
      {warnings : List Log.Event} (key : canonicalKey raw ≠ [])
      (answer : (d.resolve (canonicalKey raw)).run s.host = (.ok v, host))
      (something : v.truthy = .ok true) (display : v.display = .ok src)
      (attributes : (answersIn d raw s).given raw (canonicalKey raw) = .ok given)
      (other : ∀ e ∈ warnings, tellsFailure e = false) :
      Fate (some (dress d.settings raw src given))
        ⟨((d.attributes raw (canonicalKey raw)).run host).2, s.tally.bump (codes "resolved"),
          s.events ++ warnings⟩

/-- A match in which the call ends: the error, and the session after that. -/
inductive Lapse : Raised → Session σ → Prop
  | escaped {raised raised' : Raised} {host : σ} (key : canonicalKey raw ≠ [])
      (answer : (d.resolve (canonicalKey raw)).run s.host = (.error raised, host))
      (through : raised.handled = .error raised') :
      Lapse raised' ⟨host, s.tally, s.events⟩
  | untold {v : Loose} {raised : Raised} {host : σ} (key : canonicalKey raw ≠ [])
      (answer : (d.resolve (canonicalKey raw)).run s.host = (.ok v, host))
      (truthy : v.truthy = .error raised) :
      Lapse raised ⟨host, s.tally, s.events⟩
  | unshown {v : Loose} {raised : Raised} {host : σ} (key : canonicalKey raw ≠ [])
      (answer : (d.resolve (canonicalKey raw)).run s.host = (.ok v, host))
      (something : v.truthy = .ok true) (display : v.display = .error raised) :
      Lapse raised ⟨host, s.tally.bump (codes "resolved"), s.events⟩
  | undressed {v : Loose} {raised : Raised} {host : σ} (key : canonicalKey raw ≠ [])
      (answer : (d.resolve (canonicalKey raw)).run s.host = (.ok v, host))
      (something : v.truthy = .ok true)
      (attributes : (answersIn d raw s).given raw (canonicalKey raw) = .error raised) :
      Lapse raised ⟨((d.attributes raw (canonicalKey raw)).run host).2,
        s.tally.bump (codes "resolved"), s.events⟩

def Meets (out : Except Raised (Option Markup.Attributes)) (s' : Session σ) : Prop :=
  match out with
  | .ok image => d.Fate raw s image s'
  | .error raised => d.Lapse raw s raised s'

end Decorator

namespace Decorating

variable {α β : Type}

theorem run_call_bind (callback : StateM σ α) (k : α → Decorating σ β) (s : Session σ) :
    (call callback >>= k).run.run s =
      (k (callback.run s.host).1).run.run { s with host := (callback.run s.host).2 } := rfl

theorem run_unwrap_bind (x : Except Raised α) (k : α → Decorating σ β) (s : Session σ) :
    (unwrap x >>= k).run.run s =
      match x with
      | .ok a => (k a).run.run s
      | .error raised => (.error raised, s) := by
  cases x with
  | ok a => rfl
  | error raised => rfl

theorem run_report_bind (message : String) (key : Text) (raised : Raised)
    (k : Unit → Decorating σ β) (s : Session σ) :
    (report message key raised >>= k).run.run s =
      match raised.handled with
      | .ok shown => (k ()).run.run
        { s with events :=
          s.events ++ [warning message [(codes "key", key), (codes "error", shown)]] }
      | .error raised' => (.error raised', s) := by
  rw [report, bind_assoc, run_unwrap_bind]
  cases raised.handled with
  | ok shown => rfl
  | error raised' => rfl

end Decorating

namespace Decorator

variable (d : Decorator σ) (raw key : Text) (s : Session σ)

/-- The attribute callback may leave a warning, but not that of the resolver, and none if the call
ends in it. -/
theorem exists_run_givenAttributes (a : Answers)
    (answer : ((d.attributes raw key).run s.host).1 = a.attributes raw key) :
    ∃ warnings, (∀ e ∈ warnings, tellsFailure e = false) ∧
      (∀ raised, a.given raw key = .error raised → warnings = []) ∧
      (d.givenAttributes raw key).run.run s =
        (a.given raw key,
          ⟨((d.attributes raw key).run s.host).2, s.tally, s.events ++ warnings⟩) := by
  have one : ∀ (message : String) (extra : List (Text × Text)),
      codes message ≠ codes "emoji image resolver failed" →
      ∀ e ∈ [warning message extra], tellsFailure e = false := by
    intro message extra other e he
    rw [List.mem_singleton.1 he]
    simpa [tellsFailure, warning, Log.Source.event] using other
  have none : ∀ e ∈ ([] : List Log.Event), tellsFailure e = false := List.forall_mem_nil _
  rw [givenAttributes, run_call_bind, answer, Answers.given]
  cases a.attributes raw key with
  | error raised =>
    dsimp only
    rw [run_report_bind]
    cases raised.handled with
    | ok shown =>
      refine ⟨_, one "emoji attribute callback failed" _ (by decide), ?_, rfl⟩
      intro _ same
      cases same
    | error raised' => exact ⟨[], none, fun _ _ => rfl, by rw [List.append_nil]; rfl⟩
  | ok offered =>
    cases offered with
    | nothing => exact ⟨[], none, fun _ _ => rfl, by rw [List.append_nil]; rfl⟩
    | mapping m => exact ⟨[], none, fun _ _ => rfl, by rw [List.append_nil]; rfl⟩
    | other type =>
      refine ⟨_, one "emoji attribute callback returned a non-mapping" _ (by decide), ?_, rfl⟩
      intro _ same
      cases same

theorem meets_dressed {v : Loose} {host : σ} {src : Text} (some : canonicalKey raw ≠ [])
    (answer : (d.resolve (canonicalKey raw)).run s.host = (.ok v, host))
    (something : v.truthy = .ok true) (display : v.display = .ok src) :
    let dressing : Decorating σ (Option Markup.Attributes) := do
      return .some (dress d.settings raw src (← d.givenAttributes raw (canonicalKey raw)))
    let counted : Session σ := ⟨host, s.tally.bump (codes "resolved"), s.events⟩
    d.Meets raw s (dressing.run.run counted).1 (dressing.run.run counted).2 := by
  intro dressing counted
  have attributes : ((d.attributes raw (canonicalKey raw)).run host).1 =
      (d.answersIn raw s).attributes raw (canonicalKey raw) := by
    rw [answersIn, answer]
  obtain ⟨warnings, other, ended, run⟩ :=
    d.exists_run_givenAttributes raw (canonicalKey raw) counted _ attributes
  rw [run_bind, run]
  cases given : (d.answersIn raw s).given raw (canonicalKey raw) with
  | ok given' => exact .resolved some answer something display given other
  | error raised =>
    rw [ended raised given, List.append_nil]
    exact .undressed some answer something given

theorem meets_image? :
    d.Meets raw s ((d.image? raw).run.run s).1 ((d.image? raw).run.run s).2 := by
  rw [image?]
  by_cases none : canonicalKey raw = []
  · rw [source, if_pos (by rw [none]; rfl)]
    exact Fate.keyless none
  · rw [source, if_neg (by simpa using none)]
    simp only [bind_assoc]
    rw [run_call_bind]
    rcases answer : (d.resolve (canonicalKey raw)).run s.host with ⟨raised | v, host⟩
    · dsimp only
      rw [bind_assoc, run_report_bind]
      cases handled : raised.handled with
      | ok shown => exact Fate.failed none answer handled
      | error raised' => exact Lapse.escaped none answer handled
    · dsimp only
      rw [bind_assoc, run_unwrap_bind]
      cases truthy : v.truthy with
      | error raised => exact Lapse.untold none answer truthy
      | ok b =>
        cases b with
        | false => exact Fate.unresolved none answer truthy
        | true =>
          have counted : ∀ k : Unit → Decorating σ (Option Markup.Attributes),
              (count "resolved" >>= k).run.run ⟨host, s.tally, s.events⟩ =
                (k ()).run.run ⟨host, s.tally.bump (codes "resolved"), s.events⟩ := fun _ => rfl
          simp only [↓reduceIte, bind_assoc]
          rw [counted, run_unwrap_bind]
          cases display : v.display with
          | error raised => exact Lapse.unshown none answer truthy display
          | ok src => exact d.meets_dressed raw s none answer truthy display

variable {d raw s}

theorem Orderly.answersIn (h : d.Orderly) : (d.answersIn raw s).Orderly where
  failed := (h s.host).failed
  resolved := (h s.host).resolved
  refused := (h ((d.resolve (canonicalKey raw)).run s.host).2).refused
  offered := (h ((d.resolve (canonicalKey raw)).run s.host).2).offered

theorem Orderly.not_lapse (h : d.Orderly) {raised : Raised} {s' : Session σ} :
    ¬ d.Lapse raw s raised s' := by
  intro lapse
  cases lapse with
  | escaped key answer through =>
    obtain ⟨shown, handled⟩ := (h s.host).failed _ _ (congrArg Prod.fst answer)
    cases handled.symm.trans through
  | untold key answer truthy =>
    obtain ⟨b, src, here, -⟩ := (h s.host).resolved _ _ (congrArg Prod.fst answer)
    cases here.symm.trans truthy
  | unshown key answer something display =>
    obtain ⟨b, src, -, here⟩ := (h s.host).resolved _ _ (congrArg Prod.fst answer)
    cases here.symm.trans display
  | undressed key answer something attributes =>
    have orderly : (d.answersIn raw s).Orderly := h.answersIn
    obtain ⟨given, here⟩ := orderly.exists_given raw (canonicalKey raw)
    cases here.symm.trans attributes

end Decorator

end Pictograph
