import Pictograph.Proofs.Log.Handlers

/-!
Set-ups that are refused. A level by a name that nobody knows is found out only when the handler is
already exchanged: the level of the logger, its propagation and the handlers of others are then what
they were, but the handler of the set-up is a new one.
-/

namespace Pictograph.Log

theorem LevelChoice.read_eq_error_iff {choice : LevelChoice} {f : Fault} :
    choice.read = .error f ↔ ∃ t, choice = .name t ∧ Level.ofName? (Text.upper t) = none ∧
      f = .unknownLevel (Text.upper t) := by
  cases choice with
  | level l =>
    constructor
    · exact fun refused => by cases refused
    · rintro ⟨t, none, -⟩
      cases none
  | name t =>
    rw [read]
    cases known : Level.ofName? (Text.upper t) with
    | some l =>
      constructor
      · exact fun refused => by cases refused
      · rintro ⟨_, ⟨⟩, unknown, -⟩
        rw [known] at unknown
        cases unknown
    | none =>
      constructor
      · intro refused
        cases refused
        exact ⟨t, rfl, known, rfl⟩
      · rintro ⟨_, ⟨⟩, -, rfl⟩
        rfl

def Action.level? : Action → Option Level
  | .configure setup => setup.level.read.toOption
  | _ => none

def lastLevel (actions : List Action) : Option Level :=
  (actions.filterMap Action.level?).getLast?

theorem lastLevel_append (actions : List Action) (a : Action) :
    lastLevel (actions ++ [a]) = a.level?.or (lastLevel actions) := by
  unfold lastLevel
  rw [List.filterMap_append, List.getLast?_append]
  cases level : a.level? <;> simp [level]

namespace Hub

variable {setup : Setup} {f : Fault}

theorem configure_fst (h : Hub) (setup : Setup) :
    (h.configure setup).1 = setup.level.read.map fun _ => () := by
  unfold configure
  split
  · next known => rw [known]; rfl
  · next unknown => rw [unknown]; rfl

theorem read_of_refused {h : Hub} (refused : (h.configure setup).1 = .error f) :
    setup.level.read = .error f := by
  rw [configure_fst] at refused
  cases read : setup.level.read with
  | ok l =>
    rw [read] at refused
    cases refused
  | error g =>
    rw [read] at refused
    cases refused
    rfl

theorem level_propagates_after (h : Hub) (a : Action) :
    (h.after a).level = a.level?.getD h.level ∧
      (h.after a).propagates = (h.propagates && a.level?.isNone) := by
  cases a with
  | configure setup =>
    rw [after, configure, Action.level?]
    cases setup.level.read with
    | ok l => exact ⟨rfl, (Bool.and_false _).symm⟩
    | error f => exact ⟨rfl, (Bool.and_true _).symm⟩
  | attach stream => exact ⟨rfl, (Bool.and_true _).symm⟩
  | request logger => exact ⟨rfl, (Bool.and_true _).symm⟩
  | log moment e account =>
    obtain ⟨written, kept⟩ := h.after_log_keeps moment e account
    rw [kept]
    exact ⟨rfl, (Bool.and_true _).symm⟩

theorem level_propagates_run (h : Hub) (actions : List Action) :
    (h.run actions).level = (lastLevel actions).getD h.level ∧
      (h.run actions).propagates = (h.propagates && (lastLevel actions).isNone) := by
  induction actions using List.reverseRecOn with
  | nil => exact ⟨rfl, (Bool.and_true _).symm⟩
  | append_singleton actions a ih =>
    obtain ⟨level, propagates⟩ := (h.run actions).level_propagates_after a
    rw [run_append, lastLevel_append, level, propagates, ih.1, ih.2]
    cases a.level? with
    | none => exact ⟨rfl, Bool.and_true _⟩
    | some l => exact ⟨rfl, (Bool.and_false _).trans (Bool.and_false _).symm⟩

/-- Does a set-up that is refused leave handlers, level and propagation alone? -/
def AllOrNothing (h : Hub) (setup : Setup) : Prop :=
  ∀ f, (h.configure setup).1 = .error f → (h.configure setup).2.handlers = h.handlers ∧
    (h.configure setup).2.level = h.level ∧ (h.configure setup).2.propagates = h.propagates

end Hub

/-- A set-up is refused only for a name that no level has. It then leaves the level, the propagation
and the handlers of others as they were before, whatever happened until then; but its own handler
stands behind them, in the place of any that an earlier set-up installed. -/
theorem refused_setup_exchanges_handler (h : Hub) (actions : List Action) {setup : Setup}
    {f : Fault} (refused : ((h.run actions).configure setup).1 = .error f) :
    (∃ t, setup.level = .name t ∧ Level.ofName? (Text.upper t) = none ∧
      f = .unknownLevel (Text.upper t)) ∧
    ((h.run actions).configure setup).2 =
      { h.run actions with handlers := (h.run actions).others ++ [⟨true, setup.stream⟩] } ∧
    (h.run actions).others = h.others ++ attached actions ∧
    (h.run actions).level = (lastLevel actions).getD h.level ∧
    (h.run actions).propagates = (h.propagates && (lastLevel actions).isNone) := by
  have read := Hub.read_of_refused refused
  refine ⟨LevelChoice.read_eq_error_iff.1 read, ?_, h.others_run actions,
    h.level_propagates_run actions⟩
  rw [Hub.configure, read]
  rfl

/-- Handlers of others around that of a set-up, which the refused one takes away from its place. -/
theorem loud_setup_refused :
    let actions : List Action :=
      [.attach (codes "a"), .configure (.named "debug" "b"), .attach (codes "c")]
    let before := Hub.start.run actions
    let after := (before.configure (.named "loud" "d")).2
    (before.configure (.named "loud" "d")).1 = .error (.unknownLevel (codes "LOUD")) ∧
    before.handlers = [⟨false, codes "a"⟩, ⟨true, codes "b"⟩, ⟨false, codes "c"⟩] ∧
    after.handlers = [⟨false, codes "a"⟩, ⟨false, codes "c"⟩, ⟨true, codes "d"⟩] ∧
    after.level = .debug ∧ after.propagates = false := by
  intro actions before after
  have refused : (before.configure (.named "loud" "d")).1 =
      .error (.unknownLevel (codes "LOUD")) := by rfl
  obtain ⟨-, exchanged, others, level, propagates⟩ :=
    refused_setup_exchanges_handler Hub.start actions refused
  refine ⟨refused, rfl, ?_, ?_, ?_⟩
  · exact (congrArg Hub.handlers exchanged).trans (congrArg (· ++ [⟨true, codes "d"⟩]) others)
  · exact (congrArg Hub.level exchanged).trans level
  · exact (congrArg Hub.propagates exchanged).trans propagates

/-- A second set-up that is refused takes the first one's stream away from the logger. -/
theorem setup_not_allOrNothing :
    ¬ (Hub.start.run [.configure (.named "info" "s")]).AllOrNothing (.named "loud" "t") := by
  intro kept
  obtain ⟨handlers, -⟩ := kept (.unknownLevel (codes "LOUD")) (by rfl)
  exact absurd handlers (by decide)

end Pictograph.Log
