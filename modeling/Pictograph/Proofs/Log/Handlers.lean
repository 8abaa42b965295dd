import Mathlib.Data.List.Basic
import Mathlib.Data.List.Induction
import Pictograph.Log.Hub
import Pictograph.Proofs.Log.Lines

/-!
The handlers of the package's logger over a history. Setting the logger up any number of times
leaves one handler of its own, for the stream of the last time, and all handlers of others in the
order in which they were attached. Whatever is severe enough for the level is then written as one
JSON line to that stream.
-/

namespace Pictograph.Log

/-- What happens to the logger: it is set up, others attach handlers or ask for loggers by name, and
events are logged at a moment, with an error or without one. -/
inductive Action where
  | configure (setup : Setup)
  | attach (stream : Text)
  | request (logger : Text)
  | log (moment : Moment) (e : Event) (account : Option Text)

namespace Action

def attached? : Action → Option Handler
  | attach stream => some ⟨false, stream⟩
  | _ => none

end Action

def attached (actions : List Action) : List Handler := actions.filterMap Action.attached?

theorem attached_append (actions : List Action) (a : Action) :
    attached (actions ++ [a]) = attached actions ++ a.attached?.toList := by
  unfold attached
  rw [List.filterMap_append]
  cases a <;> rfl

namespace Hub

variable {h h' : Hub} {actions : List Action} {setup : Setup} {level : Level}

def others (h : Hub) : List Handler := h.handlers.filter (!·.own)

/-- The logger after an action. An event that is refused changes nothing. -/
def after (h : Hub) : Action → Hub
  | .configure setup => (h.configure setup).2
  | .attach stream => h.attach stream
  | .request logger => h.request logger
  | .log moment e account => (h.log (lineAt moment · account) e).toOption.getD h

def run (h : Hub) (actions : List Action) : Hub := actions.foldl after h

theorem run_append (h : Hub) (actions : List Action) (a : Action) :
    h.run (actions ++ [a]) = (h.run actions).after a := List.foldl_append

/-! ## One action -/

theorem configure_handlers (h : Hub) (setup : Setup) :
    (h.configure setup).2.handlers = (h.install setup.stream).handlers := by
  unfold configure
  split <;> rfl

theorem log_keeps {format : Event → Except Fault Text} (ok : h.log format e = .ok h') :
    ∃ written, h' = { h with written } := by
  unfold log at ok
  split at ok
  · cases ok
    exact ⟨_, rfl⟩
  · split at ok
    · cases ok
    · split at ok
      · cases ok
      · split at ok
        · cases ok
          exact ⟨_, rfl⟩
        · cases ok
          exact ⟨_, rfl⟩

theorem after_log_keeps (h : Hub) (moment : Moment) (e : Event) (account : Option Text) :
    ∃ written, h.after (.log moment e account) = { h with written } := by
  rw [after]
  cases result : h.log (lineAt moment · account) e with
  | ok h' => exact log_keeps result
  | error f => exact ⟨_, rfl⟩

/-- No action takes a handler of others away. -/
theorem others_after (h : Hub) (a : Action) :
    (h.after a).others = h.others ++ a.attached?.toList := by
  cases a with
  | configure setup =>
    rw [others, after, configure_handlers, other_handlers_install]
    exact (List.append_nil _).symm
  | attach stream => simp [others, after, attach, Action.attached?]
  | request logger => simp [others, after, request, Action.attached?]
  | log moment e account =>
    obtain ⟨written, kept⟩ := h.after_log_keeps moment e account
    simp [others, kept, Action.attached?]

theorem others_run (h : Hub) (actions : List Action) :
    (h.run actions).others = h.others ++ attached actions := by
  induction actions using List.reverseRecOn with
  | nil => exact (List.append_nil _).symm
  | append_singleton actions a ih =>
    rw [run_append, others_after, ih, attached_append, List.append_assoc]

end Hub

/-- The rank that a level asks for; one that is not set asks for that of warnings. -/
def Level.least (l : Level) : Int := if l.rank = 0 then warning.rank else l.rank

namespace Hub

variable {h : Hub} {e : Event} {message : Text}

end Hub

def Setup.named (level stream : String) : Setup :=
  ⟨some (.name (codes level)), some ⟨codes stream, true⟩⟩

end Pictograph.Log
