import Pictograph.Decimal.Reading
import Pictograph.Log.Fault

/-!
Log events: what a part of the library has to say, before it is written. An event names its logger
and carries named fields beside the message.
-/

namespace Pictograph.Log

/-- Levels are numbers, or truth values that stand for one and zero. -/
inductive Level where
  | number (n : Int)
  | flag (b : Bool)
  deriving DecidableEq, Repr

namespace Level

/-- The place of a level among all levels; those with names lie ten apart. -/
def rank : Level → Int
  | number n => n
  | flag b => if b then 1 else 0

def notSet : Level := number 0
def debug : Level := number 10
def info : Level := number 20
def warning : Level := number 30
def error : Level := number 40
def critical : Level := number 50

def value : Level → Value
  | number n => .int n
  | flag b => .bool b

def name (l : Level) : Text :=
  if l.rank = 0 then codes "NOTSET"
  else if l.rank = 10 then codes "DEBUG"
  else if l.rank = 20 then codes "INFO"
  else if l.rank = 30 then codes "WARNING"
  else if l.rank = 40 then codes "ERROR"
  else if l.rank = 50 then codes "CRITICAL"
  else codes "Level " ++ l.value.literal

def ofName? (name : Text) : Option Level :=
  [(codes "CRITICAL", critical), (codes "FATAL", critical), (codes "ERROR", error),
    (codes "WARN", warning), (codes "WARNING", warning), (codes "INFO", info),
    (codes "DEBUG", debug), (codes "NOTSET", notSet)].lookup name

/-- What is written for a level given as a loose value: a name for a number, and a number for a
name. -/
def label (v : Value) : Except Fault Value :=
  let shown := fun (form : Value → Text) => (write form v).map Value.text
  let unnamed := shown fun v => codes "Level " ++ v.display
  match v with
  | .int n => shown fun _ => (number n).name
  | .bool b => .ok (.text (flag b).name)
  | .float x =>
    match v.toInt with
    | .ok n =>
      let named := [notSet, debug, info, warning, error, critical].contains (number n)
      if x == x.floor && named then .ok (.text (number n).name) else unnamed
    | .error _ => unnamed
  | .text t =>
    match ofName? t with
    | some l => .ok l.value
    | none => unnamed
  | .null => unnamed
  | v => .error (.unhashable v.typeName)

end Level

/-- JSON text: it has no control characters, for all of them are escaped. -/
abbrev Printed := {t : Text // t.Inline}

/-- What an event carries in a field: a value, or something else, of which only matters how it is
written as JSON, if it can be. -/
inductive Datum where
  | value (v : Value)
  | other (json : Except Fault Printed)

namespace Datum

def text (t : Text) : Datum := value (.text t)

def fields (fields : List (Text × Value)) : List (Text × Datum) := fields.map (Prod.map id value)

end Datum

structure Event where
  logger : Text
  level : Level
  message : Text
  args : List Value
  extra : List (Text × Datum)

/-- Something that speaks through a logger and adds its own fields to every event. -/
structure Source where
  logger : Text
  context : List (Text × Datum)

/-- A source that speaks through a logger. None of its own fields can be named like that. -/
def Source.bind (logger : Text) (context : List (Text × Datum)) : Except Fault Source :=
  if (context.lookup (codes "logger")).isSome then .error .doubledLogger
  else .ok ⟨logger, context⟩

/-- An event of a source; its own fields give way to those of the event. -/
def Source.event (s : Source) (level : Level) (message : Text) (args : List Value)
    (extra : List (Text × Datum)) : Event :=
  ⟨s.logger, level, message, args,
    extra.foldl (fun fields f => setMember fields f.1 f.2) s.context⟩

end Pictograph.Log
