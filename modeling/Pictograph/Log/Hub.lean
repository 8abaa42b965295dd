import Pictograph.Log.Line
import Pictograph.Text.Case

/-!
The logger of the package and its handlers. Setting it up replaces the handler that an earlier
set-up installed and leaves all others alone. An event reaches every handler if it is severe enough
for the level of the logger.
-/

namespace Pictograph.Log

structure Handler where
  /-- Was the handler installed by the set-up? -/
  own : Bool
  stream : Text
  deriving DecidableEq, Repr

def Handler.line? (handler : Handler) (format : Event → Except Fault Text) (e : Event) :
    Option Text :=
  let line := if handler.own then format e
    else (Log.format e.message e.args).map (e.level.name ++ codes " " ++ ·)
  line.toOption

structure Hub where
  level : Level
  /-- Do events go on from the package's logger to those above it? -/
  propagates : Bool
  handlers : List Handler
  /-- The loggers that somebody asked for by name. -/
  loggers : List Text
  /-- The lines written, each with its stream, the oldest first. -/
  written : List (Text × Text)

/-- Where handlers write to. Whether it counts as true matters only to a set-up. -/
structure Stream where
  name : Text
  truthy : Bool := true
  deriving DecidableEq, Repr

inductive LevelChoice where
  | level (l : Level)
  | name (t : Text)
  deriving DecidableEq, Repr

namespace LevelChoice

def read (c : LevelChoice) : Except Fault Level :=
  match c with
  | level l => .ok l
  | name t =>
    match Level.ofName? (Text.upper t) with
    | some l => .ok l
    | none => .error (.unknownLevel (Text.upper t))

end LevelChoice

structure Setup where
  level? : Option LevelChoice
  stream? : Option Stream
  deriving DecidableEq, Repr

namespace Setup

def level (s : Setup) : LevelChoice := s.level?.getD (.name (codes "INFO"))

/-- The stream that is written to: the standard output if none is given that counts as true. -/
def stream (s : Setup) : Text :=
  match s.stream? with
  | some stream => if stream.truthy then stream.name else codes "stdout"
  | none => codes "stdout"

end Setup

namespace Hub

def start : Hub := ⟨.notSet, true, [], [], []⟩

def packageName : Text := codes "emojiparse"

/-- Installs the handler of the set-up for a stream in the place of the one before. -/
def install (h : Hub) (stream : Text) : Hub :=
  { h with handlers := h.handlers.filter (!·.own) ++ [⟨true, stream⟩] }

/-- Sets up the logger, which then keeps its events to itself. The handler is in place even if the
level turns out to be unknown. -/
def configure (h : Hub) (setup : Setup) : Except Fault Unit × Hub :=
  match setup.level.read with
  | .ok l => (.ok (), { h.install setup.stream with level := l, propagates := false })
  | .error f => (.error f, h.install setup.stream)

def attach (h : Hub) (stream : Text) : Hub :=
  { h with handlers := h.handlers ++ [⟨false, stream⟩] }

def request (h : Hub) (logger : Text) : Hub := { h with loggers := logger :: h.loggers }

/-- The names above that of a logger, the nearest first: what stands before its dots, where a dot
just before one of them is passed over. The name is given from its end. -/
def above : Text → List Text
  | 0x2E :: c :: rest => (c :: rest).reverse :: above rest
  | _ :: rest => above rest
  | [] => []

example : above (codes "a.b.c").reverse = [codes "a.b", codes "a"] := by decide
example : above (codes "a..c").reverse = [codes "a."] := by decide
example : above (codes ".a").reverse = [] := by decide

/-- Is a logger the package's own or below it? It stands below the nearest logger above it that is
known. Each name is shorter than the one before, so the length of the first bounds the steps. -/
def isBelow (known : List Text) : Nat → Text → Bool
  | 0, _ => false
  | steps + 1, logger =>
    logger = packageName ||
      match (above logger.reverse).find? known.contains with
      | some parent => isBelow known steps parent
      | none => false

def covers (h : Hub) (logger : Text) : Bool :=
  isBelow (packageName :: h.loggers) logger.length logger

/-- The least rank that a logger lets through, that of warnings without a level of its own. -/
def threshold (h : Hub) (logger : Text) : Int :=
  if h.covers logger && h.level.rank != 0 then h.level.rank else Level.warning.rank

/-- Is an event of a level heard by a logger? Only ranks above zero ever are. -/
def hears (h : Hub) (logger : Text) (level : Level) : Bool :=
  0 < level.rank && h.threshold logger ≤ level.rank

/-- Refuses a level that is no whole number, unless it orders below what a logger lets through. -/
def refuseLevel (h : Hub) (logger : Text) (level : Value) : Except Fault Unit :=
  match level with
  | .float x =>
    if 0.0 < x ∧ (Decimal.Exact.ofFloat x).atLeast (h.threshold logger) then .error .levelNotWhole
    else .ok ()
  | .list _ | .object _ => .error (.unhashable level.typeName)
  | v => .error (.unordered v.typeName)

/-- Logs an event. A level that cannot be named and a field with a reserved name are refused, unless
the event is not heard anyway. -/
def log (format : Event → Except Fault Text) (h : Hub) (e : Event) : Except Fault Hub :=
  if !h.hears e.logger e.level then .ok h
  else if !e.level.value.writable then .error (.number .longNumber)
  else
    match e.extra.find? fun f => reservedNames.contains f.1 with
    | some f => .error (.reservedField f.1)
    | none =>
      if h.covers e.logger then
        .ok { h with written := h.written ++ h.handlers.filterMap fun handler =>
          (handler.line? format e).map (handler.stream, ·) }
      else .ok h

theorem other_handlers_install (h : Hub) (stream : Text) :
    (h.install stream).handlers.filter (!·.own) = h.handlers.filter (!·.own) := by
  simp [install, List.filter_append, List.filter_filter]

end Hub

end Pictograph.Log
