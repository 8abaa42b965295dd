import Pictograph.Log.Event
import Pictograph.Log.Message
import Pictograph.Log.Stamp
import Pictograph.Value.Json

/-!
Log lines: one JSON object a line with the time, the level, the logger and the message of an event,
then the fields that say where it comes from, then all others by name, and an exception at the end.
-/

namespace Pictograph.Log

/-- Names that belong to every event, so that no field of its own can have them. -/
def reservedNames : List Text :=
  ["name", "msg", "args", "levelname", "levelno", "pathname", "filename", "module", "exc_info",
    "exc_text", "stack_info", "lineno", "funcName", "created", "msecs", "relativeCreated", "thread",
    "threadName", "processName", "process", "message", "asctime"].map codes

def contextNames : List Text := ["component", "category", "key", "flavor"].map codes

/-- Fields that a line shows: not reserved, and not private by an underscore in front. -/
def shownFields (fields : List (Text × α)) : List (Text × α) :=
  fields.filter fun f => !reservedNames.contains f.1 && f.1.head? != some 0x5F

def insertField (f : Text × α) : List (Text × α) → List (Text × α)
  | [] => [f]
  | g :: rest => if f.1 < g.1 then f :: g :: rest else g :: insertField f rest

def orderedFields (fields : List (Text × α)) : List (Text × α) :=
  (contextNames.filterMap fun n => (fields.lookup n).map fun v => (n, v)) ++
    (fields.filter fun f => !contextNames.contains f.1).foldr insertField []

/-- Members in front, fields and the account of an error put together. A field with the name of an
earlier member takes its place. -/
def assemble (front fields : List (Text × α)) (account : Option α) : List (Text × α) :=
  let withFields :=
    (orderedFields (shownFields fields)).foldl (fun ms f => setMember ms f.1 f.2) front
  match account with
  | some a => setMember withFields (codes "exc_info") a
  | none => withFields

def leading (time message : Text) (e : Event) : List (Text × Value) :=
  [(codes "ts", .text time), (codes "level", .text e.level.name),
    (codes "logger", .text e.logger), (codes "message", .text message)]

def Datum.json : Datum → Except Fault Text
  | value v => write Value.json v
  | other json => json.map (·.1)

def printMember (m : Text × Datum) : Except Fault Text := do
  return Value.jsonString m.1 ++ codes ": " ++ (← m.2.json)

def print (members : List (Text × Datum)) : Except Fault Text := do
  let parts ← members.mapM printMember
  return codes "\x7b" ++ Text.join (codes ", ") parts ++ codes "\x7d"

/-- The line of an event, given its time and the account of the error that it reports, with the
calls that led to it. -/
def line (time : Text) (e : Event) (account : Option Text) : Except Fault Text := do
  let message ← format e.message e.args
  print (assemble (Datum.fields (leading time message e)) e.extra (account.map .text))

def lineAt (m : Moment) (e : Event) (account : Option Text) : Except Fault Text := do
  line (← m.text) e account

/-- The account of an error that no call led to: its kind, and its message if there is one. A
missing key is quoted in its message. -/
def accountOf (kind : Text) (argument : Value) : Text :=
  match argument.write (if kind = codes "KeyError" then Value.literal else Value.display) with
  | .ok [] => kind
  | .ok message => kind ++ codes ": " ++ message
  | .error _ => kind ++ codes ": <exception str() failed>"

end Pictograph.Log
