import Pictograph.Log.Event
import Pictograph.Markup
import Pictograph.Metrics.Counter
import Pictograph.Pattern.Matcher
import Pictograph.CodePoint
import Pictograph.Settings

/-!
Images for the emoji of a text. A match is resolved by its key to the source of an image; what
cannot be resolved stays as it is. The alternative text of an image is always the match itself.
Callbacks may keep a state of their own and may raise errors. Ordinary ones are logged and go no
further; all others end the call, and so does an answer whose text cannot be made.
-/

namespace Pictograph

/-- The key of a match. Selectors are left out unless the match is joined. -/
def canonicalKey (raw : Text) : Text :=
  Text.codePoints (codes "-")
    (if raw.contains zwj.toNat then raw else raw.filter (· != vs16.toNat))

def keyOf (v : Value) : Except Fault Text :=
  match v with
  | .text t => .ok (canonicalKey t)
  | .list _ | .object _ => .error (.lacks v.typeName (codes "replace"))
  | v => .error (.noContainer v.typeName)

def dropStray (t : Text) : Text := t.filter (· != vs16.toNat)

/-- What an image is made from. A callback works on a state of type `σ`. -/
structure Decorator (σ : Type) where
  matcher : Matcher
  settings : DecoratorSettings
  /-- The source of the image with a key. An answer that counts as false gives none. -/
  resolve : Text → StateM σ (Except Raised Loose)
  /-- More attributes for the image of a match with a key. -/
  attributes : Text → Text → StateM σ (Except Raised Offered)

structure Session (σ : Type) where
  host : σ
  /-- How many matches were resolved, were not, or failed. -/
  tally : Counter
  events : List Log.Event

abbrev Decorating (σ : Type) := ExceptT Raised (StateM (Session σ))

inductive Piece where
  | plain (t : Text)
  | image (attributes : Markup.Attributes)
  deriving DecidableEq, Repr

namespace Decorating

def count (outcome : String) : Decorating σ Unit :=
  modify fun s => { s with tally := s.tally.bump (codes outcome) }

def scanner : Log.Source :=
  ⟨codes "emojiparse.scanner.decorator", [(codes "component", .text (codes "scanner"))]⟩

def warning (message : String) (extra : List (Text × Text)) : Log.Event :=
  scanner.event Log.Level.warning (codes message) [] (extra.map fun f => (f.1, .text f.2))

def warn (message : String) (extra : List (Text × Text)) : Decorating σ Unit :=
  modify fun s => { s with events := s.events ++ [warning message extra] }

def call (callback : StateM σ α) : Decorating σ α := ExceptT.lift fun s =>
  let (a, host) := callback s.host
  (a, { s with host })

def unwrap (x : Except Raised α) : Decorating σ α := ExceptT.mk (pure x)

/-- Logs an error that a callback raised. One that is not ordinary is raised again, and so is the
error of writing it. -/
def report (message : String) (key : Text) (raised : Raised) : Decorating σ Unit := do
  let shown ← unwrap raised.handled
  warn message [(codes "key", key), (codes "error", shown)]

end Decorating

namespace Decorator

open Decorating

def defaultSource (settings : DecoratorSettings) (key : Text) : Text :=
  settings.baseUrl ++ settings.size ++ codes "/" ++ key ++ settings.imageType

/-- The source of the image for a key, if there is one. A match without a key has none. -/
def source (d : Decorator σ) (key : Text) : Decorating σ (Option Text) := do
  if key.isEmpty then
    count "unresolved"
    return none
  match ← call (d.resolve key) with
  | .error raised =>
    report "emoji image resolver failed" key raised
    count "error"
    return none
  | .ok v =>
    if ← unwrap v.truthy then
      -- The match counts as resolved before the text of the answer is made.
      count "resolved"
      return some (← unwrap v.display)
    else
      count "unresolved"
      return none

def givenAttributes (d : Decorator σ) (raw key : Text) : Decorating σ (List (Text × Text)) := do
  match ← call (d.attributes raw key) with
  | .error raised =>
    report "emoji attribute callback failed" key raised
    return []
  | .ok .nothing => return []
  | .ok (.mapping m) => unwrap m.texts
  | .ok (.other type) =>
    warn "emoji attribute callback returned a non-mapping"
      [(codes "key", key), (codes "returned", type)]
    return []

/-- The attributes of an image, with those that are given set over the usual ones. -/
def dress (settings : DecoratorSettings) (raw src : Text) (given : List (Text × Text)) :
    Markup.Attributes :=
  let base :=
    [(codes "draggable", codes "false"), (codes "class", settings.className), (codes "alt", raw),
      (codes "src", src)]
  setMember (Markup.merge base given) (codes "alt") raw

def image? (d : Decorator σ) (raw : Text) : Decorating σ (Option Markup.Attributes) := do
  let key := canonicalKey raw
  match ← d.source key with
  | some src => return some (dress d.settings raw src (← d.givenAttributes raw key))
  | none => return none

def plainPieces (t : Text) : List Piece := if t.isEmpty then [] else [.plain t]

/-- The pieces of a cut text after the plain text gathered so far, and whether there is an image. -/
def piecesOf (d : Decorator σ) (rest gathered : Text) :
    List (Text × Text) → Decorating σ (List Piece × Bool)
  | [] => return (plainPieces (gathered ++ dropStray rest), false)
  | (gap, raw) :: parts => do
    let before := gathered ++ dropStray gap
    match ← d.image? raw with
    | none => piecesOf d rest (before ++ raw) parts
    | some attributes =>
      let (more, _) ← piecesOf d rest [] parts
      return (plainPieces before ++ .image attributes :: more, true)

/-- The pieces of a text, or none if no match was resolved. Presentation selectors outside the
matches are left out. -/
def pieces (d : Decorator σ) (t : Text) : Decorating σ (Option (List Piece)) := do
  let cut := d.matcher.cut t
  let (pieces, found) ← d.piecesOf cut.rest [] cut.parts
  return if found then some pieces else none

def html (d : Decorator σ) (t : Text) : Decorating σ Text :=
  d.matcher.replaceM (fun raw => do
    match ← d.image? raw with
    | some attributes => return Markup.renderImage attributes
    | none => return raw) t

def value (d : Decorator σ) (v : Value) : Decorating σ Text :=
  match v with
  | .text t => d.html t
  | v => throw (.fault (.notDecorable v.typeName))

end Decorator

/-- How far a pass over a tree has come: the session, and the error that ended the pass, if one
did. The tree is changed in place, so what was done before an error stays done. -/
structure Course (σ : Type) where
  session : Session σ
  error : Option Raised

abbrev Walk (σ : Type) := StateM (Course σ)

namespace Walk

/-- The next step of a pass, with what stands for its answer when an error ends the pass in it. After
an error there is no next step. -/
def attempt (step : Decorating σ α) (otherwise : α) : Walk σ α := fun c =>
  match c.error with
  | some _ => (otherwise, c)
  | none =>
    match step.run.run c.session with
    | (.ok x, s) => (x, ⟨s, none⟩)
    | (.error raised, s) => (otherwise, ⟨s, some raised⟩)

end Walk

end Pictograph
