import Pictograph.Decorate.Basic

/-!
Documents whose texts are nodes of their own. Decorating lists the texts first, and then puts the
pieces of one after the other in its place. Comments, scripts and other special texts are left alone,
and so is all text under a skipped element, even one above the node that is decorated.
-/

namespace Pictograph

inductive SpecialText where
  | comment
  | cdata
  | instruction
  | declaration
  | doctype
  | script
  | style
  | template
  | ruby
  deriving DecidableEq, Repr

inductive Node where
  | text (t : Text)
  | special (kind : SpecialText) (t : Text)
  | element (name : Text) (attributes : List (Text × Value)) (children : List Node)
  deriving Inhabited

namespace Node

def ofPiece : Piece → Node
  | .plain t => text t
  | .image attributes => element (codes "img") attributes.loose []

def text? : Node → Option Text
  | text t | special _ t => some t
  | element .. => none

mutual

def countTexts : Node → Nat
  | text _ | special _ _ => 1
  | element _ _ children => countTextsAll children

def countTextsAll : List Node → Nat
  | [] => 0
  | n :: rest => countTexts n + countTextsAll rest

end

end Node

/-- A node of a document that is being decorated. The texts that were there at first are numbered;
one that was put in has no number. -/
inductive Strung where
  | text (number : Option Nat) (kind : Option SpecialText) (t : Text)
  | element (name : Text) (attributes : List (Text × Value)) (children : List Strung)

namespace Strung

mutual

def ofNode (first : Nat) : Node → Strung
  | .text t => text (some first) none t
  | .special kind t => text (some first) (some kind) t
  | .element name attributes children => element name attributes (ofNodes first children)

/-- Nodes with their texts numbered from a number on, in the order of the document. -/
def ofNodes (first : Nat) : List Node → List Strung
  | [] => []
  | n :: rest => ofNode first n :: ofNodes (first + n.countTexts) rest

end

mutual

def toNode : Strung → Node
  | text _ none t => .text t
  | text _ (some kind) t => .special kind t
  | element name attributes children => .element name attributes (toNodes children)

def toNodes : List Strung → List Node
  | [] => []
  | n :: rest => toNode n :: toNodes rest

end

def ofPiece : Piece → Strung
  | .plain t => text none none t
  | .image attributes => element (codes "img") attributes.loose []

/-- A text in the list of all texts of a document. -/
structure Entry where
  number : Nat
  kind : Option SpecialText
  text : Text

mutual

/-- The numbered texts in the order of the document. Those that are empty are not listed. -/
def entries : Strung → List Entry
  | text (some number) kind t => if t.isEmpty then [] else [⟨number, kind, t⟩]
  | text none _ _ => []
  | element _ _ children => entriesAll children

def entriesAll : List Strung → List Entry
  | [] => []
  | n :: rest => entries n ++ entriesAll rest

end

/-- The place of a text: the names of the elements around it, from the inside, and what the nodes
become with others in the place of the text. -/
structure Place where
  around : List Text
  put : List Strung → List Strung

mutual

def find (number : Nat) : Strung → Option Place
  | text n _ _ => if n = some number then some ⟨[], id⟩ else none
  | element name attributes children =>
    (findAll number children).map fun place =>
      ⟨place.around ++ [name], fun new => [element name attributes (place.put new)]⟩

def findAll (number : Nat) : List Strung → Option Place
  | [] => none
  | n :: rest =>
    match find number n with
    | some place => some ⟨place.around, fun new => place.put new ++ rest⟩
    | none => (findAll number rest).map fun place => ⟨place.around, fun new => n :: place.put new⟩

end

/-- Goes through the texts that were listed, given the names of the elements above the nodes. The
elements around each text are looked up in the nodes as they have become. -/
def decorateEach (d : Decorator σ) (above : List Text) :
    List Entry → List Strung → Walk σ (List Strung)
  | [], nodes => return nodes
  | entry :: entries, nodes => do
    match findAll entry.number nodes with
    | none => decorateEach d above entries nodes
    | some place =>
      if entry.kind.isSome || (place.around ++ above).any Markup.isSkipped then
        decorateEach d above entries nodes
      else
        match ← Walk.attempt (d.pieces entry.text) none with
        | none => decorateEach d above entries nodes
        | some pieces => decorateEach d above entries (place.put (pieces.map ofPiece))

end Strung

namespace Node

def decorateAll (d : Decorator σ) (above : List Text) (nodes : List Node) :
    Walk σ (List Node) := do
  let strung := Strung.ofNodes 0 nodes
  return Strung.toNodes (← Strung.decorateEach d above (Strung.entriesAll strung) strung)

/-- Decorates the inside of a node, given the names of the elements around it. A text has no inside;
only an empty one passes as a node without one. -/
def decorateInside (d : Decorator σ) (above : List Text) : Node → Walk σ Node
  | element name attributes children => do
    return element name attributes (← decorateAll d (name :: above) children)
  | text t => decorateNothing t (text t)
  | special kind t => decorateNothing t (special kind t)
where
  decorateNothing (t : Text) (n : Node) : Walk σ Node :=
    Walk.attempt (if t.isEmpty then pure n
      else throw (.fault (.lacks (codes "str") (codes "tag")))) n

mutual

/-- Decorates the inside of the node at a path of child places, given the names of the elements
around the first node. -/
def decorateAt (d : Decorator σ) (above : List Text) : List Nat → Node → Walk σ Node
  | [], n => decorateInside d above n
  | place :: path, element name attributes children => do
    return element name attributes (← decorateChild d (name :: above) place path children)
  | _ :: _, n => return n

def decorateChild (d : Decorator σ) (above : List Text) :
    Nat → List Nat → List Node → Walk σ (List Node)
  | _, _, [] => return []
  | 0, path, n :: rest => do return (← decorateAt d above path n) :: rest
  | place + 1, path, n :: rest => do return n :: (← decorateChild d above place path rest)

end

def at? : List Nat → Node → Option Node
  | [], n => some n
  | place :: path, element _ _ children => children[place]?.bind (at? path)
  | _ :: _, _ => none

end Node

end Pictograph
