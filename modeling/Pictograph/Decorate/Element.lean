import Pictograph.Decorate.Basic

/-!
Element trees in which every element has the text before its first child and the text that follows
it. Decorating puts images among the children, in place, and deals the text out again; comments and
processing instructions are never entered. An error ends the pass, and the tree stays as it is then.
-/

namespace Pictograph

inductive Label where
  | tag (name : Text)
  | comment
  | instruction
  deriving DecidableEq, Inhabited, Repr

inductive Element where
  | node (label : Label) (attributes : List (Text × Value)) (text : Option Text)
      (children : List Element) (tail : Option Text)
  deriving Inhabited

namespace Label

def isEntered : Label → Bool
  | tag name => !Markup.isSkipped name
  | _ => false

def imageTag : Label → Text
  | tag name => Markup.imageTag name
  | _ => codes "img"

end Label

namespace Element

def label : Element → Label
  | node label _ _ _ _ => label

def tail : Element → Option Text
  | node _ _ _ _ tail => tail

def withTail (tail : Option Text) : Element → Element
  | node label attributes text children _ => node label attributes text children tail

def image (tag : Text) (attributes : Markup.Attributes) (tail : Option Text) : Element :=
  node (.tag tag) attributes.loose none [] tail

/-- One more piece after those that are dealt out already: the text in front of the images, and the
images, the latest first. A text goes to the image before it. -/
def dealPiece (tag : Text) : Option Text × List Element → Piece → Option Text × List Element
  | (leading, images), .image attributes => (leading, image tag attributes none :: images)
  | (_, []), .plain t => (some t, [])
  | (leading, last :: images), .plain t => (leading, last.withTail (some t) :: images)

/-- The text in front of the images of a run of pieces, and the images with the texts after them. -/
def dealPieces (tag : Text) (pieces : List Piece) : Option Text × List Element :=
  let (leading, images) := pieces.foldl (dealPiece tag) (none, [])
  (leading, images.reverse)

/-- A text under a node with a label: what is left of it, and the images that follow. There is no
answer for a text that stays as it is. -/
def splitText (d : Decorator σ) (parent : Label) :
    Option Text → Walk σ (Option (Option Text × List Element))
  | none | some [] => return none
  | some t => return (← Walk.attempt (d.pieces t) none).map (dealPieces parent.imageTag)

/-- A place among the children of a node. An old child keeps its number wherever it is moved to; an
image that was put in has none. -/
structure Slot where
  number : Option Nat
  element : Element

namespace Slot

def numbered : Nat → List Element → List Slot
  | _, [] => []
  | n, child :: rest => ⟨some n, child⟩ :: numbered (n + 1) rest

def place (n : Nat) (slots : List Slot) : Nat := slots.findIdx (·.number == some n)

def put (n : Nat) (e : Element) (slots : List Slot) : List Slot :=
  slots.map fun s => if s.number = some n then { s with element := e } else s

def insertAt (place : Nat) (image : Element) (slots : List Slot) : List Slot :=
  slots.take place ++ ⟨none, image⟩ :: slots.drop place

/-- Puts in images, each at the place after that of the one before. -/
def insertAll : List Element → Nat → List Slot → List Slot
  | [], _, slots => slots
  | image :: images, place, slots => insertAll images (place + 1) (insertAt place image slots)

end Slot

mutual

/-- Decorates the texts inside a node: those of and after its children first, then the one before
them. -/
def decorate (d : Decorator σ) : Element → Walk σ Element
  | node label attributes text children tail => do
    let slots ← decorateEach d label 0 children (Slot.numbered 0 children)
    match ← splitText d label text with
    | none => return node label attributes text (slots.map (·.element)) tail
    | some (text, images) =>
      return node label attributes text ((Slot.insertAll images 0 slots).map (·.element)) tail

/-- Goes through the old children from a number on. What is put in moves the children behind it, so
the place of each is looked up when it is needed. -/
def decorateEach (d : Decorator σ) (parent : Label) :
    Nat → List Element → List Slot → Walk σ (List Slot)
  | _, [], slots => return slots
  | n, child :: rest, slots => do
    let inner ← (if child.label.isEntered then decorate d child else pure child)
    let slots := Slot.put n inner slots
    match ← splitText d parent inner.tail with
    | none => decorateEach d parent (n + 1) rest slots
    | some (tail, images) =>
      let slots := Slot.put n (inner.withTail tail) slots
      decorateEach d parent (n + 1) rest (Slot.insertAll images (Slot.place n slots + 1) slots)

end

mutual

def modifyAt [Monad m] (f : Element → m Element) : List Nat → Element → m Element
  | [], e => f e
  | place :: path, node label attributes text children tail => do
    return node label attributes text (← modifyChild f place path children) tail

def modifyChild [Monad m] (f : Element → m Element) :
    Nat → List Nat → List Element → m (List Element)
  | _, _, [] => pure []
  | 0, path, child :: rest => do return (← modifyAt f path child) :: rest
  | place + 1, path, child :: rest => do return child :: (← modifyChild f place path rest)

end

def decorateAt (d : Decorator σ) (path : List Nat) (e : Element) : Walk σ Element :=
  e.modifyAt (decorate d) path

end Element

end Pictograph
