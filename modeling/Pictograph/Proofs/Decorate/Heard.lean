import Pictograph.Proofs.Decorate.Asked
import Pictograph.Proofs.Decorate.Rebuilt
import Pictograph.Proofs.Decorate.Spliced

/-!
Trees read as text. With every image read as its alternative text, a decorated tree is read as the
tree before, whatever the callbacks do: only a text in which an image was put is without the
selectors outside its matches, and what decorating does not look at is as it was.
-/

namespace Pictograph

/-- A text of a tree, and whether decorating looks at it. -/
structure Passage where
  text : Text
  seen : Bool

/-- What is read in the place of a text of a tree, and the images in it. -/
structure Heard where
  text : Text
  images : List Markup.Attributes

def Markup.Attributes.alt (attributes : Attributes) : Text :=
  (attributes.lookup (codes "alt")).getD []

def Heard.ofPieces (pieces : List Piece) : Heard where
  text := pieces.flatMap (Piece.read Markup.Attributes.alt)
  images := pieces.filterMap Piece.image?

def Matcher.withoutStray (p : Matcher) (t : Text) : Text :=
  Pattern.joined ((p.cut t).parts.map fun part => (dropStray part.1, part.2))
    (dropStray (p.cut t).rest)

/-- What is read in the place of a text that was asked about: the text itself, but if there are
images for it, the text without the selectors outside its matches. -/
def Asked.heard (p : Matcher) (x : Asked) : Heard :=
  if x.images = [] then ⟨x.text, []⟩ else ⟨p.withoutStray x.text, x.images⟩

/-- What is read in the places of some texts: those that decorating looks at are told by their
answers, and the others are read as they are. -/
inductive Tells (p : Matcher) : List Asked → List Passage → List Heard → Prop
  | nil : Tells p [] [] []
  | hidden {t : Text} {asked : List Asked} {passages : List Passage} {heard : List Heard}
      (after : Tells p asked passages heard) :
      Tells p asked (⟨t, false⟩ :: passages) (⟨t, []⟩ :: heard)
  | seen {x : Asked} {asked : List Asked} {passages : List Passage} {heard : List Heard}
      (after : Tells p asked passages heard) :
      Tells p (x :: asked) (⟨x.text, true⟩ :: passages) (x.heard p :: heard)

variable {p : Matcher} {asked asked' : List Asked} {passages passages' : List Passage}
  {heard heard' : List Heard}

theorem Tells.append (front : Tells p asked passages heard)
    (back : Tells p asked' passages' heard') :
    Tells p (asked ++ asked') (passages ++ passages') (heard ++ heard') := by
  induction front with
  | nil => exact back
  | hidden _ ih => exact .hidden ih
  | seen _ ih => exact .seen ih

theorem Asked.images_heard (p : Matcher) (x : Asked) : (x.heard p).images = x.images := by
  rw [heard]
  split
  case isTrue none => exact none.symm
  case isFalse => rfl

theorem Tells.images (h : Tells p asked passages heard) :
    heard.flatMap (·.images) = asked.flatMap (·.images) := by
  induction h with
  | nil => rfl
  | hidden _ ih => exact ih
  | @seen x _ _ _ _ ih => rw [List.flatMap_cons, ih, x.images_heard, List.flatMap_cons]

theorem tells_hidden (p : Matcher) (t : Text) : Tells p [] [⟨t, false⟩] [⟨t, []⟩] := .hidden .nil

theorem Heard.ofPieces_plain (t : Text) : ofPieces [.plain t] = ⟨t, []⟩ := by
  simp [ofPieces, Piece.read, Piece.image?]

theorem Asked.Sound.ofPieces_pieces {x : Asked} (sound : x.Sound p) (some : x.images ≠ []) :
    Heard.ofPieces (x.dealt p).pieces = ⟨p.withoutStray x.text, x.images⟩ := by
  obtain ⟨parts, whole⟩ := sound.whole some
  obtain ⟨t, matched, ended⟩ := x
  obtain rfl : ended = none := whole
  have each : ∀ m ∈ matched,
      (dropStray m.gap, shown Markup.Attributes.alt m.raw m.image) =
        (dropStray m.part.1, m.part.2) := by
    intro m hm
    cases image : m.image with
    | none => rfl
    | some attributes => simp [shown, Markup.Attributes.alt, sound.alt m hm attributes image,
        Answered.part]
  have ne : (Dealt.ofAnswered (p.cut t).rest matched).images ≠ [] := by
    intro none
    apply some
    rw [images, ← Dealt.images_ofAnswered (p.cut t).rest, none]
    rfl
  rw [Heard.ofPieces, dealt, Dealt.orText_of_ne ne, Dealt.flatMap_read_ofAnswered,
    Dealt.filterMap_image?_pieces, Dealt.images_ofAnswered, List.map_congr_left each,
    Matcher.withoutStray, ← parts, List.map_map]
  rfl

theorem Asked.Sound.tells {x : Asked} (sound : x.Sound p) :
    Tells p [x] [⟨x.text, true⟩]
      [.ofPieces (if (x.dealt p).images = [] then [.plain x.text] else (x.dealt p).pieces)] := by
  have none_iff : (x.dealt p).images = [] ↔ x.images = [] := by
    rw [← x.images_dealt p, List.map_eq_nil_iff]
  have told : x.heard p =
      .ofPieces (if (x.dealt p).images = [] then [.plain x.text] else (x.dealt p).pieces) := by
    rw [heard]
    by_cases none : (x.dealt p).images = []
    · rw [if_pos none, if_pos (none_iff.1 none), Heard.ofPieces_plain]
    · rw [if_neg none, if_neg (mt none_iff.2 none), sound.ofPieces_pieces (mt none_iff.2 none)]
  rw [← told]
  exact .seen .nil

/-- The passage of a text. Decorating does not look at an empty one. -/
def Passage.of (seen : Bool) (t : Text) : Passage := ⟨t, seen && !t.isEmpty⟩

variable {σ : Type} (d : Decorator σ)

namespace Element

/-- The pieces a text of a node was split into: what is left of it, and images with the texts after
them. -/
def piecesOf (text : Option Text) (images : List (Markup.Attributes × Option Text)) : List Piece :=
  text.toList.map .plain ++ images.flatMap fun i => .image i.1 :: i.2.toList.map .plain

/-- A text of a node, what is left of it, the images that were put in behind that, and what is read
in the place of the text. -/
inductive Put (tag : Text) : Option Text → Option Text → List Element → List Heard → Prop
  | none : Put tag none none [] []
  | some (t : Text) (text : Option Text) (images : List (Markup.Attributes × Option Text)) :
      Put tag (some t) text (images.map fun i => image tag i.1 i.2)
        [.ofPieces (piecesOf text images)]

mutual

/-- A tree, the tree with images put in, and what is read in the place of each of its texts, in the
order of the document. Labels, attributes and old nodes stay as they were. -/
inductive Reads : Element → Element → List Heard → Prop
  | node {label : Label} {attributes : List (Text × Value)} {text text' tail : Option Text}
      {children children' images : List Element} {own heard : List Heard}
      (leading : Put label.imageTag text text' images own)
      (among : ReadsAll label children children' heard) :
      Reads (node label attributes text children tail)
        (node label attributes text' (images ++ children') tail) (own ++ heard)

inductive ReadsAll : Label → List Element → List Element → List Heard → Prop
  | nil {parent : Label} : ReadsAll parent [] [] []
  | cons {parent : Label} {child child' : Element} {tail : Option Text}
      {rest rest' images : List Element} {inner own heard : List Heard}
      (inside : Reads child child' inner) (behind : Put parent.imageTag child.tail tail images own)
      (after : ReadsAll parent rest rest' heard) :
      ReadsAll parent (child :: rest) (child'.withTail tail :: (images ++ rest'))
        (inner ++ own ++ heard)

end

def passage (seen : Bool) (text : Option Text) : List Passage := text.toList.map (.of seen)

mutual

/-- The texts inside a node in the order of the document, given whether decorating looks at them. -/
def texts (seen : Bool) : Element → List Passage
  | node _ _ text children _ => passage seen text ++ textsAll seen children

def textsAll (seen : Bool) : List Element → List Passage
  | [] => []
  | child :: rest =>
    texts (seen && child.label.isEntered) child ++ passage seen child.tail ++ textsAll seen rest

end

theorem piecesOf_dealt (dealt : Dealt) :
    piecesOf (ofText dealt.leading) (dealt.images.map fun i => (i.1, ofText i.2)) =
      dealt.pieces := by
  have plain : ∀ t, (ofText t).toList.map Piece.plain = Decorator.plainPieces t := by
    intro t
    cases t with
    | nil => rfl
    | cons c t => rfl
  rw [piecesOf, plain, List.flatMap_map]
  simp only [plain]
  rfl

theorem put_dealt (tag : Text) (dealt : Dealt) (t : Text) :
    Put tag (some t) (ofText dealt.leading)
      (dealt.images.map fun i => image tag i.1 (ofText i.2)) [.ofPieces dealt.pieces] := by
  have put : Put tag _ _ _ _ :=
    .some t (ofText dealt.leading) (dealt.images.map fun i => (i.1, ofText i.2))
  rw [piecesOf_dealt, List.map_map] at put
  exact put

theorem asks_placing (parent : Label) (text : Option Text) :
    Asks d (askedOf text) (placing d.dealing parent text) fun asked out => ∃ heard,
      Put parent.imageTag text out.1 out.2 heard ∧
      Tells d.matcher asked (passage true text) heard := by
  match text with
  | none => exact asks_pure ⟨_, .none, .nil⟩
  | some [] => exact asks_pure ⟨_, .some [] (some []) [], tells_hidden d.matcher []⟩
  | some (c :: t) =>
    refine (asks_dealing d (c :: t)).last ?_
    rintro _ dealt ⟨x, rfl, text, sound, rfl⟩
    have told := sound.tells
    rw [text] at told
    refine asks_pure ⟨_, ?_, told⟩
    rw [kept, inserted]
    by_cases none : (x.dealt d.matcher).images = []
    · rw [if_pos none, if_pos none, none]
      exact .some (c :: t) (some (c :: t)) []
    · rw [if_neg none, if_neg none]
      exact put_dealt ..

theorem exists_put_self (p : Matcher) (tag : Text) (text : Option Text) :
    ∃ heard, Put tag text text [] heard ∧ Tells p [] (passage false text) heard := by
  match text with
  | none => exact ⟨_, .none, .nil⟩
  | some t =>
    refine ⟨_, .some t (some t) [], ?_⟩
    rw [piecesOf, List.flatMap_nil, List.append_nil]
    exact Heard.ofPieces_plain t ▸ tells_hidden _ t

mutual

theorem exists_reads_self (p : Matcher) :
    ∀ e : Element, ∃ heard, Reads e e heard ∧ Tells p [] (e.texts false) heard
  | node label _ text children _ => by
    obtain ⟨own, put, told⟩ := exists_put_self p label.imageTag text
    obtain ⟨heard, among, rest⟩ := exists_readsAll_self p label children
    rw [texts]
    exact ⟨_, .node put among, told.append rest⟩

theorem exists_readsAll_self (p : Matcher) (parent : Label) :
    ∀ children : List Element, ∃ heard, ReadsAll parent children children heard ∧
      Tells p [] (textsAll false children) heard
  | [] => by
    rw [textsAll]
    exact ⟨_, .nil, .nil⟩
  | child :: rest => by
    obtain ⟨inner, inside, first⟩ := exists_reads_self p child
    obtain ⟨own, put, told⟩ := exists_put_self p parent.imageTag child.tail
    obtain ⟨heard, after, later⟩ := exists_readsAll_self p parent rest
    have reads := ReadsAll.cons inside put after
    rw [withTail_tail, List.nil_append] at reads
    rw [textsAll]
    exact ⟨_, reads, (first.append told).append later⟩

end

mutual

theorem asks_rebuilding : ∀ e : Element,
    Asks d e.visited (rebuilding d.dealing e) fun asked e' => ∃ order heard, order.Perm asked ∧
      Reads e e' heard ∧ Tells d.matcher order (e.texts true) heard
  | node label attributes text children tail => by
    rw [visited, rebuilding]
    refine (asks_rebuildingAll label children).bind ?_
    rintro asked children' ⟨order, heard, perm, among, rest⟩
    refine (asks_placing d label text).last ?_
    rintro asked' ⟨text', images⟩ ⟨own, put, told⟩
    -- The text in front of the children is read first, but asked about last.
    refine asks_pure ⟨asked' ++ order, _, ?_, .node put among, ?_⟩
    · exact List.perm_append_comm.trans (perm.append_right asked')
    · rw [texts]
      exact told.append rest

theorem asks_rebuildingAll (parent : Label) : ∀ children : List Element,
    Asks d (visitedAll children) (rebuildingAll d.dealing parent children) fun asked children' =>
      ∃ order heard, order.Perm asked ∧ ReadsAll parent children children' heard ∧
        Tells d.matcher order (textsAll true children) heard
  | [] => by
    rw [visitedAll, rebuildingAll]
    refine asks_pure ⟨_, _, .nil, .nil, ?_⟩
    rw [textsAll]
    exact .nil
  | child :: rest => by
    rw [visitedAll, rebuildingAll]
    have inside : Asks d (if child.label.isEntered then child.visited else [])
        (if child.label.isEntered then rebuilding d.dealing child else pure child)
        fun asked child' => ∃ order heard, order.Perm asked ∧ Reads child child' heard ∧
            Tells d.matcher order (child.texts child.label.isEntered) heard := by
      split
      case isTrue entered =>
        rw [entered]
        exact asks_rebuilding child
      case isFalse passed =>
        rw [Bool.not_eq_true] at passed
        rw [passed]
        exact asks_pure ⟨[], (exists_reads_self d.matcher child).imp fun _ => .intro .nil⟩
    refine inside.bind ?_
    rintro asked inner ⟨order, heard, perm, reads, first⟩
    refine (asks_placing d parent child.tail).bind ?_
    rintro asked' ⟨tail, images⟩ ⟨own, put, told⟩
    refine (asks_rebuildingAll parent rest).last ?_
    rintro asked'' rest' ⟨order', heard', perm', after, later⟩
    refine asks_pure ⟨order ++ asked' ++ order', _, ?_, .cons reads put after, ?_⟩
    · rw [← List.append_assoc]
      exact (perm.append_right asked').append perm'
    · rw [textsAll]
      exact (first.append told).append later

end

theorem asks_decorate (e : Element) :
    Asks d e.visited (decorate d e) fun asked e' => ∃ order heard, order.Perm asked ∧
      Reads e e' heard ∧ Tells d.matcher order (e.texts true) heard := by
  rw [decorate_eq_rebuilding]
  exact asks_rebuilding d e

end Element

namespace Node

mutual

/-- A node, the nodes in its place with images put in, and what is read in the place of each of its
texts, in the order of the document. Elements and special texts stay as they were. -/
inductive Reads : Node → List Node → List Heard → Prop
  | text (t : Text) (pieces : List Piece) :
      Reads (text t) (pieces.map ofPiece) [.ofPieces pieces]
  | special (kind : SpecialText) (t : Text) : Reads (special kind t) [special kind t] [⟨t, []⟩]
  | element {name : Text} {attributes : List (Text × Value)} {children children' : List Node}
      {heard : List Heard} (among : ReadsAll children children' heard) :
      Reads (element name attributes children) [element name attributes children'] heard

inductive ReadsAll : List Node → List Node → List Heard → Prop
  | nil : ReadsAll [] [] []
  | cons {n : Node} {rest new rest' : List Node} {first heard : List Heard}
      (place : Reads n new first) (after : ReadsAll rest rest' heard) :
      ReadsAll (n :: rest) (new ++ rest') (first ++ heard)

end

mutual

/-- The texts of a node in the order of the document, given whether an element around it is
skipped. Decorating does not look at special texts. -/
def texts (skipped : Bool) : Node → List Passage
  | text t => [.of (!skipped) t]
  | special _ t => [⟨t, false⟩]
  | element name _ children => textsAll (skipped || Markup.isSkipped name) children

def textsAll (skipped : Bool) : List Node → List Passage
  | [] => []
  | n :: rest => texts skipped n ++ textsAll skipped rest

end

mutual

theorem asks_splicing (skipped : Bool) : ∀ n : Node,
    Asks d (n.visited skipped) (splicing d.dealing skipped n) fun asked new => ∃ heard,
      Reads n new heard ∧ Tells d.matcher asked (n.texts skipped) heard
  | text t => by
    rw [splicing, visited, texts]
    by_cases passed : (skipped || t.isEmpty) = true
    · have hidden : Passage.of (!skipped) t = ⟨t, false⟩ := by
        rw [Passage.of, ← Bool.not_or, passed]
        rfl
      rw [if_pos passed, if_pos passed, hidden]
      refine asks_pure ⟨_, .text t [.plain t], ?_⟩
      exact Heard.ofPieces_plain t ▸ tells_hidden _ t
    · have seen : Passage.of (!skipped) t = ⟨t, true⟩ := by
        rw [Bool.not_eq_true] at passed
        rw [Passage.of, ← Bool.not_or, passed]
        rfl
      rw [if_neg passed, if_neg passed, seen]
      refine (asks_dealing d t).last ?_
      rintro _ dealt ⟨x, rfl, text, sound, rfl⟩
      have told := sound.tells
      rw [text] at told
      refine asks_pure ⟨_, ?_, told⟩
      rw [splicedText]
      by_cases none : (x.dealt d.matcher).images = []
      · rw [if_pos none, if_pos none]
        exact .text t [.plain t]
      · rw [if_neg none, if_neg none]
        exact .text t (x.dealt d.matcher).pieces
  | special kind t => by
    rw [splicing, visited, texts]
    exact asks_pure ⟨_, .special kind t, tells_hidden _ t⟩
  | element name attributes children => by
    rw [splicing, visited, texts]
    refine (asks_splicingAll (skipped || Markup.isSkipped name) children).last ?_
    rintro asked children' ⟨heard, among, told⟩
    exact asks_pure ⟨_, .element among, told⟩

theorem asks_splicingAll (skipped : Bool) : ∀ nodes : List Node,
    Asks d (visitedAll skipped nodes) (splicingAll d.dealing skipped nodes) fun asked new =>
      ∃ heard, ReadsAll nodes new heard ∧ Tells d.matcher asked (textsAll skipped nodes) heard
  | [] => by
    rw [splicingAll, visitedAll, textsAll]
    exact asks_pure ⟨_, .nil, .nil⟩
  | n :: rest => by
    rw [splicingAll, visitedAll, textsAll]
    refine (asks_splicing skipped n).bind ?_
    rintro asked new ⟨first, place, told⟩
    refine (asks_splicingAll skipped rest).last ?_
    rintro asked' rest' ⟨heard, after, later⟩
    exact asks_pure ⟨_, .cons place after, told.append later⟩

end

theorem asks_decorateInside (above : List Text) (name : Text) (attributes : List (Text × Value))
    (children : List Node) :
    let skipped := (name :: above).any Markup.isSkipped
    Asks d (visitedAll skipped children) (decorateInside d above (element name attributes children))
      fun asked out => ∃ children' heard, out = element name attributes children' ∧
        ReadsAll children children' heard ∧
        Tells d.matcher asked (textsAll skipped children) heard := by
  intro skipped
  rw [decorateInside, decorateAll_eq_splicingAll]
  refine (asks_splicingAll d skipped children).last ?_
  rintro asked children' ⟨heard, reads, told⟩
  exact asks_pure ⟨children', heard, rfl, reads, told⟩

end Node

/-- Decorating keeps what is read of a tree. A text in which a match was resolved is read without
the selectors outside its matches, with every image in it read as its alternative text, and every
other text is read as it was; so are all texts that decorating does not look at. The images are
those of the matches that were resolved. Where an error ends the pass, the text in which it does and
all texts after it, in the order in which the pass looks at them, are read as they were; and without
one, as with orderly callbacks, all matches of all texts are answered. -/
theorem decorated_reads (d : Decorator σ) (s : Session σ) :
    (∀ e : Element, ∃ order heard,
      let decorated := (Element.decorate d e).run ⟨s, none⟩
      let asked := (d.asks e.visited).run ⟨s, none⟩
      e.Reads decorated.1 heard ∧ Tells d.matcher order (e.texts true) heard ∧
      order.Perm asked.1 ∧ decorated.2 = asked.2 ∧
      d.Asking ⟨s, none⟩ e.visited asked.1 asked.2 ∧
      (d.Orderly → decorated.2.error = none)) ∧
    ∀ (above : List Text) (name : Text) (attributes : List (Text × Value)) (children : List Node),
      ∃ children' heard,
        let skipped := (name :: above).any Markup.isSkipped
        let decorated :=
          (Node.decorateInside d above (.element name attributes children)).run ⟨s, none⟩
        let asked := (d.asks (Node.visitedAll skipped children)).run ⟨s, none⟩
        decorated.1 = .element name attributes children' ∧
        Node.ReadsAll children children' heard ∧
        Tells d.matcher asked.1 (Node.textsAll skipped children) heard ∧
        decorated.2 = asked.2 ∧
        d.Asking ⟨s, none⟩ (Node.visitedAll skipped children) asked.1 asked.2 ∧
        (d.Orderly → decorated.2.error = none) := by
  refine ⟨?_, ?_⟩
  · intro e
    have asks := Element.asks_decorate d e
    obtain ⟨same, order, heard, perm, reads, told⟩ := asks ⟨s, none⟩
    exact ⟨order, heard, reads, told, perm, same, d.asking_asks _ _,
      fun orderly => asks.error_eq_none orderly s⟩
  · intro above name attributes children
    have asks := Node.asks_decorateInside d above name attributes children
    obtain ⟨same, children', heard, decorated, reads, told⟩ := asks ⟨s, none⟩
    exact ⟨children', heard, decorated, reads, told, same, d.asking_asks _ _,
      fun orderly => asks.error_eq_none orderly s⟩

end Pictograph
