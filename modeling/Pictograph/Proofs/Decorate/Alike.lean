import Pictograph.Proofs.Decorate.Runs

/-!
Trees and documents alike. An element tree is a document in which the texts of and after the
elements are nodes between them. If callbacks answer by their arguments alone, decorating the tree
gives the same document as decorating the document, though the one goes down into the elements and
the other looks at what is around a text.
-/

namespace Pictograph

namespace Node

def ofText : Option Text → List Node
  | none => []
  | some t => [text t]

mutual

def ofElement : Element → Node
  | .node (.tag name) attributes leading children _ =>
    element name attributes (ofText leading ++ ofElements children)
  | .node .comment _ inner _ _ => special .comment (inner.getD [])
  | .node .instruction _ inner _ _ => special .instruction (inner.getD [])

def ofElements : List Element → List Node
  | [] => []
  | e :: rest => ofElement e :: (ofText e.tail ++ ofElements rest)

end

mutual

/-- An element or a comment. No element inside has a namespace, and all texts inside are plain ones
that are not empty, with no two of them side by side. -/
inductive Regular : Node → Prop
  | comment (t : Text) : Regular (special .comment t)
  | element {name : Text} {attributes : List (Text × Value)} {children : List Node}
      (bare : Markup.hasNamespace name = false) (among : RegularAll children) :
      Regular (element name attributes children)

inductive RegularAll : List Node → Prop
  | nil : RegularAll []
  | last {t : Text} (some : t ≠ []) : RegularAll [text t]
  | text {t : Text} {n : Node} {rest : List Node} (some : t ≠ []) (inside : Regular n)
      (after : RegularAll rest) : RegularAll (text t :: n :: rest)
  | node {n : Node} {rest : List Node} (inside : Regular n) (after : RegularAll rest) :
      RegularAll (n :: rest)

end

end Node

namespace Element

mutual

/-- A tree of elements without namespaces and of comments, with no text that is empty. -/
inductive Plain : Element → Prop
  | comment {tail : Option Text} (t : Text) (behind : tail ≠ some []) :
      Plain (node .comment [] (some t) [] tail)
  | tag {name : Text} {attributes : List (Text × Value)} {text tail : Option Text}
      {children : List Element} (bare : Markup.hasNamespace name = false) (leading : text ≠ some [])
      (behind : tail ≠ some []) (among : PlainAll children) :
      Plain (node (.tag name) attributes text children tail)

inductive PlainAll : List Element → Prop
  | nil : PlainAll []
  | cons {e : Element} {rest : List Element} (inside : Plain e) (after : PlainAll rest) :
      PlainAll (e :: rest)

end

structure Represents (e : Element) (n : Node) : Prop where
  plain : e.Plain
  alone : e.tail = none
  same : Node.ofElement e = n

theorem ofElement_withTail (e : Element) (tail : Option Text) :
    Node.ofElement (e.withTail tail) = Node.ofElement e := by
  obtain ⟨label, attributes, text, children, tail'⟩ := e
  cases label with
  | tag name => rw [withTail, Node.ofElement, Node.ofElement]
  | comment => rw [withTail, Node.ofElement, Node.ofElement]
  | instruction => rw [withTail, Node.ofElement, Node.ofElement]

theorem Plain.withTail {e : Element} (h : e.Plain) {tail : Option Text} (behind : tail ≠ some []) :
    (e.withTail tail).Plain := by
  cases h with
  | comment t _ => exact .comment t behind
  | tag bare leading _ among => exact .tag bare leading behind among

theorem Plain.behind {e : Element} (h : e.Plain) : e.tail ≠ some [] := by
  cases h with
  | comment t behind => exact behind
  | tag _ _ behind _ => exact behind

mutual

theorem exists_represents {n : Node} : n.Regular → ∃ e : Element, e.Represents n
  | .comment t => by
    refine ⟨node .comment [] (some t) [] none, .comment t nofun, rfl, ?_⟩
    rw [Node.ofElement]
    rfl
  | @Node.Regular.element name attributes _ bare among => by
    obtain ⟨text, children, leading, plain, same⟩ := exists_plainAll among
    refine ⟨node (.tag name) attributes text children none, .tag bare leading nofun plain, rfl, ?_⟩
    rw [Node.ofElement, same]

theorem exists_plainAll {nodes : List Node} : Node.RegularAll nodes →
    ∃ text children, text ≠ some [] ∧ PlainAll children ∧
      Node.ofText text ++ Node.ofElements children = nodes
  | .nil => ⟨none, [], nofun, .nil, by rw [Node.ofElements]; rfl⟩
  | .last ne => ⟨some _, [], by simpa using ne, .nil, by rw [Node.ofElements]; rfl⟩
  | .text ne inside after => by
    obtain ⟨e, plain, -, rfl⟩ := exists_represents inside
    obtain ⟨tail, rest, behind, all, rfl⟩ := exists_plainAll after
    refine ⟨some _, e.withTail tail :: rest, by simpa using ne,
      .cons (plain.withTail behind) all, ?_⟩
    rw [Node.ofElements, ofElement_withTail, tail_withTail]
    rfl
  | .node inside after => by
    obtain ⟨e, plain, -, rfl⟩ := exists_represents inside
    obtain ⟨tail, rest, behind, all, rfl⟩ := exists_plainAll after
    refine ⟨none, e.withTail tail :: rest, nofun, .cons (plain.withTail behind) all, ?_⟩
    rw [Node.ofElements, ofElement_withTail, tail_withTail]
    rfl

end

theorem ofElements_ne_text_cons (children : List Element) (t : Text) (rest : List Node) :
    Node.ofElements children ≠ .text t :: rest := by
  cases children with
  | nil =>
    rw [Node.ofElements]
    exact nofun
  | cons e children =>
    obtain ⟨label, attributes, text, inner, tail⟩ := e
    rw [Node.ofElements]
    cases label with
    | tag name =>
      rw [Node.ofElement]
      exact nofun
    | comment =>
      rw [Node.ofElement]
      exact nofun
    | instruction =>
      rw [Node.ofElement]
      exact nofun

theorem ofText_append_inj {text text' : Option Text} {children children' : List Element}
    (h : Node.ofText text ++ Node.ofElements children =
      Node.ofText text' ++ Node.ofElements children') :
    text = text' ∧ Node.ofElements children = Node.ofElements children' := by
  match text, text' with
  | none, none => exact ⟨rfl, h⟩
  | none, some t => exact (ofElements_ne_text_cons _ _ _ h).elim
  | some t, none => exact (ofElements_ne_text_cons _ _ _ h.symm).elim
  | some t, some t' =>
    obtain ⟨same, rest⟩ := List.cons.inj h
    cases same
    exact ⟨rfl, rest⟩

mutual

theorem Plain.ext {e e' : Element} : e.Plain → e'.Plain →
    Node.ofElement e = Node.ofElement e' → e.tail = e'.tail → e = e'
  | .comment _ _, .comment _ _, same, tail => by
    rw [Node.ofElement, Node.ofElement] at same
    cases same
    cases tail
    rfl
  | .comment _ _, .tag _ _ _ _, same, _ => by
    rw [Node.ofElement, Node.ofElement] at same
    cases same
  | .tag _ _ _ _, .comment _ _, same, _ => by
    rw [Node.ofElement, Node.ofElement] at same
    cases same
  | .tag _ _ _ among, .tag _ _ _ among', same, tail => by
    rw [Node.ofElement, Node.ofElement, Node.element.injEq] at same
    obtain ⟨rfl, rfl, inside⟩ := same
    obtain ⟨rfl, children⟩ := ofText_append_inj inside
    obtain rfl := among.ext among' children
    cases tail
    rfl

theorem PlainAll.ext {children children' : List Element} : PlainAll children → PlainAll children' →
    Node.ofElements children = Node.ofElements children' → children = children'
  | .nil, .nil, _ => rfl
  | .nil, .cons _ _, same => by
    rw [Node.ofElements, Node.ofElements] at same
    cases same
  | .cons _ _, .nil, same => by
    rw [Node.ofElements, Node.ofElements] at same
    cases same
  | .cons inside after, .cons inside' after', same => by
    rw [Node.ofElements, Node.ofElements] at same
    obtain ⟨first, rest⟩ := List.cons.inj same
    obtain ⟨tail, rest⟩ := ofText_append_inj rest
    rw [inside.ext inside' first tail, after.ext after' rest]

end

end Element

namespace Node

variable {deal : Text → Dealt}

theorem ofElements_append (front back : List Element) :
    ofElements (front ++ back) = ofElements front ++ ofElements back := by
  induction front with
  | nil =>
    rw [ofElements]
    rfl
  | cons e rest ih => simp only [List.cons_append, ofElements, ih, List.append_assoc]

theorem splicedAll_append (skipped : Bool) (front back : List Node) :
    splicedAll deal skipped (front ++ back) =
      splicedAll deal skipped front ++ splicedAll deal skipped back := by
  induction front with
  | nil => rfl
  | cons n rest ih => simp only [List.cons_append, splicedAll, ih, List.append_assoc]

mutual

theorem runs_skipped : ∀ n : Node, n.runs true = []
  | text _ => rfl
  | special _ _ => rfl
  | element _ _ children => by
    rw [runs, Bool.true_or]
    exact runsAll_skipped children

theorem runsAll_skipped : ∀ nodes : List Node, runsAll true nodes = []
  | [] => rfl
  | n :: rest => by
    rw [runsAll, runs_skipped n, runsAll_skipped rest]
    rfl

end

theorem splicedAll_skipped (nodes : List Node) : splicedAll deal true nodes = nodes := by
  apply splicedAll_eq_self
  rw [runsAll_skipped]
  exact List.forall_mem_nil _

theorem visitedAll_append (skipped : Bool) (front back : List Node) :
    visitedAll skipped (front ++ back) = visitedAll skipped front ++ visitedAll skipped back := by
  induction front with
  | nil => rfl
  | cons n rest ih => simp only [List.cons_append, visitedAll, ih, List.append_assoc]

theorem visitedAll_skipped (nodes : List Node) : visitedAll true nodes = [] := by
  rw [List.eq_nil_iff_forall_not_mem]
  intro t ht
  rw [mem_visitedAll_iff, runsAll_skipped] at ht
  exact List.not_mem_nil ht.1

theorem visitedAll_ofText (text : Option Text) :
    visitedAll false (ofText text) = Element.askedOf text := by
  match text with
  | none => rfl
  | some [] => rfl
  | some (c :: t) => rfl

theorem ofText_ofText (t : Text) :
    ofText (Element.ofText t) = (Decorator.plainPieces t).map ofPiece := by
  cases t with
  | nil => rfl
  | cons c t => rfl

theorem ofElements_images (images : List (Markup.Attributes × Text)) :
    ofElements (images.map fun i => .image (codes "img") i.1 (Element.ofText i.2)) =
      (images.flatMap Dealt.imagePieces).map ofPiece := by
  induction images with
  | nil =>
    rw [List.map_nil, ofElements]
    rfl
  | cons i images ih =>
    have one : ofElement (.image (codes "img") i.1 (Element.ofText i.2)) =
        ofPiece (.image i.1) := by
      rw [Element.image, ofElement, ofElements]
      rfl
    have behind : Element.tail (.image (codes "img") i.1 (Element.ofText i.2)) =
        Element.ofText i.2 := rfl
    rw [List.map_cons, ofElements, one, behind, ofText_ofText, ih, List.flatMap_cons,
      Dealt.imagePieces, List.map_append, List.map_cons]
    rfl

theorem ofElements_inserted {parent : Label} (bare : parent.imageTag = codes "img")
    (t : Option Text) :
    ofText (Element.kept deal t) ++ ofElements (Element.inserted deal parent t) =
      splicedAll deal false (ofText t) := by
  cases t with
  | none =>
    rw [Element.inserted, ofElements]
    rfl
  | some t =>
    have alone : splicedAll deal false (ofText (some t)) = splicedText deal t :=
      List.append_nil _
    rw [alone, Element.kept, Element.inserted, bare, ofElements_images, splicedText]
    by_cases none : (deal t).images = []
    · rw [if_pos none, if_pos none, none]
      rfl
    · rw [if_neg none, if_neg none, ofText_ofText, Dealt.pieces, List.map_append]

end Node

namespace Element

variable {deal : Text → Dealt}

theorem imageTag_of_bare {name : Text} (bare : Markup.hasNamespace name = false) :
    Label.imageTag (.tag name) = codes "img" := by
  rw [Label.imageTag, Markup.imageTag, bare]
  rfl

theorem passed_of_not_entered (deal : Text → Dealt) {e : Element} (passed : ¬e.label.isEntered) :
    Node.spliced deal false (Node.ofElement e) = [Node.ofElement e] ∧
      Node.visited false (Node.ofElement e) = [] := by
  obtain ⟨label, attributes, text, children, tail⟩ := e
  cases label with
  | tag name =>
    have skipped : Markup.isSkipped name = true := by simpa [label, Label.isEntered] using passed
    rw [Node.ofElement, Node.spliced, Node.visited, skipped, Bool.or_true, Node.splicedAll_skipped,
      Node.visitedAll_skipped]
    exact ⟨rfl, rfl⟩
  | comment =>
    rw [Node.ofElement]
    exact ⟨rfl, rfl⟩
  | instruction =>
    rw [Node.ofElement]
    exact ⟨rfl, rfl⟩

mutual

/-- The same texts are asked about, though in another order. -/
theorem Plain.visited_perm {e : Element} : e.Plain → e.label.isEntered →
    (Node.visited false (Node.ofElement e)).Perm e.visited
  | .comment _ _, entered => absurd entered Bool.false_ne_true
  | @Plain.tag name attributes text tail children bare _ _ among, entered => by
    have seen : Markup.isSkipped name = false := by simpa [label, Label.isEntered] using entered
    rw [Node.ofElement, Node.visited, seen, Bool.or_false, Node.visitedAll_append,
      Node.visitedAll_ofText, visited]
    exact List.perm_append_comm.trans (among.visited_perm.append_right _)

theorem PlainAll.visited_perm {children : List Element} : PlainAll children →
    (Node.visitedAll false (Node.ofElements children)).Perm (visitedAll children)
  | .nil => by
    rw [Node.ofElements, visitedAll]
    exact .nil
  | @PlainAll.cons e rest inside after => by
    have first : (Node.visited false (Node.ofElement e)).Perm
        (if e.label.isEntered then e.visited else []) := by
      split
      · next entered => exact inside.visited_perm entered
      · next passed => rw [(passed_of_not_entered (⟨·, []⟩) passed).2]
    rw [Node.ofElements, Node.visitedAll, Node.visitedAll_append, Node.visitedAll_ofText, visitedAll]
    exact first.append (after.visited_perm.append_left _)

end

mutual

theorem Plain.spliced {e : Element} : e.Plain → e.label.isEntered →
    Node.spliced deal false (Node.ofElement e) = [Node.ofElement (e.rebuilt deal)]
  | .comment _ _, entered => absurd entered Bool.false_ne_true
  | @Plain.tag name attributes text tail children bare _ _ among, entered => by
    have image := imageTag_of_bare bare
    have inside := among.spliced image
    have seen : Markup.isSkipped name = false := by simpa [label, Label.isEntered] using entered
    rw [Node.ofElement, Node.spliced, seen, Bool.or_false, Node.splicedAll_append, inside,
      ← Node.ofElements_inserted image, rebuilt, Node.ofElement, Node.ofElements_append,
      List.append_assoc]

theorem PlainAll.spliced {parent : Label} (image : parent.imageTag = codes "img")
    {children : List Element} : PlainAll children →
    Node.splicedAll deal false (Node.ofElements children) =
      Node.ofElements (rebuiltAll deal parent children)
  | .nil => by
    rw [rebuiltAll, Node.ofElements]
    rfl
  | @PlainAll.cons e rest inside after => by
    have first : Node.spliced deal false (Node.ofElement e) =
        [Node.ofElement (if e.label.isEntered then e.rebuilt deal else e)] := by
      split
      · next entered => exact inside.spliced entered
      · next passed => exact (passed_of_not_entered deal passed).1
    rw [rebuiltAll, Node.ofElements, Node.ofElements, Node.splicedAll, first,
      Node.splicedAll_append, ← Node.ofElements_inserted image, after.spliced image,
      Node.ofElements_append, ofElement_withTail, tail_withTail, List.append_assoc]
    rfl

end

theorem ofText_ne_some_nil (t : Text) : ofText t ≠ some [] := by
  cases t with
  | nil => nofun
  | cons c t => nofun

theorem kept_ne_some_nil {text : Option Text} (some : text ≠ .some []) :
    kept deal text ≠ .some [] := by
  cases text with
  | none => nofun
  | some t =>
    rw [kept]
    split
    · exact some
    · exact ofText_ne_some_nil _

theorem PlainAll.append {front back : List Element} : PlainAll front → PlainAll back →
    PlainAll (front ++ back)
  | .nil, plain => plain
  | .cons inside after, plain => .cons inside (after.append plain)

theorem plainAll_inserted {parent : Label} (image : parent.imageTag = codes "img")
    (text : Option Text) : PlainAll (inserted deal parent text) := by
  cases text with
  | none => exact .nil
  | some t =>
    rw [inserted, image]
    induction (deal t).images with
    | nil => exact .nil
    | cons i images ih => exact .cons (.tag rfl nofun (ofText_ne_some_nil _) .nil) ih

mutual

theorem Plain.rebuilt {e : Element} : e.Plain → e.label.isEntered → (e.rebuilt deal).Plain
  | .comment _ _, entered => absurd entered Bool.false_ne_true
  | .tag bare leading behind among, _ => by
    have image := imageTag_of_bare bare
    rw [Element.rebuilt]
    exact .tag bare (kept_ne_some_nil leading) behind
      ((plainAll_inserted image _).append (among.rebuilt image))

theorem PlainAll.rebuilt {parent : Label} (image : parent.imageTag = codes "img")
    {children : List Element} : PlainAll children → PlainAll (rebuiltAll deal parent children)
  | .nil => by
    rw [rebuiltAll]
    exact .nil
  | .cons inside after => by
    rw [rebuiltAll]
    refine .cons ?_ ((plainAll_inserted image _).append (after.rebuilt image))
    apply Plain.withTail _ (kept_ne_some_nil inside.behind)
    split
    · next entered => exact inside.rebuilt entered
    · exact inside

end

/-- If the root is entered, the form of a document is rebuilt to the form of the document with its
texts spliced, and the same texts are asked about in both. -/
theorem Represents.rebuilt (deal : Text → Dealt) {e : Element} {name : Text}
    {attributes : List (Text × Value)} {children : List Node}
    (h : e.Represents (.element name attributes children))
    (seen : Markup.isSkipped name = false) :
    (e.rebuilt deal).Represents
        (.element name attributes (Node.splicedAll deal false children)) ∧
      (Node.visitedAll false children).Perm e.visited := by
  obtain ⟨plain, alone, same⟩ := h
  have entered : e.label.isEntered := by
    cases plain with
    | comment t _ =>
      rw [Node.ofElement] at same
      cases same
    | tag _ _ _ _ =>
      rw [Node.ofElement] at same
      cases same
      rw [label, Label.isEntered, seen]
      rfl
  have spliced : Node.spliced deal false (Node.ofElement e) = _ := plain.spliced entered
  have visited := plain.visited_perm entered
  rw [same, Node.spliced, seen] at spliced
  rw [same, Node.visited, seen] at visited
  exact ⟨⟨plain.rebuilt entered, (tail_rebuilt deal e).trans alone, (List.cons.inj spliced).1.symm⟩,
    visited⟩

end Element

/-- A tree of elements without namespaces, comments, and texts that are not empty and not side by
side has one form as an element tree. If its root is not skipped, and nothing above it is, and the
callbacks answer by their arguments alone, then decorating that form ends in an error exactly if
decorating the document does; and if neither does, as with orderly callbacks, it gives the form of
the decorated document. -/
theorem decorated_alike {σ : Type} {d : Decorator σ} {a : Answers} (h : d.Gives a) {name : Text}
    {attributes : List (Text × Value)} {children : List Node}
    (regular : Node.Regular (.element name attributes children)) (above : List Text)
    (entered : (name :: above).any Markup.isSkipped = false) (s s' : Session σ) :
    let document :=
      (Node.decorateInside d above (.element name attributes children)).run ⟨s, none⟩
    ∃ e : Element, e.Represents (.element name attributes children) ∧
      (∀ e' : Element, e'.Represents (.element name attributes children) → e' = e) ∧
      let tree := (Element.decorate d e).run ⟨s', none⟩
      (document.2.error = none ↔ tree.2.error = none) ∧
      (document.2.error = none → tree.1.Represents document.1) ∧
      (d.Orderly → document.2.error = none) := by
  intro document
  obtain ⟨e, represents⟩ := Element.exists_represents regular
  have seen : Markup.isSkipped name = false := by
    rw [List.any_cons, Bool.or_eq_false_iff] at entered
    exact entered.1
  obtain ⟨rebuilt, perm⟩ := represents.rebuilt (d.deal a) seen
  obtain ⟨ends, gives⟩ := Node.run_decorateInside h above name attributes children s
  obtain ⟨ends', gives'⟩ := Element.run_decorate h e s'
  rw [entered] at ends gives
  have alike : (Node.visitedAll false children).findSome? (d.failure a) = none ↔
      e.visited.findSome? (d.failure a) = none := by
    rw [List.findSome?_eq_none_iff, List.findSome?_eq_none_iff]
    exact ⟨fun none t ht => none t (perm.mem_iff.2 ht), fun none t ht => none t (perm.mem_iff.1 ht)⟩
  refine ⟨e, represents, fun e' other => ?_, ?_, fun none => ?_, fun orderly => ?_⟩
  · exact other.plain.ext represents.plain (other.same.trans represents.same.symm)
      (other.alone.trans represents.alone.symm)
  · rw [ends', ← alike, ← ends]
  · have whole := ends.symm.trans none
    rw [gives' (alike.1 whole), gives whole]
    exact rebuilt
  · exact ends.trans (List.findSome?_eq_none_iff.2 fun t _ => h.failure_eq_none orderly s.host t)

/-- A face in a text, under a skipped element, in a comment, and after each of them. -/
theorem decorated_alike_nested :
    let d := Decorator.byKey (.symbol 0x1F600)
    let n : Node := .element (codes "p") []
      [.text [0x61, 0x1F600], .element (codes "svg") [] [.text [0x1F600]], .text [0x1F600, 0x62],
        .special .comment [0x1F600], .element (codes "b") [] [.text [0x1F600]], .text [0x1F600]]
    let document := (Node.decorateInside d [codes "div"] n).run ⟨⟨0, [], []⟩, none⟩
    document.2.error = none ∧ ∃ e : Element, e.Represents n ∧
      ((Element.decorate d e).run ⟨⟨0, [], []⟩, none⟩).1.Represents document.1 := by
  intro d n document
  have face : Node.RegularAll [.text [0x1F600]] := .last nofun
  have regular : n.Regular := .element (by decide) (.text nofun (.element (by decide) face)
    (.text nofun (.comment _) (.node (.element (by decide) face) face)))
  obtain ⟨e, represents, -, -, same, calm⟩ := decorated_alike (gives_byKey (.symbol 0x1F600))
    regular [codes "div"] (by decide) ⟨0, [], []⟩ ⟨0, [], []⟩
  have none := calm (orderly_byKey _)
  exact ⟨none, e, represents, same none⟩

end Pictograph
