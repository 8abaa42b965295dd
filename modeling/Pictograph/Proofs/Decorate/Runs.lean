import Pictograph.Proofs.Decorate.Rebuilt
import Pictograph.Proofs.Decorate.Spliced

/-!
The texts of a tree that decorating looks at. In the decorated tree they are what was left of those
in the tree before, and there is one more element for every image; so a tree is left as it is exactly
if there is no image in its texts.
-/

namespace Pictograph

def Piece.text? : Piece → Option Text
  | plain t => some t
  | image _ => none

/-- What is left of a text: the text itself without an image, else its plain pieces. -/
def remains (deal : Text → Dealt) (t : Text) : List Text :=
  if (deal t).images = [] then [t] else (deal t).pieces.filterMap Piece.text?

def imageCount (deal : Text → Dealt) (texts : List Text) : Nat :=
  (texts.flatMap fun t => (deal t).images).length

variable {deal : Text → Dealt} {s t : List Text}

theorem imageCount_append : imageCount deal (s ++ t) = imageCount deal s + imageCount deal t := by
  rw [imageCount, List.flatMap_append, List.length_append]
  rfl

theorem imageCount_eq_zero_iff : imageCount deal t = 0 ↔ ∀ r ∈ t, (deal r).images = [] := by
  rw [imageCount, List.length_eq_zero_iff, List.flatMap_eq_nil_iff]

namespace Element

mutual

def runs : Element → List Text
  | node _ _ text children _ => text.toList ++ runsAll children

def runsAll : List Element → List Text
  | [] => []
  | child :: rest =>
    (if child.label.isEntered then runs child else []) ++ child.tail.toList ++ runsAll rest

end

mutual

def size : Element → Nat
  | node _ _ _ children _ => 1 + sizeAll children

def sizeAll : List Element → Nat
  | [] => 0
  | child :: rest => size child + sizeAll rest

end

theorem runsAll_append (front back : List Element) :
    runsAll (front ++ back) = runsAll front ++ runsAll back := by
  induction front with
  | nil => rfl
  | cons child rest ih => simp only [List.cons_append, runsAll, ih, List.append_assoc]

theorem sizeAll_append (front back : List Element) :
    sizeAll (front ++ back) = sizeAll front + sizeAll back := by
  induction front with
  | nil => simp [sizeAll]
  | cons child rest ih => rw [List.cons_append, sizeAll, sizeAll, ih, Nat.add_assoc]

@[simp] theorem label_withTail (tail : Option Text) (e : Element) :
    (e.withTail tail).label = e.label := by
  cases e
  rfl

@[simp] theorem tail_withTail (tail : Option Text) (e : Element) :
    (e.withTail tail).tail = tail := by
  cases e
  rfl

@[simp] theorem runs_withTail (tail : Option Text) (e : Element) :
    (e.withTail tail).runs = e.runs := by
  cases e
  rw [withTail, runs, runs]

@[simp] theorem size_withTail (tail : Option Text) (e : Element) :
    (e.withTail tail).size = e.size := by
  cases e
  rw [withTail, size, size]

@[simp] theorem label_rebuilt (deal : Text → Dealt) (e : Element) :
    (e.rebuilt deal).label = e.label := by
  cases e
  rw [rebuilt]
  rfl

theorem runsAll_images (tag : Text) (images : List (Markup.Attributes × Text)) :
    runsAll (images.map fun i => image tag i.1 (ofText i.2)) =
      images.flatMap fun i => (ofText i.2).toList := by
  induction images with
  | nil => rfl
  | cons i images ih =>
    have inside : (if (image tag i.1 (ofText i.2)).label.isEntered
        then (image tag i.1 (ofText i.2)).runs else []) = [] := by
      split
      · rfl
      · rfl
    rw [List.map_cons, runsAll, ih, inside]
    rfl

theorem filterMap_plainPieces (t : Text) :
    (Decorator.plainPieces t).filterMap Piece.text? = (ofText t).toList := by
  cases t with
  | nil => rfl
  | cons c t => rfl

theorem runs_kept_inserted (deal : Text → Dealt) (parent : Label) (text : Option Text) :
    (kept deal text).toList ++ runsAll (inserted deal parent text) =
      text.toList.flatMap (remains deal) := by
  cases text with
  | none => rfl
  | some t =>
    have one : (some t).toList.flatMap (remains deal) = remains deal t := List.append_nil _
    have images : ∀ i : Markup.Attributes × Text,
        (Dealt.imagePieces i).filterMap Piece.text? = (ofText i.2).toList := by
      intro i
      rw [Dealt.imagePieces, List.filterMap_cons, ← filterMap_plainPieces]
      rfl
    rw [kept, inserted, runsAll_images, one, remains]
    by_cases none : (deal t).images = []
    · rw [if_pos none, if_pos none, none]
      rfl
    · rw [if_neg none, if_neg none, Dealt.pieces, List.filterMap_append, filterMap_plainPieces,
        List.filterMap_flatMap]
      simp only [images]

theorem sizeAll_inserted (deal : Text → Dealt) (parent : Label) (text : Option Text) :
    sizeAll (inserted deal parent text) = imageCount deal text.toList := by
  have images : ∀ images : List (Markup.Attributes × Text),
      sizeAll (images.map fun i => image parent.imageTag i.1 (ofText i.2)) = images.length := by
    intro images
    induction images with
    | nil => rfl
    | cons i images ih =>
      have one : (image parent.imageTag i.1 (ofText i.2)).size = 1 := rfl
      rw [List.map_cons, sizeAll, ih, one, List.length_cons, Nat.add_comm]
  cases text with
  | none => rfl
  | some t =>
    rw [inserted, images, imageCount]
    simp

mutual

theorem runs_rebuilt (deal : Text → Dealt) :
    ∀ e : Element, (e.rebuilt deal).runs = e.runs.flatMap (remains deal)
  | node label attributes text children tail => by
    rw [rebuilt, runs, runs, runsAll_append, ← List.append_assoc, runs_kept_inserted,
      runsAll_rebuiltAll deal label children, List.flatMap_append]

theorem runsAll_rebuiltAll (deal : Text → Dealt) (parent : Label) :
    ∀ children : List Element,
      runsAll (rebuiltAll deal parent children) = (runsAll children).flatMap (remains deal)
  | [] => by
    rw [rebuiltAll, runsAll]
    rfl
  | child :: rest => by
    have inside := runs_rebuilt deal child
    have behind := runs_kept_inserted deal parent child.tail
    rw [rebuiltAll, runsAll, runsAll_append, runsAll_rebuiltAll deal parent rest, runsAll,
      List.flatMap_append, List.flatMap_append, ← behind, label_withTail, runs_withTail,
      tail_withTail]
    by_cases entered : child.label.isEntered
    · simp [entered, inside]
    · simp [entered]

end

mutual

theorem size_rebuilt (deal : Text → Dealt) :
    ∀ e : Element, (e.rebuilt deal).size = e.size + imageCount deal e.runs
  | node label attributes text children tail => by
    have among := sizeAll_rebuiltAll deal label children
    rw [rebuilt, size, size, runs, sizeAll_append, sizeAll_inserted, imageCount_append, among]
    omega

theorem sizeAll_rebuiltAll (deal : Text → Dealt) (parent : Label) :
    ∀ children : List Element,
      sizeAll (rebuiltAll deal parent children) =
        sizeAll children + imageCount deal (runsAll children)
  | [] => by
    rw [rebuiltAll, sizeAll, runsAll]
    rfl
  | child :: rest => by
    have inside := size_rebuilt deal child
    have after := sizeAll_rebuiltAll deal parent rest
    rw [rebuiltAll, sizeAll, sizeAll_append, sizeAll_inserted, after, sizeAll, runsAll,
      imageCount_append, imageCount_append, size_withTail]
    by_cases entered : child.label.isEntered
    · simp only [entered, ↓reduceIte, inside]
      omega
    · have nothing : imageCount deal [] = 0 := rfl
      simp only [entered, Bool.false_eq_true, ↓reduceIte, nothing]
      omega

end

theorem inserted_eq_nil {parent : Label} {text : Option Text}
    (none : ∀ t ∈ text.toList, (deal t).images = []) : inserted deal parent text = [] := by
  cases text with
  | none => rfl
  | some t => rw [inserted, none t (by simp), List.map_nil]

mutual

theorem rebuilt_eq_self :
    ∀ e : Element, (∀ t ∈ e.runs, (deal t).images = []) → e.rebuilt deal = e
  | node label attributes text children tail => by
    intro none
    rw [runs, List.forall_mem_append] at none
    have front : inserted deal label text = [] := inserted_eq_nil none.1
    rw [rebuilt, front, kept_of_inserted_eq_nil front, List.nil_append,
      rebuiltAll_eq_self label children none.2]

theorem rebuiltAll_eq_self (parent : Label) :
    ∀ children : List Element, (∀ t ∈ runsAll children, (deal t).images = []) →
      rebuiltAll deal parent children = children
  | [] => by
    intro _
    rw [rebuiltAll]
  | child :: rest => by
    intro none
    rw [runsAll, List.forall_mem_append, List.forall_mem_append] at none
    obtain ⟨⟨inside, behind⟩, after⟩ := none
    have images : inserted deal parent child.tail = [] := inserted_eq_nil behind
    have inner : (if child.label.isEntered then child.rebuilt deal else child) = child := by
      split
      · next entered =>
        rw [if_pos entered] at inside
        exact rebuilt_eq_self child inside
      · rfl
    rw [rebuiltAll, images, kept_of_inserted_eq_nil images, inner, withTail_tail, List.nil_append,
      rebuiltAll_eq_self parent rest after]

end

theorem rebuilt_eq_self_iff {e : Element} :
    e.rebuilt deal = e ↔ ∀ t ∈ e.runs, (deal t).images = [] := by
  constructor
  · intro same
    have size := size_rebuilt deal e
    rw [same] at size
    apply imageCount_eq_zero_iff.1
    omega
  · exact rebuilt_eq_self e

theorem mem_askedOf_iff {text : Option Text} {t : Text} :
    t ∈ askedOf text ↔ t ∈ text.toList ∧ t ≠ [] := by
  rw [askedOf, List.mem_filter, Bool.not_eq_true', List.isEmpty_eq_false_iff]

mutual

theorem mem_visited_iff {t : Text} : ∀ e : Element, t ∈ e.visited ↔ t ∈ e.runs ∧ t ≠ []
  | node label attributes text children tail => by
    rw [visited, runs, List.mem_append, List.mem_append, mem_visitedAll_iff children,
      mem_askedOf_iff, ← or_and_right, or_comm]

theorem mem_visitedAll_iff {t : Text} : ∀ children : List Element,
    t ∈ visitedAll children ↔ t ∈ runsAll children ∧ t ≠ []
  | [] => by
    rw [visitedAll, runsAll]
    exact (and_iff_left_of_imp nofun).symm
  | child :: rest => by
    have inside : t ∈ (if child.label.isEntered then child.visited else []) ↔
        t ∈ (if child.label.isEntered then child.runs else []) ∧ t ≠ [] := by
      split
      · exact mem_visited_iff child
      · exact (and_iff_left_of_imp nofun).symm
    rw [visitedAll, runsAll, List.mem_append, List.mem_append, List.mem_append, List.mem_append,
      inside, mem_askedOf_iff, mem_visitedAll_iff rest, ← or_and_right, ← or_and_right, or_assoc]

end

end Element

namespace Node

mutual

def runs (skipped : Bool) : Node → List Text
  | text t => if skipped then [] else [t]
  | special _ _ => []
  | element name _ children => runsAll (skipped || Markup.isSkipped name) children

def runsAll (skipped : Bool) : List Node → List Text
  | [] => []
  | n :: rest => runs skipped n ++ runsAll skipped rest

end

mutual

def size : Node → Nat
  | text _ => 0
  | special _ _ => 0
  | element _ _ children => 1 + sizeAll children

def sizeAll : List Node → Nat
  | [] => 0
  | n :: rest => size n + sizeAll rest

end

theorem runsAll_append (skipped : Bool) (front back : List Node) :
    runsAll skipped (front ++ back) = runsAll skipped front ++ runsAll skipped back := by
  induction front with
  | nil => rfl
  | cons n rest ih => simp only [List.cons_append, runsAll, ih, List.append_assoc]

theorem sizeAll_append (front back : List Node) :
    sizeAll (front ++ back) = sizeAll front + sizeAll back := by
  induction front with
  | nil => simp [sizeAll]
  | cons n rest ih => rw [List.cons_append, sizeAll, sizeAll, ih, Nat.add_assoc]

theorem runsAll_ofPiece (pieces : List Piece) :
    runsAll false (pieces.map ofPiece) = pieces.filterMap Piece.text? := by
  induction pieces with
  | nil => rfl
  | cons piece pieces ih =>
    cases piece with
    | plain t =>
      rw [List.map_cons, runsAll, ih]
      rfl
    | image attributes =>
      rw [List.map_cons, runsAll, ih]
      rfl

theorem runsAll_splicedText (t : Text) :
    runsAll false (splicedText deal t) = remains deal t := by
  unfold splicedText remains
  split
  · rfl
  · exact runsAll_ofPiece _

theorem sizeAll_plainPieces (t : Text) (pieces : List Piece) :
    sizeAll ((Decorator.plainPieces t ++ pieces).map ofPiece) = sizeAll (pieces.map ofPiece) := by
  cases t with
  | nil => rfl
  | cons c t =>
    have one : (Decorator.plainPieces (c :: t) ++ pieces).map ofPiece =
        text (c :: t) :: pieces.map ofPiece := rfl
    rw [one, sizeAll, size, Nat.zero_add]

theorem sizeAll_imagePieces (images : List (Markup.Attributes × Text)) :
    sizeAll ((images.flatMap Dealt.imagePieces).map ofPiece) = images.length := by
  induction images with
  | nil => rfl
  | cons i images ih =>
    have one : ((i :: images).flatMap Dealt.imagePieces).map ofPiece =
        ofPiece (.image i.1) ::
          (Decorator.plainPieces i.2 ++ images.flatMap Dealt.imagePieces).map ofPiece := rfl
    have image : (ofPiece (.image i.1)).size = 1 := rfl
    rw [one, sizeAll, image, sizeAll_plainPieces, ih, List.length_cons, Nat.add_comm]

theorem sizeAll_splicedText (t : Text) : sizeAll (splicedText deal t) = imageCount deal [t] := by
  have count : imageCount deal [t] = (deal t).images.length := by simp [imageCount]
  rw [splicedText, count]
  split
  · next none =>
    rw [none]
    rfl
  · rw [Dealt.pieces, sizeAll_plainPieces, sizeAll_imagePieces]

mutual

theorem runsAll_spliced (skipped : Bool) :
    ∀ n : Node, runsAll skipped (spliced deal skipped n) = (n.runs skipped).flatMap (remains deal)
  | text t => by
    cases skipped with
    | true => rfl
    | false =>
      have only : (runs false (text t)).flatMap (remains deal) = remains deal t :=
        List.append_nil _
      rw [only, ← runsAll_splicedText]
      rfl
  | special kind t => rfl
  | element name attributes children => by
    rw [spliced, runsAll, runs, runs, runsAll_splicedAll (skipped || Markup.isSkipped name) children]
    exact List.append_nil _

theorem runsAll_splicedAll (skipped : Bool) :
    ∀ nodes : List Node, runsAll skipped (splicedAll deal skipped nodes) =
      (runsAll skipped nodes).flatMap (remains deal)
  | [] => rfl
  | n :: rest => by
    rw [splicedAll, runsAll_append, runsAll_spliced skipped n, runsAll_splicedAll skipped rest,
      runsAll, List.flatMap_append]

end

mutual

theorem sizeAll_spliced (skipped : Bool) :
    ∀ n : Node, sizeAll (spliced deal skipped n) = n.size + imageCount deal (n.runs skipped)
  | text t => by
    cases skipped with
    | true => rfl
    | false =>
      have here : sizeAll (splicedText deal t) = imageCount deal [t] := sizeAll_splicedText t
      rw [size, Nat.zero_add]
      exact here
  | special kind t => rfl
  | element name attributes children => by
    have inside := sizeAll_splicedAll (skipped || Markup.isSkipped name) children
    rw [spliced, sizeAll, size, size, runs, inside, sizeAll]
    omega

theorem sizeAll_splicedAll (skipped : Bool) :
    ∀ nodes : List Node, sizeAll (splicedAll deal skipped nodes) =
      sizeAll nodes + imageCount deal (runsAll skipped nodes)
  | [] => rfl
  | n :: rest => by
    have here := sizeAll_spliced skipped n
    have after := sizeAll_splicedAll skipped rest
    rw [splicedAll, sizeAll_append, here, after, sizeAll, runsAll, imageCount_append]
    omega

end

mutual

theorem spliced_eq_self (skipped : Bool) :
    ∀ n : Node, (∀ t ∈ n.runs skipped, (deal t).images = []) → spliced deal skipped n = [n]
  | text t => by
    intro none
    unfold spliced
    split
    · rfl
    · next shown =>
      rw [splicedText, if_pos]
      exact none t (by simp [runs, shown])
  | special kind t => fun _ => rfl
  | element name attributes children => by
    intro none
    rw [spliced, splicedAll_eq_self _ children none]

theorem splicedAll_eq_self (skipped : Bool) :
    ∀ nodes : List Node, (∀ t ∈ runsAll skipped nodes, (deal t).images = []) →
      splicedAll deal skipped nodes = nodes
  | [] => fun _ => rfl
  | n :: rest => by
    intro none
    rw [runsAll, List.forall_mem_append] at none
    rw [splicedAll, spliced_eq_self skipped n none.1, splicedAll_eq_self skipped rest none.2]
    rfl

end

theorem splicedAll_eq_self_iff {skipped : Bool} {nodes : List Node} :
    splicedAll deal skipped nodes = nodes ↔ ∀ t ∈ runsAll skipped nodes, (deal t).images = [] := by
  constructor
  · intro same
    have size : sizeAll (splicedAll deal skipped nodes) = _ := sizeAll_splicedAll skipped nodes
    rw [same] at size
    apply imageCount_eq_zero_iff.1
    omega
  · exact splicedAll_eq_self skipped nodes

mutual

theorem mem_visited_iff {skipped : Bool} {t : Text} :
    ∀ n : Node, t ∈ n.visited skipped ↔ t ∈ n.runs skipped ∧ t ≠ []
  | text t' => by
    cases skipped with
    | true => simp [visited, runs]
    | false =>
      rw [visited, runs, Bool.false_or]
      cases t' with
      | nil => simp
      | cons c t' => exact (and_iff_left_of_imp fun h => by simp [List.mem_singleton.1 h]).symm
  | special _ _ => by simp [visited, runs]
  | element name _ children => by
    rw [visited, runs]
    exact mem_visitedAll_iff children

theorem mem_visitedAll_iff {skipped : Bool} {t : Text} : ∀ nodes : List Node,
    t ∈ visitedAll skipped nodes ↔ t ∈ runsAll skipped nodes ∧ t ≠ []
  | [] => by simp [visitedAll, runsAll]
  | n :: rest => by
    rw [visitedAll, runsAll, List.mem_append, List.mem_append, mem_visited_iff n,
      mem_visitedAll_iff rest, or_and_right]

end

end Node

end Pictograph
