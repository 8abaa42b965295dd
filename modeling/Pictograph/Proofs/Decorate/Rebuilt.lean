import Pictograph.Decorate.Element
import Pictograph.Proofs.Decorate.Gives

/-!
Element trees rebuilt. What decorating does to the children of an element in place, with a place
looked up for each of them among those already moved, comes to a recursion over the tree: an old
child keeps its place among the old ones, and the images of a text follow where the text was. The
recursion is one for all ways of dealing a text out, be it in a pass that an error may end or at
once.
-/

namespace Pictograph

namespace Element

def ofText (t : Text) : Option Text := if t = [] then none else some t

/-- What is left of a text of a node. Without an image it stays as it is. -/
def kept (deal : Text → Dealt) : Option Text → Option Text
  | none => none
  | some t => if (deal t).images = [] then some t else ofText (deal t).leading

/-- The images of a text, each with the text up to the next one. -/
def inserted (deal : Text → Dealt) (parent : Label) : Option Text → List Element
  | none => []
  | some t => (deal t).images.map fun i => image parent.imageTag i.1 (ofText i.2)

mutual

/-- The tree with the images of all texts: those of the text of a node come before its old children,
and those of the text after an old child come after the child. -/
def rebuilt (deal : Text → Dealt) : Element → Element
  | node label attributes text children tail =>
    node label attributes (kept deal text)
      (inserted deal label text ++ rebuiltAll deal label children) tail

def rebuiltAll (deal : Text → Dealt) (parent : Label) : List Element → List Element
  | [] => []
  | child :: rest =>
    (if child.label.isEntered then rebuilt deal child else child).withTail (kept deal child.tail) ::
      (inserted deal parent child.tail ++ rebuiltAll deal parent rest)

end

mutual

/-- A tree into which images were put, with texts of the old nodes changed inside it. The old nodes
have their labels, attributes and order, and the root has the text after it. -/
inductive Grown : Element → Element → Prop
  | node {label : Label} {attributes : List (Text × Value)} {text text' tail : Option Text}
      {children children' : List Element} (among : GrownAll children children') :
      Grown (node label attributes text children tail) (node label attributes text' children' tail)

inductive GrownAll : List Element → List Element → Prop
  | nil : GrownAll [] []
  | old {child child' : Element} {rest rest' : List Element} (tail : Option Text)
      (inside : Grown child child') (after : GrownAll rest rest') :
      GrownAll (child :: rest) (child'.withTail tail :: rest')
  | image {rest rest' : List Element} (tag : Text) (attributes : Markup.Attributes)
      (tail : Option Text) (after : GrownAll rest rest') :
      GrownAll rest (image tag attributes tail :: rest')

end

mutual

theorem Grown.refl : ∀ e : Element, Grown e e
  | node _ _ _ children _ => .node (GrownAll.refl children)

theorem GrownAll.refl : ∀ children : List Element, GrownAll children children
  | [] => .nil
  | child :: rest => by
    obtain ⟨label, attributes, text, inner, tail⟩ := child
    exact .old tail (Grown.refl (.node label attributes text inner tail)) (GrownAll.refl rest)

end

theorem dealPieces_pieces (tag : Text) (dealt : Dealt) :
    dealPieces tag dealt.pieces =
      (ofText dealt.leading, dealt.images.map fun i => image tag i.1 (ofText i.2)) := by
  have images : ∀ (text : Option Text) (done : List Element),
      (dealt.images.flatMap Dealt.imagePieces).foldl (dealPiece tag) (text, done) =
        (text, (dealt.images.map fun i => image tag i.1 (ofText i.2)).reverse ++ done) := by
    intro text
    induction dealt.images with
    | nil => exact fun _ => rfl
    | cons i rest ih =>
      intro done
      have one : (Dealt.imagePieces i).foldl (dealPiece tag) (text, done) =
          (text, image tag i.1 (ofText i.2) :: done) := by
        obtain ⟨attributes, t⟩ := i
        cases t with
        | nil => rfl
        | cons c t => rfl
      rw [List.flatMap_cons, List.foldl_append, one, ih, List.map_cons, List.reverse_cons,
        List.append_assoc]
      rfl
  have front : (Decorator.plainPieces dealt.leading).foldl (dealPiece tag) (none, []) =
      (ofText dealt.leading, []) := by
    cases dealt.leading with
    | nil => rfl
    | cons c t => rfl
  rw [dealPieces, Dealt.pieces, List.foldl_append, front, images, List.append_nil]
  dsimp only
  rw [List.reverse_reverse]

namespace Slot

def Before (n : Nat) (slots : List Slot) : Prop := ∀ s ∈ slots, ∀ k, s.number = some k → k < n

def ofImages (images : List Element) : List Slot := images.map fun image => ⟨none, image⟩

theorem map_ofImages (images : List Element) : (ofImages images).map (·.element) = images := by
  rw [ofImages, List.map_map]
  exact List.map_id images

theorem le_of_mem_numbered {n k : Nat} {children : List Element} {s : Slot}
    (h : s ∈ numbered n children) (number : s.number = some k) : n ≤ k := by
  induction children generalizing n with
  | nil => cases h
  | cons child rest ih =>
    rcases List.mem_cons.1 h with rfl | h
    · cases number
      exact Nat.le_refl _
    · have := ih h
      omega

theorem put_of_absent {n : Nat} {slots : List Slot} (absent : ∀ s ∈ slots, s.number ≠ some n)
    (e : Element) : put n e slots = slots := by
  have same : ∀ s ∈ slots, (if s.number = some n then { s with element := e } else s) = s := by
    intro s hs
    rw [if_neg (absent s hs)]
  exact (List.map_congr_left same).trans (List.map_id slots)

variable {n : Nat} {done : List Slot}

theorem Before.absent (before : Before n done) : ∀ s ∈ done, s.number ≠ some n := by
  intro s hs number
  exact Nat.lt_irrefl n (before s hs n number)

theorem put_append (before : Before n done) (e e' : Element) (rest : List Element) :
    put n e (done ++ ⟨some n, e'⟩ :: numbered (n + 1) rest) =
      done ++ ⟨some n, e⟩ :: numbered (n + 1) rest := by
  have later : ∀ s ∈ numbered (n + 1) rest, s.number ≠ some n := by
    intro s hs number
    have := le_of_mem_numbered hs number
    omega
  have parts : put n e (done ++ ⟨some n, e'⟩ :: numbered (n + 1) rest) =
      put n e done ++ ⟨some n, e⟩ :: put n e (numbered (n + 1) rest) := by
    simp [put]
  rw [parts, put_of_absent before.absent, put_of_absent later]

theorem place_append (before : Before n done) (e : Element) (rest : List Slot) :
    place n (done ++ ⟨some n, e⟩ :: rest) = done.length := by
  have none : done.findIdx (·.number == some n) = done.length := by
    rw [List.findIdx_eq_length]
    intro s hs
    simpa using before.absent s hs
  rw [place, List.findIdx_append, none, if_neg (Nat.lt_irrefl _)]
  simp [List.findIdx_cons]

theorem insertAll_append (images : List Element) (front back : List Slot) :
    insertAll images front.length (front ++ back) = front ++ ofImages images ++ back := by
  induction images generalizing front with
  | nil => simp [insertAll, ofImages]
  | cons image images ih =>
    have one : insertAt front.length image (front ++ back) =
        (front ++ [⟨none, image⟩]) ++ back := by
      simp [insertAt]
    have next := ih (front ++ [⟨none, image⟩])
    rw [List.length_append, List.length_singleton] at next
    rw [insertAll, one, next]
    simp [ofImages]

theorem insertAll_after (before : Before n done) (e e' : Element) (images rest : List Element) :
    let slots := put n e (done ++ ⟨some n, e'⟩ :: numbered (n + 1) rest)
    insertAll images (place n slots + 1) slots =
      (done ++ ⟨some n, e⟩ :: ofImages images) ++ numbered (n + 1) rest := by
  have behind := insertAll_append images (done ++ [⟨some n, e⟩]) (numbered (n + 1) rest)
  rw [List.length_append, List.length_singleton, List.append_assoc, List.singleton_append]
    at behind
  dsimp only
  rw [put_append before, place_append before, behind, List.append_assoc done, List.singleton_append]

theorem Before.next (before : Before n done) (e : Element) (images : List Element) :
    Before (n + 1) (done ++ ⟨some n, e⟩ :: ofImages images) := by
  intro s hs k number
  rcases List.mem_append.1 hs with hs | hs
  · have := before s hs k number
    omega
  · rcases List.mem_cons.1 hs with rfl | hs
    · cases number
      exact Nat.lt_succ_self n
    · obtain ⟨image, -, rfl⟩ := List.mem_map.1 hs
      cases number

end Slot

def placing {m : Type → Type} [Monad m] (dealing : Text → m Dealt) (parent : Label) :
    Option Text → m (Option Text × List Element)
  | none => pure (none, [])
  | some [] => pure (some [], [])
  | some (c :: t) => do
    let dealt ← dealing (c :: t)
    return (kept (fun _ => dealt) (some (c :: t)), inserted (fun _ => dealt) parent (some (c :: t)))

mutual

/-- Deals out the texts inside a node, with the images of each text put where the text was. The text
in front of the children comes last. -/
def rebuilding {m : Type → Type} [Monad m] (dealing : Text → m Dealt) : Element → m Element
  | node label attributes text children tail => do
    let children ← rebuildingAll dealing label children
    let (text, images) ← placing dealing label text
    return node label attributes text (images ++ children) tail

def rebuildingAll {m : Type → Type} [Monad m] (dealing : Text → m Dealt) (parent : Label) :
    List Element → m (List Element)
  | [] => return []
  | child :: rest => do
    let inner ← (if child.label.isEntered then rebuilding dealing child else pure child)
    let (tail, images) ← placing dealing parent child.tail
    return inner.withTail tail :: (images ++ (← rebuildingAll dealing parent rest))

end

variable {σ : Type} {d : Decorator σ} {a : Answers}

theorem withTail_tail (e : Element) : e.withTail e.tail = e := by
  cases e
  rfl

theorem map_insertAll_zero (images : List Element) (slots : List Slot) :
    (Slot.insertAll images 0 slots).map (·.element) = images ++ slots.map (·.element) := by
  have front := Slot.insertAll_append images [] slots
  rw [List.length_nil, List.nil_append, List.nil_append] at front
  rw [front, List.map_append, Slot.map_ofImages]

theorem rebuilding_bind_congr {m : Type → Type} [Monad m] [LawfulMonad m] {β : Type}
    {dealing : Text → m Dealt} {e : Element} {k k' : Element → m β}
    (same : ∀ e', e'.tail = e.tail → k e' = k' e') :
    rebuilding dealing e >>= k = rebuilding dealing e >>= k' := by
  cases e
  simp only [rebuilding, bind_assoc, pure_bind]
  congr 1
  funext children
  congr 1
  funext out
  exact same _ rfl

theorem rebuildingAll_cons {m : Type → Type} [Monad m] [LawfulMonad m] (dealing : Text → m Dealt)
    (parent : Label) (child : Element) (rest : List Element) :
    rebuildingAll dealing parent (child :: rest) = do
      let inner ← (if child.label.isEntered then rebuilding dealing child else pure child)
      let (tail, images) ← placing dealing parent inner.tail
      return inner.withTail tail :: (images ++ (← rebuildingAll dealing parent rest)) := by
  rw [rebuildingAll]
  split
  · exact rebuilding_bind_congr fun inner same => by rw [same]
  · simp only [pure_bind]

theorem splitText_eq (d : Decorator σ) (parent : Label) (text : Option Text) :
    (do return (← splitText d parent text).getD (text, [])) = placing d.dealing parent text := by
  match text with
  | none => rfl
  | some [] => rfl
  | some (c :: t) =>
    simp only [splitText, placing, d.attempt_pieces, bind_assoc, pure_bind]
    congr 1
    funext dealt
    rw [Dealt.pieces?, kept, inserted]
    by_cases none : dealt.images = []
    · simp [none]
    · simp [none, dealPieces_pieces]

mutual

/-- The places that are looked up are those behind all that is done. -/
theorem decorate_eq_rebuilding (d : Decorator σ) :
    ∀ e : Element, decorate d e = rebuilding d.dealing e
  | node label attributes text children tail => by
    have each := decorateEach_eq_rebuildingAll d label 0 children [] (by simp [Slot.Before])
    simp only [List.nil_append, List.map_nil, id_map'] at each
    rw [rebuilding, ← each, decorate, ← splitText_eq]
    simp only [bind_assoc, pure_bind, bind_map_left]
    congr 1
    funext slots
    congr 1
    funext out
    cases out with
    | none => rfl
    | some out => simp [map_insertAll_zero]

theorem decorateEach_eq_rebuildingAll (d : Decorator σ) (parent : Label) :
    ∀ (n : Nat) (children : List Element) (done : List Slot), Slot.Before n done →
      (fun slots : List Slot => slots.map (·.element)) <$>
          decorateEach d parent n children (done ++ Slot.numbered n children) =
        (done.map (·.element) ++ ·) <$> rebuildingAll d.dealing parent children
  | n, [], done, before => by simp [decorateEach, rebuildingAll, Slot.numbered]
  | n, child :: rest, done, before => by
    have inside : (if child.label.isEntered then decorate d child else pure child) =
        (if child.label.isEntered then rebuilding d.dealing child else pure child) := by
      split
      · exact decorate_eq_rebuilding d child
      · rfl
    -- With the images of its text behind it, the child is one of those that are done.
    have next : ∀ (slots : List Slot) (inner : Element) (images : List Element),
        slots = (done ++ ⟨some n, inner⟩ :: Slot.ofImages images) ++ Slot.numbered (n + 1) rest →
        (fun slots : List Slot => slots.map (·.element)) <$>
            decorateEach d parent (n + 1) rest slots =
          (fun rest => done.map (·.element) ++ inner :: (images ++ rest)) <$>
            rebuildingAll d.dealing parent rest := by
      rintro _ inner images rfl
      rw [decorateEach_eq_rebuildingAll d parent (n + 1) rest _ (before.next _ _)]
      simp [Slot.map_ofImages]
    have numbered : Slot.numbered n (child :: rest) =
      ⟨some n, child⟩ :: Slot.numbered (n + 1) rest := rfl
    rw [decorateEach, rebuildingAll_cons, numbered, inside]
    simp only [← splitText_eq, bind_assoc, pure_bind, map_bind, map_pure]
    congr 1
    funext inner
    rw [Slot.put_append before]
    congr 1
    funext out
    cases out with
    | none =>
      rw [Option.getD_none, withTail_tail]
      apply next
      simp [Slot.ofImages]
    | some out => exact next _ _ _ (Slot.insertAll_after before _ _ _ _)

end

/-! Deals of one text and of a tree -/

section Simulation

variable {m m' : Type → Type} [Monad m] [Monad m'] {R : ∀ {α : Type}, m α → m' α → Prop}
  {dealing : Text → m Dealt} {dealing' : Text → m' Dealt}

theorem placing_related (sim : Simulation m m' R) (deals : ∀ t, R (dealing t) (dealing' t))
    (parent : Label) (text : Option Text) :
    R (placing dealing parent text) (placing dealing' parent text) := by
  match text with
  | none => exact sim.pure _
  | some [] => exact sim.pure _
  | some (c :: t) => exact sim.bind (deals (c :: t)) fun _ => sim.pure _

mutual

/-- If two programs agree on texts, they agree on trees. -/
theorem rebuilding_related (sim : Simulation m m' R) (deals : ∀ t, R (dealing t) (dealing' t)) :
    ∀ e : Element, R (rebuilding dealing e) (rebuilding dealing' e)
  | node label attributes text children tail => by
    rw [rebuilding, rebuilding]
    refine sim.bind (rebuildingAll_related sim deals label children) fun children' => ?_
    exact sim.bind (placing_related sim deals label text) fun _ => sim.pure _

theorem rebuildingAll_related (sim : Simulation m m' R) (deals : ∀ t, R (dealing t) (dealing' t))
    (parent : Label) : ∀ children : List Element,
      R (rebuildingAll dealing parent children) (rebuildingAll dealing' parent children)
  | [] => by
    rw [rebuildingAll, rebuildingAll]
    exact sim.pure []
  | child :: rest => by
    have inside : R (if child.label.isEntered then rebuilding dealing child else pure child)
        (if child.label.isEntered then rebuilding dealing' child else pure child) := by
      split
      · exact rebuilding_related sim deals child
      · exact sim.pure child
    rw [rebuildingAll, rebuildingAll]
    refine sim.bind inside fun inner => ?_
    refine sim.bind (placing_related sim deals parent child.tail) fun out => ?_
    exact sim.bind (rebuildingAll_related sim deals parent rest) fun _ => sim.pure _

end

end Simulation

def askedOf (text : Option Text) : List Text := text.toList.filter (!·.isEmpty)

mutual

/-- The texts that decorating asks about, in the order in which it does. -/
def visited : Element → List Text
  | node _ _ text children _ => visitedAll children ++ askedOf text

def visitedAll : List Element → List Text
  | [] => []
  | child :: rest =>
    (if child.label.isEntered then visited child else []) ++
      (askedOf child.tail ++ visitedAll rest)

end

theorem deals_placing (d : Decorator σ) (a : Answers) (parent : Label) (text : Option Text) :
    Walk.Deals (placing (d.dealingBy a) parent text) ((askedOf text).findSome? (d.failure a))
      (kept (d.deal a) text, inserted (d.deal a) parent text) := by
  match text with
  | none => exact Walk.deals_pure _
  | some [] =>
    have stays : (kept (d.deal a) (some []), inserted (d.deal a) parent (some [])) =
        (some [], []) := by
      rw [kept, inserted, d.images_deal_nil a]
      rfl
    rw [stays]
    exact Walk.deals_pure _
  | some (c :: t) =>
    have one : (askedOf (some (c :: t))).findSome? (d.failure a) = d.failure a (c :: t) := by
      simp [askedOf]
    rw [one, ← Option.or_none (o := d.failure a (c :: t))]
    exact (d.deals_dealingBy a (c :: t)).bind fun dealt => Walk.deals_pure _

mutual

theorem deals_rebuilding (d : Decorator σ) (a : Answers) : ∀ e : Element,
    Walk.Deals (rebuilding (d.dealingBy a) e) (e.visited.findSome? (d.failure a))
      (e.rebuilt (d.deal a))
  | node label attributes text children tail => by
    rw [rebuilding, visited, rebuilt, List.findSome?_append]
    refine (deals_rebuildingAll d a label children).bind
      (g := fun children' => node label attributes (kept (d.deal a) text)
        (inserted (d.deal a) label text ++ children') tail) fun children' => ?_
    rw [← Option.or_none (o := (askedOf text).findSome? (d.failure a))]
    exact (deals_placing d a label text).bind fun _ => Walk.deals_pure _

theorem deals_rebuildingAll (d : Decorator σ) (a : Answers) (parent : Label) :
    ∀ children : List Element,
      Walk.Deals (rebuildingAll (d.dealingBy a) parent children)
        ((visitedAll children).findSome? (d.failure a)) (rebuiltAll (d.deal a) parent children)
  | [] => by
    rw [rebuildingAll, visitedAll, rebuiltAll]
    exact Walk.deals_pure []
  | child :: rest => by
    have inside : Walk.Deals
        (if child.label.isEntered then rebuilding (d.dealingBy a) child else pure child)
        ((if child.label.isEntered then child.visited else []).findSome? (d.failure a))
        (if child.label.isEntered then child.rebuilt (d.deal a) else child) := by
      split
      · exact deals_rebuilding d a child
      · exact Walk.deals_pure child
    rw [rebuildingAll, visitedAll, rebuiltAll, List.findSome?_append, List.findSome?_append]
    refine inside.bind (g := fun inner => inner.withTail (kept (d.deal a) child.tail) ::
      (inserted (d.deal a) parent child.tail ++ rebuiltAll (d.deal a) parent rest)) fun inner => ?_
    refine (deals_placing d a parent child.tail).bind (g := fun out => inner.withTail out.1 ::
      (out.2 ++ rebuiltAll (d.deal a) parent rest)) fun out => ?_
    rw [← Option.or_none (o := (visitedAll rest).findSome? (d.failure a))]
    exact (deals_rebuildingAll d a parent rest).bind fun _ => Walk.deals_pure _

end

/-! Trees that grow -/

/-- What the program gives has the property, whatever state it starts in. -/
def Always {τ α : Type} (m : StateM τ α) (P : α → Prop) : Prop := ∀ s, P (m.run s).1

section Always

variable {τ α β : Type} {m : StateM τ α} {k : α → StateM τ β} {P : α → Prop} {Q : β → Prop}

theorem always_pure {x : α} (h : P x) : Always (τ := τ) (pure x) P := fun _ => h

theorem Always.bind (h : Always m P) (next : ∀ x, P x → Always (k x) Q) : Always (m >>= k) Q := by
  intro s
  exact next _ (h s) _

end Always

theorem GrownAll.images {tag : Text} {children children' : List Element}
    (among : GrownAll children children') (images : List (Markup.Attributes × Option Text)) :
    GrownAll children ((images.map fun i => Element.image tag i.1 i.2) ++ children') := by
  induction images with
  | nil => exact among
  | cons i images ih => exact .image _ _ _ ih

variable {τ : Type} (dealing : Text → StateM τ Dealt)

theorem always_placing (parent : Label) (text : Option Text) :
    Always (placing dealing parent text) fun out =>
      ∃ images : List (Markup.Attributes × Option Text),
        out.2 = images.map fun i => image parent.imageTag i.1 i.2 := by
  match text with
  | none => exact always_pure ⟨[], rfl⟩
  | some [] => exact always_pure ⟨[], rfl⟩
  | some (c :: t) =>
    intro s
    refine ⟨((dealing (c :: t)).run s).1.images.map fun i => (i.1, ofText i.2), ?_⟩
    rw [List.map_map]
    rfl

mutual

theorem always_grown : ∀ e : Element, Always (rebuilding dealing e) (Grown e)
  | node label attributes text children tail => by
    rw [rebuilding]
    refine (always_grownAll label children).bind fun children' among => ?_
    refine (always_placing dealing label text).bind ?_
    rintro ⟨text', _⟩ ⟨images, rfl⟩
    exact always_pure (.node (among.images images))

theorem always_grownAll (parent : Label) : ∀ children : List Element,
    Always (rebuildingAll dealing parent children) (GrownAll children)
  | [] => by
    rw [rebuildingAll]
    exact always_pure .nil
  | child :: rest => by
    have inside : Always (if child.label.isEntered then rebuilding dealing child else pure child)
        (Grown child) := by
      split
      · exact always_grown child
      · exact always_pure (.refl child)
    rw [rebuildingAll]
    refine inside.bind fun inner grown => ?_
    refine (always_placing dealing parent child.tail).bind ?_
    rintro ⟨tail, _⟩ ⟨images, rfl⟩
    refine (always_grownAll parent rest).bind fun rest' after => ?_
    exact always_pure (.old tail grown (after.images images))

end

theorem kept_of_inserted_eq_nil {deal : Text → Dealt} {parent : Label} {text : Option Text}
    (h : inserted deal parent text = []) : kept deal text = text := by
  cases text with
  | none => rfl
  | some t => exact if_pos (List.map_eq_nil_iff.1 h)

theorem tail_rebuilt (deal : Text → Dealt) (e : Element) : (e.rebuilt deal).tail = e.tail := by
  cases e
  rw [rebuilt]
  rfl

/-- A pass ends with the error of the first text that has one, and without an error it rebuilds the
tree. -/
theorem run_decorate (h : d.Gives a) (e : Element) (s : Session σ) :
    ((decorate d e).run ⟨s, none⟩).2.error = e.visited.findSome? (d.failure a) ∧
    (e.visited.findSome? (d.failure a) = none →
      ((decorate d e).run ⟨s, none⟩).1 = e.rebuilt (d.deal a)) := by
  rw [decorate_eq_rebuilding]
  exact (rebuilding_related Walk.simulation_tracks h.tracks_dealing e).run
    (deals_rebuilding d a e) s

/-- Decorating a tree in place is to rebuild it, whatever the callbacks do to their state. The
images of a text are those of its matches that are resolved, and what is around them are its plain
pieces. The old nodes stay, in their order and with their labels and attributes; and a text without
a resolved match stays as it is. Where the answers to a match are an error that nothing handles, the
pass ends with it: the texts before, in the order in which the pass asks about them, are dealt out,
and all others stay as they are. Orderly callbacks have no such answers. -/
theorem decorate_eq_rebuilt (h : d.Gives a) (e : Element) (s : Session σ) :
    let decorated := (decorate d e).run ⟨s, none⟩
    (decorated.1, decorated.2.error) = (rebuilding (d.dealingBy a) e).run none ∧
    decorated.2.error = e.visited.findSome? (d.failure a) ∧
    (decorated.2.error = none → decorated.1 = e.rebuilt (d.deal a)) ∧
    (d.Orderly → decorated.2.error = none) ∧
    Grown e decorated.1 ∧
    ∀ t,
      ((d.pieces t).run.run s).1 =
        (match d.failure a t with
        | some raised => .error raised
        | none => .ok (if (d.deal a t).images = [] then none else some (d.deal a t).pieces)) ∧
      (d.deal a t).images.map (·.1) =
        (d.matcher.cut t).parts.filterMap (fun part => a.imageOf d.settings part.2) ∧
      ((∀ part ∈ (d.matcher.cut t).parts, a.imageOf d.settings part.2 = none) →
        kept (d.deal a) (some t) = some t ∧ ∀ parent, inserted (d.deal a) parent (some t) = []) := by
  intro decorated
  obtain ⟨ends, gives⟩ := run_decorate h e s
  obtain ⟨same, error⟩ := rebuilding_related Walk.simulation_tracks h.tracks_dealing e ⟨s, none⟩
  rw [← decorate_eq_rebuilding] at same error
  refine ⟨Prod.ext same error, ends, fun none => gives (ends.symm.trans none), fun orderly => ?_, ?_,
    fun t => ?_⟩
  · exact ends.trans
      (List.findSome?_eq_none_iff.2 fun t _ => h.failure_eq_none orderly s.host t)
  · have grown : Grown e ((rebuilding d.dealing e).run ⟨s, none⟩).1 :=
      always_grown d.dealing e ⟨s, none⟩
    rwa [← decorate_eq_rebuilding] at grown
  · refine ⟨h.ensures_pieces t s, d.images_deal a t, fun unresolved => ?_⟩
    have none : (d.deal a t).images = [] := (d.images_deal_eq_nil_iff a).2 unresolved
    simp [kept, inserted, none]

theorem decorate_eq_rebuilt_siblings :
    ∃ attributes : Markup.Attributes, attributes.lookup (codes "alt") = some [0x1F600] ∧
      ((decorate (.byKey (.symbol 0x1F600))
        (.node (.tag [0x70]) [] (some [0x61, 0x1F600])
          [.node (.tag [0x62]) [] (some [0x78]) [] (some [0x1F600, 0x62, 0x1F600]),
            .node .comment [] (some [0x1F600]) [] (some [0x1F600])]
          (some [0x1F600]))).run ⟨⟨0, [], []⟩, none⟩).1 =
        .node (.tag [0x70]) [] (some [0x61])
          [image (codes "img") attributes none,
            .node (.tag [0x62]) [] (some [0x78]) [] none,
            image (codes "img") attributes (some [0x62]),
            image (codes "img") attributes none,
            .node .comment [] (some [0x1F600]) [] none,
            image (codes "img") attributes none]
          (some [0x1F600]) := by
  refine ⟨[(codes "draggable", codes "false"), (codes "class", []), (codes "alt", [0x1F600]),
    (codes "src", codes "1f600")], by decide, ?_⟩
  obtain ⟨-, -, rebuilt, calm, -⟩ := decorate_eq_rebuilt (gives_byKey (.symbol 0x1F600)) _ _
  rw [rebuilt (calm (orderly_byKey _))]
  rfl

end Element

end Pictograph
