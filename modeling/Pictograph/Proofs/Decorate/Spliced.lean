import Pictograph.Decorate.Document
import Pictograph.Proofs.Decorate.Gives

/-!
Documents with the pieces of their texts in place. Going through a list of all texts, with the
elements around each looked up when it is its turn, comes to a recursion that is told whether an
element around the nodes is skipped: no text is moved out of its elements by what is put in before
it. The recursion is one for all ways of dealing a text out.
-/

namespace Pictograph

namespace Node

def splicedText (deal : Text → Dealt) (t : Text) : List Node :=
  if (deal t).images = [] then [text t] else (deal t).pieces.map ofPiece

theorem splicedText_eq (deal : Text → Dealt) (t : Text) :
    splicedText deal t =
      match (deal t).pieces? with
      | none => [text t]
      | some pieces => pieces.map ofPiece := by
  rw [splicedText, Dealt.pieces?]
  split
  · rfl
  · rfl

mutual

def spliced (deal : Text → Dealt) (skipped : Bool) : Node → List Node
  | text t => if skipped then [text t] else splicedText deal t
  | special kind t => [special kind t]
  | element name attributes children =>
    [element name attributes (splicedAll deal (skipped || Markup.isSkipped name) children)]

def splicedAll (deal : Text → Dealt) (skipped : Bool) : List Node → List Node
  | [] => []
  | n :: rest => spliced deal skipped n ++ splicedAll deal skipped rest

end

mutual

/-- Deals out the texts of a node, given whether an element around it is skipped. -/
def splicing {m : Type → Type} [Monad m] (dealing : Text → m Dealt) (skipped : Bool) :
    Node → m (List Node)
  | text t =>
    if skipped || t.isEmpty then return [text t]
    else do
      let dealt ← dealing t
      return splicedText (fun _ => dealt) t
  | special kind t => return [special kind t]
  | element name attributes children => do
    let children ← splicingAll dealing (skipped || Markup.isSkipped name) children
    return [element name attributes children]

def splicingAll {m : Type → Type} [Monad m] (dealing : Text → m Dealt) (skipped : Bool) :
    List Node → m (List Node)
  | [] => return []
  | n :: rest => do
    let front ← splicing dealing skipped n
    return front ++ (← splicingAll dealing skipped rest)

end

end Node

namespace Strung

theorem toNodes_append (front back : List Strung) :
    toNodes (front ++ back) = toNodes front ++ toNodes back := by
  induction front with
  | nil => rfl
  | cons n rest ih => rw [List.cons_append, toNodes, ih, toNodes, List.cons_append]

mutual

theorem toNode_ofNode : ∀ (first : Nat) (n : Node), toNode (ofNode first n) = n
  | _, .text _ => rfl
  | _, .special _ _ => rfl
  | first, .element _ _ children => by
    rw [ofNode, toNode, toNodes_ofNodes first children]

theorem toNodes_ofNodes : ∀ (first : Nat) (nodes : List Node),
    toNodes (ofNodes first nodes) = nodes
  | _, [] => rfl
  | first, n :: rest => by
    rw [ofNodes, toNodes, toNode_ofNode first n, toNodes_ofNodes _ rest]

end

theorem toNodes_ofPiece (pieces : List Piece) :
    toNodes (pieces.map ofPiece) = pieces.map Node.ofPiece := by
  induction pieces with
  | nil => rfl
  | cons piece pieces ih =>
    rw [List.map_cons, toNodes, ih]
    cases piece with
    | plain t => rfl
    | image attributes => rfl

theorem findAll_ofPiece (number : Nat) (pieces : List Piece) :
    findAll number (pieces.map ofPiece) = none := by
  induction pieces with
  | nil => rfl
  | cons piece pieces ih =>
    have none : find number (ofPiece piece) = none := by
      cases piece with
      | plain t => rfl
      | image attributes => rfl
    rw [List.map_cons, findAll, none, ih]
    rfl

theorem findAll_append_of_some {number : Nat} {front : List Strung} {place : Place}
    (h : findAll number front = some place) (back : List Strung) :
    findAll number (front ++ back) = some ⟨place.around, fun new => place.put new ++ back⟩ := by
  induction front generalizing place with
  | nil => cases h
  | cons n rest ih =>
    rw [List.cons_append, findAll]
    rw [findAll] at h
    cases here : find number n with
    | some place' =>
      rw [here] at h
      obtain rfl := Option.some.inj h
      simp
    | none =>
      rw [here] at h
      obtain ⟨place', found, rfl⟩ := Option.map_eq_some_iff.1 h
      dsimp only
      rw [ih found]
      rfl

theorem findAll_append_of_none {number : Nat} {front : List Strung}
    (h : findAll number front = none) (back : List Strung) :
    findAll number (front ++ back) = (findAll number back).map fun place =>
      ⟨place.around, fun new => front ++ place.put new⟩ := by
  induction front with
  | nil =>
    rw [List.nil_append]
    exact Option.map_id'.symm
  | cons n rest ih =>
    rw [findAll] at h
    cases here : find number n with
    | some place =>
      rw [here] at h
      cases h
    | none =>
      rw [here] at h
      rw [List.cons_append, findAll, here, ih (Option.map_eq_none_iff.1 h)]
      rw [Option.map_map]
      rfl

/-- Nodes put in the place of others, with elements around them: a text that has one of some numbers
is found in the whole where it is found in the nodes. -/
def Around (first last : Nat) (names : List Text) (plug : List Strung → List Strung) : Prop :=
  ∀ number, first ≤ number → number < last → ∀ nodes place, findAll number nodes = some place →
    findAll number (plug nodes) = some ⟨place.around ++ names, fun new => plug (place.put new)⟩

theorem around_id (first last : Nat) : Around first last [] id := by
  intro number _ _ nodes place found
  rw [List.append_nil]
  exact found

theorem Around.inside {first last : Nat} {names : List Text} {plug : List Strung → List Strung}
    (h : Around first last names plug) (name : Text) (attributes : List (Text × Value)) :
    Around first last (name :: names) fun nodes => plug [element name attributes nodes] := by
  intro number from_first to_last nodes place found
  have here : findAll number [element name attributes nodes] =
      some ⟨place.around ++ [name], fun new => [element name attributes (place.put new)]⟩ := by
    rw [findAll, find, found]
    rfl
  have whole := h number from_first to_last _ _ here
  rw [List.append_assoc] at whole
  exact whole

theorem Around.before {first middle last : Nat} {names : List Text}
    {plug : List Strung → List Strung} (h : Around first last names plug) (le : middle ≤ last)
    (rest : List Strung) : Around first middle names fun nodes => plug (nodes ++ rest) := by
  intro number from_first to_middle nodes place found
  exact h number from_first (by omega) _ _ (findAll_append_of_some found rest)

theorem Around.behind {first middle last : Nat} {names : List Text}
    {plug : List Strung → List Strung} (h : Around first last names plug) (le : first ≤ middle)
    {front : List Strung} (free : ∀ number, middle ≤ number → findAll number front = none) :
    Around middle last names fun nodes => plug (front ++ nodes) := by
  intro number from_middle to_last nodes place found
  have whole := findAll_append_of_none (free number from_middle) nodes
  rw [found] at whole
  exact h number (by omega) to_last _ _ whole

variable {σ : Type} (d : Decorator σ) (above : List Text)

/-- Nodes whose texts have been gone through: what they have become, and no text in them has a number
that is still to come. -/
structure Done (last : Nat) (new : List Node) (nodes : List Strung) : Prop where
  same : toNodes nodes = new
  free : ∀ number, last ≤ number → findAll number nodes = none

theorem findAll_text (first : Nat) (kind : Option SpecialText) (t : Text) :
    findAll first [text (some first) kind t] = some ⟨[], fun new => new ++ []⟩ := by
  simp [findAll, find]

theorem done_text (first : Nat) (kind : Option SpecialText) (t : Text) :
    Done (first + 1) [toNode (text (some first) kind t)] [text (some first) kind t] where
  same := rfl
  free := by
    intro number later
    have other : first ≠ number := by omega
    simp [findAll, find, other]

/-- To go through the texts listed of some nodes is to put others in their place, whatever is around
them. -/
def Passes (skipped : Bool) (first last : Nat) (listed : List Entry) (old new : List Strung)
    (c c' : Course σ) : Prop :=
  ∀ names plug later, Around first last names plug →
    (names ++ above).any Markup.isSkipped = skipped →
    (decorateEach d above (listed ++ later) (plug old)).run c =
      (decorateEach d above later (plug new)).run c'

theorem passes_left {skipped : Bool} {first : Nat} {kind : Option SpecialText} {t : Text}
    (left : t = [] ∨ kind.isSome ∨ skipped = true) (c : Course σ) :
    Passes d above skipped first (first + 1) (entries (text (some first) kind t))
      [text (some first) kind t] [text (some first) kind t] c c := by
  intro names plug later around same
  have found := around first (Nat.le_refl _) (Nat.lt_succ_self _) _ _ (findAll_text first kind t)
  rw [entries]
  split
  · rfl
  · next listed =>
    have stays : (kind.isSome || (names ++ above).any Markup.isSkipped) = true := by
      rw [same, Bool.or_eq_true]
      exact left.resolve_left fun empty => listed (List.isEmpty_iff.2 empty)
    rw [List.singleton_append, decorateEach, found]
    dsimp only
    rw [List.nil_append, if_pos stays]

theorem passes_asked (first : Nat) {t : Text} (ne : t ≠ []) (c : Course σ) :
    let dealt := (d.dealing t).run c
    Passes d above false first (first + 1) (entries (text (some first) none t))
      [text (some first) none t]
      (match dealt.1.pieces? with
        | none => [text (some first) none t]
        | some pieces => pieces.map ofPiece) c dealt.2 := by
  intro dealt names plug later around seen
  have found := around first (Nat.le_refl _) (Nat.lt_succ_self _) _ _ (findAll_text first none t)
  have listed : entries (text (some first) none t) = [⟨first, none, t⟩] := by
    rw [entries, if_neg (by simpa using ne)]
  have asked : ¬(Option.isSome (none : Option SpecialText) ||
      (names ++ above).any Markup.isSkipped) = true := by
    rw [seen]
    exact Bool.false_ne_true
  rw [listed, List.singleton_append, decorateEach, found]
  dsimp only
  rw [List.nil_append, if_neg asked, d.attempt_pieces, bind_assoc, StateT.run_bind]
  simp only [List.append_nil]
  dsimp only [bind, pure]
  cases dealt.1.pieces? with
  | none => rfl
  | some pieces => rfl

theorem Passes.element {d : Decorator σ} {above : List Text} {skipped : Bool} {first last : Nat}
    {listed : List Entry} {old new : List Strung} {c c' : Course σ} {name : Text}
    (h : Passes d above (skipped || Markup.isSkipped name) first last listed old new c c')
    (attributes : List (Text × Value)) :
    Passes d above skipped first last listed [element name attributes old]
      [element name attributes new] c c' := by
  intro names plug later around same
  refine h (name :: names) _ later (around.inside name attributes) ?_
  rw [List.cons_append, List.any_cons, same, Bool.or_comm]

/-- First the texts of the nodes in front, with the others behind them; then those, behind what the
first became. -/
theorem Passes.append {d : Decorator σ} {above : List Text} {skipped : Bool}
    {first middle last : Nat} {listed listed' : List Entry} {front back old' new' : List Strung}
    {c c' c'' : Course σ}
    (h : Passes d above skipped first middle listed old' front c c')
    (h' : Passes d above skipped middle last listed' back new' c' c'') (le : first ≤ middle)
    (le' : middle ≤ last) (free : ∀ number, middle ≤ number → findAll number front = none) :
    Passes d above skipped first last (listed ++ listed') (old' ++ back) (front ++ new') c c'' := by
  intro names plug later around same
  rw [List.append_assoc]
  exact (h names _ (listed' ++ later) (around.before le' back) same).trans
    (h' names _ later (around.behind le free) same)

theorem exists_passes_text (skipped : Bool) (first : Nat) (t : Text) (c : Course σ) :
    let spliced := (Node.splicing d.dealing skipped (.text t)).run c
    ∃ nodes, Done (first + 1) spliced.1 nodes ∧
      Passes d above skipped first (first + 1) (entries (text (some first) none t))
        [text (some first) none t] nodes c spliced.2 := by
  intro spliced
  by_cases left : (skipped || t.isEmpty) = true
  · have same : spliced = ([.text t], c) := by
      dsimp only [spliced]
      rw [Node.splicing, if_pos left]
      rfl
    rw [Bool.or_eq_true, List.isEmpty_iff] at left
    rw [same]
    exact ⟨_, done_text first none t, passes_left d above (left.symm.imp_right .inr) c⟩
  · -- What is put in is decided by the text as it is dealt out here.
    have same : spliced =
        (Node.splicedText (fun _ => ((d.dealing t).run c).1) t, ((d.dealing t).run c).2) := by
      dsimp only [spliced]
      rw [Node.splicing, if_neg left]
      rfl
    rw [Bool.not_eq_true, Bool.or_eq_false_iff] at left
    have passes := passes_asked d above first (by simpa using left.2) c
    rw [same, left.1, Node.splicedText_eq]
    refine ⟨_, ?_, passes⟩
    cases ((d.dealing t).run c).1.pieces? with
    | none => exact done_text first none t
    | some pieces => exact ⟨toNodes_ofPiece _, fun number _ => findAll_ofPiece number _⟩

mutual

theorem exists_passes_ofNode (skipped : Bool) (first : Nat) : ∀ (n : Node) (c : Course σ),
    let spliced := (Node.splicing d.dealing skipped n).run c
    ∃ nodes, Done (first + n.countTexts) spliced.1 nodes ∧
      Passes d above skipped first (first + n.countTexts) (entries (ofNode first n))
        [ofNode first n] nodes c spliced.2
  | .text t, c => exists_passes_text d above skipped first t c
  | .special kind t, c => by
    intro spliced
    have same : spliced = ([.special kind t], c) := by
      dsimp only [spliced]
      rw [Node.splicing]
      rfl
    rw [same]
    exact ⟨_, done_text first (some kind) t, passes_left d above (.inr (.inl rfl)) c⟩
  | .element name attributes children, c => by
    intro spliced
    obtain ⟨nodes, done, passes⟩ :=
      exists_passes_ofNodes (skipped || Markup.isSkipped name) first children c
    have same : spliced =
        ([.element name attributes
            ((Node.splicingAll d.dealing (skipped || Markup.isSkipped name) children).run c).1],
          ((Node.splicingAll d.dealing (skipped || Markup.isSkipped name) children).run c).2) := by
      dsimp only [spliced]
      rw [Node.splicing]
      rfl
    rw [same]
    refine ⟨[element name attributes nodes], ⟨?_, ?_⟩, passes.element attributes⟩
    · rw [toNodes, toNode, done.same]
      rfl
    · intro number later
      rw [findAll, find, done.free number later]
      rfl

theorem exists_passes_ofNodes (skipped : Bool) (first : Nat) :
    ∀ (nodes : List Node) (c : Course σ),
      let spliced := (Node.splicingAll d.dealing skipped nodes).run c
      ∃ nodes', Done (first + Node.countTextsAll nodes) spliced.1 nodes' ∧
        Passes d above skipped first (first + Node.countTextsAll nodes)
          (entriesAll (ofNodes first nodes)) (ofNodes first nodes) nodes' c spliced.2
  | [], c => ⟨[], ⟨rfl, fun _ _ => rfl⟩, fun _ _ _ _ _ => rfl⟩
  | n :: rest, c => by
    intro spliced
    obtain ⟨front, done, passes⟩ := exists_passes_ofNode skipped first n c
    obtain ⟨back, done', passes'⟩ := exists_passes_ofNodes skipped (first + n.countTexts) rest
      ((Node.splicing d.dealing skipped n).run c).2
    have same : spliced =
        (((Node.splicing d.dealing skipped n).run c).1 ++
            ((Node.splicingAll d.dealing skipped rest).run
              ((Node.splicing d.dealing skipped n).run c).2).1,
          ((Node.splicingAll d.dealing skipped rest).run
            ((Node.splicing d.dealing skipped n).run c).2).2) := by
      dsimp only [spliced]
      rw [Node.splicingAll]
      rfl
    have last : first + n.countTexts + Node.countTextsAll rest =
        first + Node.countTextsAll (n :: rest) := by
      rw [Node.countTextsAll, Nat.add_assoc]
    rw [last] at done' passes'
    rw [same, ofNodes, entriesAll]
    refine ⟨front ++ back, ⟨?_, ?_⟩, passes.append passes' (by omega) (by omega) done.free⟩
    · rw [toNodes_append, done.same, done'.same]
    · intro number later
      rw [findAll_append_of_none (done.free number (by omega)), done'.free number later]
      rfl

end

end Strung

namespace Node

variable {σ : Type} {d : Decorator σ} {a : Answers}

/-- To go through all texts with the elements around each is to splice the nodes, told whether an
element above them is skipped. -/
theorem decorateAll_eq_splicingAll (d : Decorator σ) (above : List Text) (nodes : List Node) :
    decorateAll d above nodes = splicingAll d.dealing (above.any Markup.isSkipped) nodes := by
  funext c
  obtain ⟨nodes', done, passes⟩ :=
    Strung.exists_passes_ofNodes d above (above.any Markup.isSkipped) 0 nodes c
  have all := passes [] id [] (Strung.around_id _ _) rfl
  rw [List.append_nil] at all
  have out : (decorateAll d above nodes).run c =
      (Strung.toNodes ((Strung.decorateEach d above (Strung.entriesAll (Strung.ofNodes 0 nodes))
          (Strung.ofNodes 0 nodes)).run c).1,
        ((Strung.decorateEach d above (Strung.entriesAll (Strung.ofNodes 0 nodes))
          (Strung.ofNodes 0 nodes)).run c).2) := rfl
  refine out.trans ?_
  rw [id, id] at all
  rw [all, Strung.decorateEach]
  exact Prod.ext done.same rfl

/-! Deals of one text and of nodes -/

section Simulation

variable {m m' : Type → Type} [Monad m] [Monad m'] {R : ∀ {α : Type}, m α → m' α → Prop}
  {dealing : Text → m Dealt} {dealing' : Text → m' Dealt}

mutual

theorem splicing_related (sim : Simulation m m' R) (deals : ∀ t, R (dealing t) (dealing' t))
    (skipped : Bool) : ∀ n : Node, R (splicing dealing skipped n) (splicing dealing' skipped n)
  | text t => by
    rw [splicing, splicing]
    split
    · exact sim.pure _
    · exact sim.bind (deals t) fun _ => sim.pure _
  | special kind t => by
    rw [splicing, splicing]
    exact sim.pure _
  | element name attributes children => by
    rw [splicing, splicing]
    exact sim.bind (splicingAll_related sim deals _ children) fun _ => sim.pure _

theorem splicingAll_related (sim : Simulation m m' R) (deals : ∀ t, R (dealing t) (dealing' t))
    (skipped : Bool) : ∀ nodes : List Node,
      R (splicingAll dealing skipped nodes) (splicingAll dealing' skipped nodes)
  | [] => by
    rw [splicingAll, splicingAll]
    exact sim.pure []
  | n :: rest => by
    rw [splicingAll, splicingAll]
    refine sim.bind (splicing_related sim deals skipped n) fun _ => ?_
    exact sim.bind (splicingAll_related sim deals skipped rest) fun _ => sim.pure _

end

end Simulation

mutual

def visited (skipped : Bool) : Node → List Text
  | text t => if skipped || t.isEmpty then [] else [t]
  | special _ _ => []
  | element name _ children => visitedAll (skipped || Markup.isSkipped name) children

def visitedAll (skipped : Bool) : List Node → List Text
  | [] => []
  | n :: rest => visited skipped n ++ visitedAll skipped rest

end

mutual

theorem deals_splicing (d : Decorator σ) (a : Answers) (skipped : Bool) : ∀ n : Node,
    Walk.Deals (splicing (d.dealingBy a) skipped n)
      ((n.visited skipped).findSome? (d.failure a)) (spliced (d.deal a) skipped n)
  | text t => by
    rw [splicing, visited, spliced]
    by_cases passed : (skipped || t.isEmpty) = true
    · have stays : (if skipped then [text t] else splicedText (d.deal a) t) = [text t] := by
        split
        · rfl
        · next seen =>
          rw [Bool.or_eq_true, or_iff_right seen, List.isEmpty_iff] at passed
          rw [passed, splicedText, if_pos (d.images_deal_nil a)]
      rw [if_pos passed, if_pos passed, stays]
      exact Walk.deals_pure _
    · have seen : skipped = false := by
        rw [Bool.or_eq_true, not_or, Bool.not_eq_true] at passed
        exact passed.1
      rw [if_neg passed, if_neg passed, seen, List.findSome?_singleton,
        ← Option.or_none (o := d.failure a t)]
      exact (d.deals_dealingBy a t).bind (g := fun dealt => splicedText (fun _ => dealt) t)
        fun _ => Walk.deals_pure _
  | special kind t => by
    rw [splicing, visited, spliced]
    exact Walk.deals_pure _
  | element name attributes children => by
    rw [splicing, visited, spliced, ← Option.or_none
      (o := (visitedAll (skipped || Markup.isSkipped name) children).findSome? (d.failure a))]
    exact (deals_splicingAll d a _ children).bind
      (g := fun children => [element name attributes children]) fun _ => Walk.deals_pure _

theorem deals_splicingAll (d : Decorator σ) (a : Answers) (skipped : Bool) :
    ∀ nodes : List Node,
      Walk.Deals (splicingAll (d.dealingBy a) skipped nodes)
        ((visitedAll skipped nodes).findSome? (d.failure a))
        (splicedAll (d.deal a) skipped nodes)
  | [] => by
    rw [splicingAll, visitedAll, splicedAll]
    exact Walk.deals_pure []
  | n :: rest => by
    rw [splicingAll, visitedAll, splicedAll, List.findSome?_append]
    refine (deals_splicing d a skipped n).bind
      (g := fun front => front ++ splicedAll (d.deal a) skipped rest) fun front => ?_
    rw [← Option.or_none (o := (visitedAll skipped rest).findSome? (d.failure a))]
    exact (deals_splicingAll d a skipped rest).bind fun _ => Walk.deals_pure _

end

/-- A pass over the inside of an element ends with the error of the first text that has one, and
without an error it splices the nodes inside. -/
theorem run_decorateInside (h : d.Gives a) (above : List Text) (name : Text)
    (attributes : List (Text × Value)) (children : List Node) (s : Session σ) :
    let skipped := (name :: above).any Markup.isSkipped
    let decorated := (decorateInside d above (element name attributes children)).run ⟨s, none⟩
    decorated.2.error = (visitedAll skipped children).findSome? (d.failure a) ∧
    ((visitedAll skipped children).findSome? (d.failure a) = none →
      decorated.1 = element name attributes (splicedAll (d.deal a) skipped children)) := by
  intro skipped decorated
  obtain ⟨ends, gives⟩ := (splicingAll_related Walk.simulation_tracks h.tracks_dealing skipped
    children).run (deals_splicingAll d a skipped children) s
  rw [← decorateAll_eq_splicingAll] at ends gives
  exact ⟨ends, fun none => congrArg (element name attributes) (gives none)⟩

end Node

end Pictograph
