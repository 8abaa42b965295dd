import Mathlib.Data.List.Chain
import Pictograph.Proofs.Decorate.Read
import Pictograph.Proofs.Decorate.Recorded

/-!
HTML texts and pieces. Both come out of the cut of a text by asking for the image of each match,
from left to right: the HTML text is the cut with the images put in for their matches, and the
pieces are the same text with the stray selectors left out, taken apart at the images. Both end in
the same match, if they do.
-/

namespace Pictograph

def Piece.Apart (p q : Piece) : Prop := p.image?.isSome ∨ q.image?.isSome

namespace Dealt

theorem notMem_pieces (d : Dealt) : .plain [] ∉ d.pieces := by
  have plain : ∀ t, .plain [] ∉ Decorator.plainPieces t := by
    intro t
    cases t with
    | nil => simp [Decorator.plainPieces]
    | cons c t => simp [Decorator.plainPieces]
  simp [pieces, imagePieces, plain]

theorem isChain_plainPieces_append {t : Text} {rest : List Piece}
    (image : ∀ p ∈ rest.head?, p.image?.isSome) (chain : rest.IsChain Piece.Apart) :
    (Decorator.plainPieces t ++ rest).IsChain Piece.Apart := by
  cases t with
  | nil => exact chain
  | cons c t => exact List.isChain_cons.2 ⟨fun p hp => .inr (image p hp), chain⟩

theorem isChain_pieces (d : Dealt) : d.pieces.IsChain Piece.Apart := by
  have images : ∀ images : List (Markup.Attributes × Text),
      (∀ p ∈ (images.flatMap imagePieces).head?, p.image?.isSome) ∧
        (images.flatMap imagePieces).IsChain Piece.Apart := by
    intro images
    induction images with
    | nil => exact ⟨by simp, .nil⟩
    | cons i images ih =>
      rw [List.flatMap_cons]
      refine ⟨?_, ?_⟩
      · intro p hp
        rw [← Option.some.inj hp]
        rfl
      · exact List.isChain_cons.2
          ⟨fun p _ => .inl rfl, isChain_plainPieces_append ih.1 ih.2⟩
  obtain ⟨image, chain⟩ := images d.images
  exact isChain_plainPieces_append image chain

end Dealt

namespace Decorator

variable {σ : Type}

theorem html_eq (d : Decorator σ) (t : Text) :
    d.html t = do
      let matched ← d.ask t
      return Pattern.joined (matched.map fun m => (m.gap, shown Markup.renderImage m.raw m.image))
        (d.matcher.cut t).rest := by
  let read := fun raw => do return shown Markup.renderImage raw (← d.image? raw)
  have callback : d.html t = d.matcher.replaceM read t := by
    rw [html]
    congr 1
    funext raw
    congr 1
    funext image
    cases image with
    | none => rfl
    | some attributes => rfl
  have each : ∀ parts : List (Text × Text),
      (parts.mapM fun part => do return (part.1, ← read part.2)) =
      (do
        let matched ← parts.mapM d.answer
        return matched.map fun m => (m.gap, shown Markup.renderImage m.raw m.image)) := by
    intro parts
    induction parts with
    | nil => rfl
    | cons part parts ih =>
      rw [List.mapM_cons, List.mapM_cons, ih, answer]
      simp [read]
  rw [callback, d.matcher.replaceM_eq, Pattern.Cut.fillM, each, ask]
  simp [Matcher.cut]

theorem run_html (d : Decorator σ) (t : Text) (s : Session σ) :
    (d.html t).run.run s =
      match (d.answers (d.matcher.cut t).parts).run s with
      | ((matched, none), s') => (.ok (Pattern.joined
          (matched.map fun m => (m.gap, shown Markup.renderImage m.raw m.image))
          (d.matcher.cut t).rest), s')
      | ((_, some (_, raised)), s') => (.error raised, s') := by
  rw [html_eq, Decorating.run_bind, ask, run_mapM_answer]
  rcases (d.answers (d.matcher.cut t).parts).run s with ⟨⟨matched, _ | ended⟩, s'⟩
  · rfl
  · rfl

theorem session_of_ask {α : Type} (d : Decorator σ) (t : Text) (f : List Answered → α)
    (s : Session σ) :
    ((do return f (← d.ask t) : Decorating σ α).run.run s).2 =
      ((d.answers (d.matcher.cut t).parts).run s).2 := by
  rw [Decorating.run_bind, ask, run_mapM_answer]
  rcases (d.answers (d.matcher.cut t).parts).run s with ⟨⟨matched, _ | ended⟩, s'⟩
  · rfl
  · rfl

theorem session_html (d : Decorator σ) (t : Text) (s : Session σ) :
    ((d.html t).run.run s).2 = ((d.answers (d.matcher.cut t).parts).run s).2 := by
  rw [html_eq]
  exact d.session_of_ask t _ s

theorem session_pieces (d : Decorator σ) (t : Text) (s : Session σ) :
    ((d.pieces t).run.run s).2 = ((d.answers (d.matcher.cut t).parts).run s).2 := by
  rw [pieces_eq]
  exact d.session_of_ask t _ s

end Decorator

/-- Matches up to the first that ends the call, with that. -/
def Answers.upTo (a : Answers) (settings : DecoratorSettings) : List Text → List Text
  | [] => []
  | raw :: raws => raw :: if (a.failure settings raw).isSome then [] else upTo a settings raws

variable {σ : Type} {d : Decorator σ} {a : Answers}

theorem Answers.upTo_eq {settings : DecoratorSettings} {raws : List Text}
    (none : ∀ raw ∈ raws, a.failure settings raw = .none) : a.upTo settings raws = raws := by
  induction raws with
  | nil => rfl
  | cons raw raws ih =>
    rw [List.forall_mem_cons] at none
    rw [upTo, none.1, ih none.2]
    rfl

namespace Decorator.Gives

theorem recorded (h : d.Gives a) : d.recorded.Gives a :=
  ⟨fun key host => h.resolve key host.1, fun raw key host => h.attributes raw key host.1⟩

theorem raws_answers (h : d.Gives a) (parts : List (Text × Text)) (s : Session σ) :
    ((d.answers parts).run s).1.1.map (·.raw) ++
        ((d.answers parts).run s).1.2.toList.map (·.1) =
      a.upTo d.settings (parts.map (·.2)) := by
  induction parts generalizing s with
  | nil => rfl
  | cons part parts ih =>
    have image := h.ensures_image? part.2 s
    rw [d.run_answers_cons, List.map_cons, Answers.upTo, Answers.failure]
    rcases ran : (d.image? part.2).run.run s with ⟨raised | image', s'⟩
    · rw [← image, ran]
      rfl
    · rw [← image, ran]
      exact congrArg (part.2 :: ·) (ih s')

theorem calls_answers (h : d.Gives a) (t : Text) (s : Session (σ × List Call)) :
    ((d.recorded.answers (d.matcher.cut t).parts).run s).2.host.2.map (·.key) =
      s.host.2.map (·.key) ++ keysOf (a.upTo d.settings ((d.matcher.find t).map (·.text))) := by
  obtain ⟨s', answering, ending, -⟩ := d.recorded.answering_answers (d.matcher.cut t).parts s
  rw [calls_of_ending ending, answering.calls, List.append_assoc, ← keysOf_append,
    h.recorded.raws_answers, d.matcher.matches_cut]
  rfl

end Decorator.Gives

/-- The HTML text of a text is the text with the images of the matches that are resolved in their
places. There are pieces if a match is resolved, and then they are the same text without the
selectors of the gaps; none of them is empty, and no two plain ones stand side by side. If the
answers to a match are an error that nothing handles, both end with the first of these. Both do the
same to a session and call the resolver with the keys of the matches, from left to right up to that
one. With orderly callbacks there is none. -/
theorem html_and_pieces_agree (h : d.Gives a) (t : Text) (s : Session σ) :
    let cut := d.matcher.cut t
    let found := (d.matcher.find t).map (·.text)
    let imageOf := a.imageOf d.settings
    let inPlace := fun p : Text × Text => shown Markup.renderImage p.2 (imageOf p.2)
    let failure := found.findSome? (a.failure d.settings)
    (Pattern.joined cut.parts cut.rest = t ∧ Pattern.located 0 cut.parts = d.matcher.find t) ∧
    (∀ raised, failure = some raised →
      ((d.html t).run.run s).1 = .error raised ∧ ((d.pieces t).run.run s).1 = .error raised) ∧
    (failure = none →
      ((d.html t).run.run s).1 =
        .ok (Pattern.joined (cut.parts.map fun p => (p.1, inPlace p)) cut.rest) ∧
      ∃ out, ((d.pieces t).run.run s).1 = .ok out ∧
        (out = none ↔ ∀ p ∈ cut.parts, imageOf p.2 = none) ∧
        ∀ pieces, out = some pieces →
          pieces.flatMap (Piece.read Markup.renderImage) =
            Pattern.joined (cut.parts.map fun p => (dropStray p.1, inPlace p))
              (dropStray cut.rest) ∧
          .plain [] ∉ pieces ∧ pieces.IsChain Piece.Apart) ∧
    ((d.html t).run.run s).2 = ((d.pieces t).run.run s).2 ∧
    (failure = none → a.upTo d.settings found = found) ∧
    (d.Orderly → failure = none) ∧
    ∀ s : Session (σ × List Call),
      ((d.recorded.html t).run.run s).2.host.2.map (·.key) =
        s.host.2.map (·.key) ++ keysOf (a.upTo d.settings found) ∧
      ((d.recorded.pieces t).run.run s).2.host.2.map (·.key) =
        s.host.2.map (·.key) ++ keysOf (a.upTo d.settings found) := by
  intro cut found imageOf inPlace failure
  have same : d.failure a t = failure := by
    have raws : found = cut.parts.map (·.2) := (d.matcher.matches_cut t).symm
    rw [Decorator.failure]
    exact (congrArg (·.findSome? (a.failure d.settings)) raws |>.trans
      List.findSome?_map).symm
  have asked := h.ensures_ask t
  have pieces := h.ensures_pieces t s
  rw [same] at asked pieces
  refine ⟨⟨d.matcher.joined_cut t, d.matcher.located_cut t⟩, ?_, ?_, ?_, ?_, fun orderly => ?_, ?_⟩
  · intro raised some
    rw [some] at asked pieces
    rw [Decorator.html_eq]
    exact ⟨asked.bind (f := fun _ => .error raised) (fun _ same => nomatch same) s, pieces⟩
  · intro none
    rw [none] at asked pieces
    refine ⟨?_, _, pieces, ?_, fun pieces same => ?_⟩
    · have html := asked.after (k := fun matched => pure (Pattern.joined
          (matched.map fun m => (m.gap, shown Markup.renderImage m.raw m.image)) cut.rest))
        (Decorating.ensures_pure _) s
      rw [List.map_map] at html
      rw [Decorator.html_eq]
      exact html
    · rw [← d.images_deal_eq_nil_iff, Dealt.pieces?]
      split
      · next none => simp [none]
      · next some => simp [some]
    · obtain ⟨some, whole⟩ := Option.ite_none_left_eq_some.1 same
      obtain rfl := Option.some.inj whole
      have some : (Dealt.ofAnswered cut.rest (cut.parts.map (a.answered d.settings))).images
          ≠ [] := by
        rwa [← d.ofAnswered_answered, Dealt.images_orText] at some
      refine ⟨?_, Dealt.notMem_pieces _, Dealt.isChain_pieces _⟩
      rw [← d.ofAnswered_answered, Dealt.orText_of_ne some, Dealt.flatMap_read_ofAnswered,
        List.map_map]
      rfl
  · rw [d.session_html, d.session_pieces]
  · intro none
    exact Answers.upTo_eq (List.findSome?_eq_none_iff.1 none)
  · exact same.symm.trans (h.failure_eq_none orderly s.host t)
  · intro s
    rw [Decorator.session_html, Decorator.session_pieces]
    exact ⟨h.calls_answers t s, h.calls_answers t s⟩

/-- Two selectors that match have no key; a single one in a gap stays in the HTML text only. -/
theorem html_and_pieces_agree_selectors :
    ∃ attributes : Markup.Attributes, attributes.lookup (codes "alt") = some [0x1F600] ∧
      let d := Decorator.byKey (.alt (.symbol 0x1F600) (.seq (.symbol 0xFE0F) (.symbol 0xFE0F)))
      let t : Text := [0x61, 0xFE0F, 0x1F600, 0xFE0F, 0xFE0F, 0x62]
      ((d.html t).run.run ⟨0, [], []⟩).1 =
        .ok ([0x61, 0xFE0F] ++ Markup.renderImage attributes ++ [0xFE0F, 0xFE0F, 0x62]) ∧
      ∃ pieces, ((d.pieces t).run.run ⟨0, [], []⟩).1 = .ok (some pieces) ∧
        pieces.flatMap (Piece.read Markup.renderImage) =
          [0x61] ++ Markup.renderImage attributes ++ [0xFE0F, 0xFE0F, 0x62] := by
  refine ⟨[(codes "draggable", codes "false"), (codes "class", []), (codes "alt", [0x1F600]),
    (codes "src", codes "1f600")], by decide, ?_⟩
  intro d t
  have agree : d.Gives .keys := gives_byKey _
  obtain ⟨-, -, whole, -, -, calm, -⟩ := html_and_pieces_agree agree t ⟨0, [], []⟩
  obtain ⟨html, out, made, none, pieces⟩ := whole (calm (orderly_byKey _))
  refine ⟨html.trans (congrArg Except.ok (by decide +kernel)), ?_⟩
  cases out with
  | none =>
    have unresolved := none.1 rfl ([0x61, 0xFE0F], [0x1F600]) (by decide)
    cases unresolved
  | some out => exact ⟨out, made, (pieces out rfl).1.trans (by decide +kernel)⟩

end Pictograph
