import Mathlib.Data.List.Basic
import Pictograph.Decorate.Basic

/-!
Texts dealt out around their images. What is made of a text depends on what its matches get, one
after the other, and on whether the call ends in one of them. The text in front of the first image,
and the images with the text after each, come out of the cut of the text in one pass from its end.
-/

namespace Pictograph

theorem dropStray_append (s t : Text) : dropStray (s ++ t) = dropStray s ++ dropStray t :=
  List.filter_append ..

theorem dropStray_replicate (n : Nat) : dropStray (List.replicate n vs16.toNat) = [] := by
  simp [dropStray]

theorem dropStray_of_free {t : Text} (free : vs16.toNat ∉ t) : dropStray t = t := by
  apply List.filter_eq_self.2
  intro c hc
  have other : c ≠ vs16.toNat := fun same => free (same ▸ hc)
  simpa using other

/-- A match with the gap in front of it, and the image it got, if any. -/
structure Answered where
  gap : Text
  raw : Text
  image : Option Markup.Attributes

def Answered.part (m : Answered) : Text × Text := (m.gap, m.raw)

def resolved (matched : List Answered) : List Markup.Attributes := matched.filterMap (·.image)

theorem resolved_append (matched matched' : List Answered) :
    resolved (matched ++ matched') = resolved matched ++ resolved matched' :=
  List.filterMap_append ..

/-- A text dealt out: what is in front of the first image, and the images, each with the text up to
the next one. -/
structure Dealt where
  leading : Text
  images : List (Markup.Attributes × Text)
  deriving DecidableEq

namespace Dealt

/-- One more gap and match in front. A match that is not resolved joins the text around it. -/
def push (image? : Text → Option Markup.Attributes) (part : Text × Text) (d : Dealt) : Dealt :=
  match image? part.2 with
  | some attributes => ⟨dropStray part.1, (attributes, d.leading) :: d.images⟩
  | none => ⟨dropStray part.1 ++ part.2 ++ d.leading, d.images⟩

def ofParts (image? : Text → Option Markup.Attributes) (rest : Text)
    (parts : List (Text × Text)) : Dealt :=
  parts.foldr (push image?) ⟨dropStray rest, []⟩

def ofAnswered (rest : Text) (matched : List Answered) : Dealt :=
  matched.foldr (fun m => push (fun _ => m.image) m.part) ⟨dropStray rest, []⟩

def orText (t : Text) (d : Dealt) : Dealt := if d.images = [] then ⟨t, []⟩ else d

@[simp] theorem images_orText (t : Text) (d : Dealt) : (d.orText t).images = d.images := by
  unfold orText
  split
  · next none => exact none.symm
  · rfl

theorem orText_of_ne {t : Text} {d : Dealt} (some : d.images ≠ []) : d.orText t = d := if_neg some

theorem ofAnswered_map (image? : Text → Option Markup.Attributes) (rest : Text)
    (parts : List (Text × Text)) :
    ofAnswered rest (parts.map fun part => ⟨part.1, part.2, image? part.2⟩) =
      ofParts image? rest parts := by
  rw [ofAnswered, List.foldr_map]
  rfl

def imagePieces (image : Markup.Attributes × Text) : List Piece :=
  .image image.1 :: Decorator.plainPieces image.2

def pieces (d : Dealt) : List Piece :=
  Decorator.plainPieces d.leading ++ d.images.flatMap imagePieces

def pieces? (d : Dealt) : Option (List Piece) := if d.images = [] then none else some d.pieces

theorem pieces?_orText (t : Text) (d : Dealt) : (d.orText t).pieces? = d.pieces? := by
  by_cases none : d.images = []
  · rw [pieces?, pieces?, if_pos none, if_pos (by rw [images_orText, none])]
  · rw [orText_of_ne none]

theorem images_ofParts (image? : Text → Option Markup.Attributes) (rest : Text)
    (parts : List (Text × Text)) :
    (ofParts image? rest parts).images.map (·.1) = parts.filterMap fun part => image? part.2 := by
  induction parts with
  | nil => rfl
  | cons part parts ih =>
    rw [ofParts, List.foldr_cons, ← ofParts, push]
    cases answer : image? part.2 with
    | none => rw [List.filterMap_cons, answer, ih]
    | some attributes => rw [List.filterMap_cons, answer, List.map_cons, ih]

theorem images_ofAnswered (rest : Text) (matched : List Answered) :
    (ofAnswered rest matched).images.map (·.1) = resolved matched := by
  induction matched with
  | nil => rfl
  | cons m matched ih =>
    rw [ofAnswered, List.foldr_cons, ← ofAnswered, push, resolved, List.filterMap_cons]
    cases m.image with
    | none => exact ih
    | some attributes => exact congrArg (attributes :: ·) ih

end Dealt

/-- A text with what its matches got, up to the one in which the call ended, and that match with the
error, if there was one. -/
structure Asked where
  text : Text
  matched : List Answered
  ended : Option (Text × Raised)

namespace Asked

/-- The images for the text. A text in which the call ended gets none. -/
def images (x : Asked) : List Markup.Attributes :=
  match x.ended with
  | some _ => []
  | none => resolved x.matched

def dealt (p : Matcher) (x : Asked) : Dealt :=
  match x.ended with
  | some _ => ⟨x.text, []⟩
  | none => (Dealt.ofAnswered (p.cut x.text).rest x.matched).orText x.text

theorem images_dealt (p : Matcher) (x : Asked) :
    (x.dealt p).images.map (·.1) = x.images := by
  obtain ⟨t, matched, ended⟩ := x
  cases ended with
  | some ended => rfl
  | none =>
    rw [dealt, Dealt.images_orText]
    exact Dealt.images_ofAnswered _ _

end Asked

namespace Decorating

variable {σ α β : Type}

theorem run_bind (m : Decorating σ α) (k : α → Decorating σ β) (s : Session σ) :
    (m >>= k).run.run s =
      match m.run.run s with
      | (.ok x, s') => (k x).run.run s'
      | (.error raised, s') => (.error raised, s') := by
  have step : (m >>= k).run.run s = (ExceptT.bindCont k (m.run.run s).1).run (m.run.run s).2 := rfl
  rw [step]
  rcases m.run.run s with ⟨_ | _, s'⟩
  · rfl
  · rfl

end Decorating

namespace Decorator

variable {σ : Type} (d : Decorator σ)

def answer (part : Text × Text) : Decorating σ Answered := do
  return ⟨part.1, part.2, ← d.image? part.2⟩

def ask (t : Text) : Decorating σ (List Answered) := (d.matcher.cut t).parts.mapM d.answer

theorem piecesOf_eq (rest gathered : Text) (parts : List (Text × Text)) :
    d.piecesOf rest gathered parts = do
      let dealt := Dealt.ofAnswered rest (← parts.mapM d.answer)
      return (Dealt.pieces ⟨gathered ++ dealt.leading, dealt.images⟩, !dealt.images.isEmpty) := by
  induction parts generalizing gathered with
  | nil => simp [piecesOf, Dealt.ofAnswered, Dealt.pieces]
  | cons part parts ih =>
    obtain ⟨gap, raw⟩ := part
    rw [piecesOf, List.mapM_cons, answer, bind_assoc]
    simp only [bind_assoc]
    congr 1
    funext image
    cases image with
    | none => simp [ih, Dealt.ofAnswered, Dealt.push, Answered.part]
    | some attributes =>
      simp [ih, Dealt.ofAnswered, Dealt.push, Answered.part, Dealt.pieces, Dealt.imagePieces]

theorem pieces_eq (t : Text) :
    d.pieces t = do return (Dealt.ofAnswered (d.matcher.cut t).rest (← d.ask t)).pieces? := by
  simp [pieces, piecesOf_eq, ask, Dealt.pieces?]

/-- Asks for the images of matches from left to right, up to the one in which the call ends. -/
def answers :
    List (Text × Text) → StateM (Session σ) (List Answered × Option (Text × Raised))
  | [] => return ([], none)
  | part :: parts => do
    match ← (d.image? part.2).run with
    | .error raised => return ([], some (part.2, raised))
    | .ok image =>
      let (matched, ended) ← answers parts
      return (⟨part.1, part.2, image⟩ :: matched, ended)

theorem run_answers_cons (part : Text × Text) (parts : List (Text × Text)) (s : Session σ) :
    (d.answers (part :: parts)).run s =
      match (d.image? part.2).run.run s with
      | (.ok image, s') =>
        ((⟨part.1, part.2, image⟩ :: ((d.answers parts).run s').1.1,
            ((d.answers parts).run s').1.2), ((d.answers parts).run s').2)
      | (.error raised, s') => (([], some (part.2, raised)), s') := by
  rw [answers, StateT.run_bind]
  rcases (d.image? part.2).run.run s with ⟨_ | _, s'⟩
  · rfl
  · rfl

def outcome (answers : List Answered × Option (Text × Raised)) : Except Raised (List Answered) :=
  match answers.2 with
  | some (_, raised) => .error raised
  | none => .ok answers.1

theorem run_mapM_answer (parts : List (Text × Text)) (s : Session σ) :
    (parts.mapM d.answer).run.run s =
      (outcome ((d.answers parts).run s).1, ((d.answers parts).run s).2) := by
  induction parts generalizing s with
  | nil => rfl
  | cons part parts ih =>
    have first : (d.answer part).run.run s =
        match (d.image? part.2).run.run s with
        | (.ok image, s') => (.ok ⟨part.1, part.2, image⟩, s')
        | (.error raised, s') => (.error raised, s') := by
      rw [answer, Decorating.run_bind]
      rcases (d.image? part.2).run.run s with ⟨_ | _, s'⟩
      · rfl
      · rfl
    rw [List.mapM_cons, Decorating.run_bind, first, d.run_answers_cons]
    rcases (d.image? part.2).run.run s with ⟨raised | image, s'⟩
    · rfl
    · dsimp only
      rw [Decorating.run_bind, ih]
      rcases (d.answers parts).run s' with ⟨⟨matched, _ | ended⟩, s''⟩
      · rfl
      · rfl

/-- Asks about a text in a pass over a tree. After an error no match is asked about. -/
def asking (t : Text) : Walk σ Asked := fun c =>
  match c.error with
  | some _ => (⟨t, [], none⟩, c)
  | none =>
    match (d.answers (d.matcher.cut t).parts).run c.session with
    | ((matched, ended), s) => (⟨t, matched, ended⟩, ⟨s, ended.map (·.2)⟩)

theorem run_asking (t : Text) (s : Session σ) :
    (d.asking t).run ⟨s, none⟩ =
      (⟨t, ((d.answers (d.matcher.cut t).parts).run s).1.1,
          ((d.answers (d.matcher.cut t).parts).run s).1.2⟩,
        ⟨((d.answers (d.matcher.cut t).parts).run s).2,
          ((d.answers (d.matcher.cut t).parts).run s).1.2.map (·.2)⟩) := rfl

def dealing (t : Text) : Walk σ Dealt := do return (← d.asking t).dealt d.matcher

theorem run_dealing (t : Text) (c : Course σ) :
    (d.dealing t).run c =
      (((d.asking t).run c).1.dealt d.matcher, ((d.asking t).run c).2) := rfl

theorem attempt_pieces (t : Text) :
    Walk.attempt (d.pieces t) none = do return (← d.dealing t).pieces? := by
  funext c
  obtain ⟨s, error⟩ := c
  cases error with
  | some raised => rfl
  | none =>
    have asked : (d.ask t).run.run s = _ := d.run_mapM_answer (d.matcher.cut t).parts s
    have here : ((do return (← d.dealing t).pieces? : Walk σ _)).run ⟨s, none⟩ =
        ((((d.asking t).run ⟨s, none⟩).1.dealt d.matcher).pieces?,
          ((d.asking t).run ⟨s, none⟩).2) := rfl
    refine Eq.trans ?_ here.symm
    rw [run_asking, Walk.attempt, pieces_eq, Decorating.run_bind, asked]
    rcases (d.answers (d.matcher.cut t).parts).run s with ⟨⟨matched, _ | ended⟩, s'⟩
    · dsimp only [outcome, Asked.dealt, Option.map_none]
      rw [Dealt.pieces?_orText]
      rfl
    · rfl

end Decorator

end Pictograph
