import Pictograph.Proofs.Decorate.Dealt

/-!
Pieces read as text. With a reading of images, the pieces of a text that is dealt out are read as
the text without its stray selectors, with every match that is resolved read as its image.
-/

namespace Pictograph

namespace Piece

def read (image : Markup.Attributes → Text) : Piece → Text
  | .plain t => t
  | .image attributes => image attributes

def image? : Piece → Option Markup.Attributes
  | plain _ => none
  | image attributes => some attributes

end Piece

/-- What stands in the place of a match: its image, if it has one. -/
def shown (read : Markup.Attributes → Text) (raw : Text) (image : Option Markup.Attributes) :
    Text :=
  image.elim raw read

namespace Dealt

variable (read : Markup.Attributes → Text)

theorem flatMap_read_plainPieces (t : Text) :
    (Decorator.plainPieces t).flatMap (Piece.read read) = t := by
  cases t with
  | nil => rfl
  | cons c t => exact List.append_nil _

theorem flatMap_read_pieces (d : Dealt) :
    d.pieces.flatMap (Piece.read read) =
      d.leading ++ d.images.flatMap fun i => read i.1 ++ i.2 := by
  have image : ∀ i, (imagePieces i).flatMap (Piece.read read) = read i.1 ++ i.2 := by
    intro i
    rw [imagePieces, List.flatMap_cons, flatMap_read_plainPieces]
    rfl
  rw [pieces, List.flatMap_append, flatMap_read_plainPieces, List.flatMap_assoc]
  simp only [image]

theorem flatMap_read_ofAnswered (rest : Text) (matched : List Answered) :
    (ofAnswered rest matched).pieces.flatMap (Piece.read read) =
      Pattern.joined (matched.map fun m => (dropStray m.gap, shown read m.raw m.image))
        (dropStray rest) := by
  rw [flatMap_read_pieces]
  induction matched with
  | nil => exact List.append_nil _
  | cons m matched ih =>
    rw [ofAnswered, List.foldr_cons, ← ofAnswered, List.map_cons, Pattern.joined_cons, ← ih, push,
      shown]
    cases m.image with
    | none => simp [Answered.part]
    | some attributes => simp [Answered.part]

theorem filterMap_image?_pieces (d : Dealt) :
    d.pieces.filterMap Piece.image? = d.images.map (·.1) := by
  have plain : ∀ t, (Decorator.plainPieces t).filterMap Piece.image? = [] := by
    intro t
    cases t with
    | nil => rfl
    | cons c t => rfl
  have image : ∀ i, (imagePieces i).filterMap Piece.image? = [i.1] := by
    intro i
    rw [imagePieces, List.filterMap_cons, plain]
    rfl
  rw [pieces, List.filterMap_append, plain, List.nil_append, List.filterMap_flatMap]
  simp only [image]
  exact List.flatMap_pure_eq_map ..

end Dealt

end Pictograph
