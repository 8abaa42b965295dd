/-!
Strictly ascending lists as sets. Inserting goes past the smaller members and changes nothing if
the new one is already there.
-/

namespace Pictograph.Ascending

variable {α : Type} (lt : α → α → Bool)

def insert (a : α) : List α → List α
  | [] => [a]
  | b :: rest => if lt a b then a :: b :: rest else if lt b a then b :: insert a rest else b :: rest

def ofList (items : List α) : List α := items.foldr (insert lt) []

theorem mem_insert {lt : α → α → Bool} (total : ∀ a b, lt a b = false → lt b a = false → a = b)
    {a x : α} {items : List α} : x ∈ insert lt a items ↔ x = a ∨ x ∈ items := by
  induction items with
  | nil => simp [insert]
  | cons b rest ih =>
    simp only [insert]
    split
    · simp
    · split
      · simp only [List.mem_cons, ih]
        grind
      · next h h' =>
        have hab : a = b := total a b (by simpa using h) (by simpa using h')
        simp [hab]

theorem mem_ofList {lt : α → α → Bool} (total : ∀ a b, lt a b = false → lt b a = false → a = b)
    {x : α} {items : List α} : x ∈ ofList lt items ↔ x ∈ items := by
  induction items with
  | nil => simp [ofList]
  | cons b rest ih =>
    simp only [ofList, List.foldr_cons, List.mem_cons] at ih ⊢
    rw [mem_insert total, ih]

end Pictograph.Ascending
