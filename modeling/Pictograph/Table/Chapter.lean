import Pictograph.Table.Entry

/-!
An emoji table: rows, entries, or chapters of them in any mixture. A table stands for the list of
its entries in order.
-/

namespace Pictograph

structure Chapter where
  id : Text
  title : Text
  entries : List Entry

namespace Chapter

def ofRow (row : Value) : Except Fault Chapter :=
  match row with
  | .object cells => do
    let cell := fun name => Value.member (codes name) cells
    let id ← Entry.cellText (cell "id")
    let title ← Entry.cellText (cell "title")
    let rows := cell "items"
    let entries ←
      if rows.truthy then
        match rows.elements? with
        | some rows => rows.mapM Entry.ofRow
        | none => throw (.notIterable rows.typeName)
      else pure []
    return ⟨id, title, entries⟩
  | v => .error (.lacks v.typeName (codes "get"))

end Chapter

inductive TableItem where
  | loose (v : Value)
  | entry (e : Entry)
  | chapter (c : Chapter)

namespace TableItem

/-- The entries of one part. A row with items is a chapter. -/
def entries : TableItem → Except Fault (List Entry)
  | chapter c => .ok c.entries
  | entry e => .ok [e]
  | loose (.object cells) =>
    if (cells.lookup (codes "items")).isSome then
      (Chapter.ofRow (.object cells)).map Chapter.entries
    else (Entry.ofRow (.object cells)).map ([·])
  | loose v => .error (.table (.unsupportedEntry v.typeName))

end TableItem

def tableItems (table : Value) : Except Fault (List TableItem) :=
  match table.elements? with
  | some values => .ok (values.map .loose)
  | none => .error (.notIterable table.typeName)

def tableEntries (items : List TableItem) : Except Fault (List Entry) := do
  return (← items.mapM TableItem.entries).flatten

end Pictograph
