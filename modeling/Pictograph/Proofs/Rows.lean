import Pictograph.Proofs.Templates
import Pictograph.Table.Chapter

/-!
Rows of a documented shape. Whatever their texts and numbers are, a row that cannot be read is a
fault of the table that names the row. The one thing else that can go wrong is a number too long to
be written, where reading the row writes it.
-/

namespace Pictograph

open Traversal

/-- A fault of the table that carries the key. -/
def Fault.Names (key : Text) (f : Fault) : Prop := ∃ t, f = .table t ∧ t.key = key

def Value.IsPlain (v : Value) : Prop := v = .null ∨ ∃ t, v = .text t

theorem Decimal.fails_readInt (base : Nat) (t : Text) :
    FailsWith (·.family = .value) (readInt base t) := by
  unfold readInt
  dsimp only
  generalize (if base = 16 then dropMark (takeSign (plain t)).2 else (takeSign (plain t)).2) = body
  split
  · exact .error rfl
  · split
    · exact .error rfl
    · split
      · exact .error rfl
      · exact .ok _ _

theorem Sequence.fails_ofKey (key : Text) (shown : Bool) :
    FailsWith (·.family = .value) (ofKey key shown) := by
  unfold ofKey
  dsimp only
  split
  · exact .error rfl
  · refine FailsWith.bind (.mapM fun part _ => ?_) fun _ _ => .ok _ _
    exact (Decimal.fails_readInt 16 part).bind fun n _ => fails_scalar _ n

theorem Sequence.fails_ofValues_int (numbers : List Int) :
    FailsWith (·.family = .value) (ofValues (numbers.map .int)) := by
  refine FailsWith.bind (.mapM fun v hv => ?_) fun _ _ => .ok _ _
  obtain ⟨n, -, rfl⟩ := List.mem_map.1 hv
  exact fails_scalar _ n

theorem Kind.fails_read {tag : Value} (plain : tag.IsPlain) (key : Text) :
    FailsWith (Fault.Names key) (read tag key) := by
  obtain rfl | ⟨t, rfl⟩ := plain
  · exact .ok _ _
  · unfold read
    simp only [Value.write_text, bind, Except.bind]
    split
    · exact .ok _ _
    · exact .error ⟨_, rfl, rfl⟩

theorem Token.fails_read_text (key t : Text) :
    FailsWith (Fault.Names key) (read key (.text t)) := by
  unfold read
  dsimp only
  split
  · exact .ok _ _
  · unfold read.number
    split
    · exact .ok _ _
    · exact .error ⟨_, rfl, rfl⟩

theorem Template.fails_read {v : Value} (plain : v.IsPlain) (key : Text) :
    FailsWith (Fault.Names key) (read v key) := by
  obtain rfl | ⟨t, rfl⟩ := plain
  · exact .ok _ _
  · have tokens : FailsWith (Fault.Names key) (tokens (.text t)) := .ok _ _
    refine tokens.bind fun values given => ?_
    cases given
    refine FailsWith.bind (.mapM fun v hv => ?_) fun template _ => ?_
    · obtain ⟨part, -, rfl⟩ := List.mem_map.1 hv
      exact Token.fails_read_text key part
    split
    · exact .error ⟨_, rfl, rfl⟩
    · exact .ok _ _

namespace Row

abbrev Cells := List (Text × Value)

def points (cells : Cells) : Value :=
  match Value.member (codes "unicode") cells with
  | .null => Value.member (codes "codepoints") cells
  | given => given

def label : Value → Text
  | .text key => key
  | v => v.literal

/-- The name of a row: the key of its points, or what is given for them if they cannot be read. -/
def name (cells : Cells) : Text :=
  match Entry.readCodes cells with
  | .ok base => base.key
  | .error _ => label (points cells)

/-- Is the row of a documented shape? Its texts and numbers may be any. -/
structure Documented (cells : Cells) : Prop where
  points : (∃ key, points cells = .text key) ∨
    ∃ numbers : List Int, points cells = .list (numbers.map .int)
  kind : (Value.member (codes "type") cells).IsPlain
  sameTone : (Value.member (codes "multi_diversity_base_same") cells).IsPlain
  twoTones : (Value.member (codes "multi_diversity_base_different") cells).IsPlain
  keywords : (Value.member (codes "keywords") cells).IsPlain ∨
    ∃ words, Value.member (codes "keywords") cells = .list words

theorem readCodes_eq {cells : Cells} (h : points cells ≠ .null) :
    Entry.readCodes cells = Entry.readBase (points cells) := by
  unfold points at h ⊢
  unfold Entry.readCodes
  generalize Value.member (codes "unicode") cells = v at h ⊢
  generalize Value.member (codes "codepoints") cells = w at h ⊢
  cases v with
  | null =>
    cases w with
    | null => exact absurd rfl h
    | _ => rfl
  | _ => rfl

/-- Does reading a row meet a number too long to be written? Points are written if they cannot be
read, a description and keywords if all before them was read. -/
inductive Overlong (cells : Cells) : Prop where
  | points (h : (points cells).writable = false)
  | texts {base : Sequence} {kind : Kind} {sameTone twoTones : Option Template}
      (points : Entry.readCodes cells = .ok base)
      (kind : Kind.read (Value.member (codes "type") cells) base.key = .ok kind)
      (sameTone : Template.read (Value.member (codes "multi_diversity_base_same") cells) base.key =
        .ok sameTone)
      (twoTones : Template.read (Value.member (codes "multi_diversity_base_different") cells)
        base.key = .ok twoTones)
      (h : (Value.member (codes "description") cells).writable = false ∨
        (Value.member (codes "keywords") cells).writable = false)

theorem cellText_eq_error_iff {v : Value} {f : Fault} :
    Entry.cellText v = .error f ↔ v.writable = false ∧ f = .longNumber := by
  unfold Entry.cellText
  by_cases filled : v.truthy = true
  · rw [if_pos filled, Value.write_eq_error_iff]
  · have short : v.writable ≠ false := fun long => filled (Value.truthy_of_not_writable long)
    simp [if_neg filled, short]

theorem writable_of_cellText {v : Value} {t : Text} (ok : Entry.cellText v = .ok t) :
    v.writable = true := by
  by_contra long
  rw [cellText_eq_error_iff.2 ⟨by simpa using long, rfl⟩] at ok
  cases ok

theorem exists_cellText {v : Value} (h : v.writable = true) : ∃ t, Entry.cellText v = .ok t := by
  unfold Entry.cellText
  rw [Value.write_of_writable h]
  split
  · exact ⟨_, rfl⟩
  · exact ⟨_, rfl⟩

theorem readKeywords_eq_error_iff {v : Value} {f : Fault}
    (shape : v.IsPlain ∨ ∃ words, v = .list words) :
    Entry.readKeywords v = .error f ↔ v.writable = false ∧ f = .longNumber := by
  obtain (rfl | ⟨t, rfl⟩) | ⟨words, rfl⟩ := shape
  · simp [Entry.readKeywords, Value.truthy, Value.writable]
  · unfold Entry.readKeywords
    split <;> simp [Entry.readKeywords.words, Value.writable, Except.map]
  · cases words with
    | nil => simp [Entry.readKeywords, Value.truthy, Value.writable, Value.writableItems]
    | cons word words =>
      have read : Entry.readKeywords (.list (word :: words)) =
          ((word :: words).mapM fun v : Value => v.write Value.display).map fun words =>
            (words.map Text.trim).filter (!·.isEmpty) := rfl
      rw [read, Value.mapM_write, Value.writable]
      split
      · next short => simp [Except.map, short]
      · next long => simp [Except.map, long, @eq_comm _ Fault.longNumber f]

theorem exists_ofValues_eq_error {numbers : List Int}
    (long : (Value.list (numbers.map .int)).writable = false) :
    ∃ f, Sequence.ofValues (numbers.map .int) = .error f := by
  by_contra fine
  push Not at fine
  obtain ⟨s, ok⟩ : ∃ s, Sequence.ofValues (numbers.map .int) = .ok s := by
    cases read : Sequence.ofValues (numbers.map .int) with
    | error f => exact absurd read (fine f)
    | ok s => exact ⟨s, rfl⟩
  obtain ⟨points, all, -⟩ := bind_eq_ok.1 ok
  have short : Value.writableItems (numbers.map .int) = true := by
    rw [Value.writableItems_iff]
    intro v hv
    obtain ⟨c, -, scalar⟩ := ok_of_mapM_eq_ok all hv
    obtain ⟨n, -, rfl⟩ := List.mem_map.1 hv
    obtain ⟨low, high, -⟩ := scalar_eq_ok_iff.1 ⟨c, scalar⟩
    have few : (Nat.toDigits 10 n.natAbs).length ≤ 7 :=
      (Nat.length_toDigits_le_iff (by decide) (by decide)).2 (by omega)
    exact decide_eq_true (Nat.le_trans few (by decide))
  rw [Value.writable, short] at long
  cases long

theorem fails_readPoints {v : Value}
    (shape : (∃ key, v = .text key) ∨ ∃ numbers : List Int, v = .list (numbers.map .int)) :
    FailsWith (·.family = .value) (Entry.readPoints v) := by
  obtain ⟨key, rfl⟩ | ⟨numbers, rfl⟩ := shape
  · exact Sequence.fails_ofKey key true
  · exact Sequence.fails_ofValues_int numbers

theorem readBase_of_error {v : Value} {f : Fault} (failed : Entry.readPoints v = .error f)
    (value : f.family = .value) :
    Entry.readBase v =
      Entry.label v >>= fun shown => .error (.table (.badCodes shown f.message)) := by
  simp only [Entry.readBase, failed]
  rw [if_pos (.inl value)]
  rfl

theorem readBase_of_long {numbers : List Int}
    (long : (Value.list (numbers.map .int)).writable = false) :
    Entry.readBase (.list (numbers.map .int)) = .error .longNumber := by
  obtain ⟨f, failed⟩ := exists_ofValues_eq_error long
  have read : Entry.readPoints (.list (numbers.map .int)) = .error f := failed
  have shown : Entry.label (.list (numbers.map .int)) = .error .longNumber :=
    Value.write_eq_error_iff.2 ⟨long, rfl⟩
  rw [readBase_of_error read (Sequence.fails_ofValues_int numbers f failed), shown]
  rfl

/-- A failure to read points of a documented shape names them as they are given, if they can be
written. -/
theorem readBase_eq_error {v : Value} {f : Fault}
    (shape : (∃ key, v = .text key) ∨ ∃ numbers : List Int, v = .list (numbers.map .int))
    (failed : Entry.readBase v = .error f) : v.writable = false ∧ f = .longNumber ∨
      f.Names (label v) := by
  cases read : Entry.readPoints v with
  | ok s =>
    rw [Entry.readBase, read] at failed
    cases failed
  | error g =>
    rw [readBase_of_error read (fails_readPoints shape g read)] at failed
    obtain ⟨key, rfl⟩ | ⟨numbers, rfl⟩ := shape
    · cases failed
      exact .inr ⟨_, rfl, rfl⟩
    · rcases bind_eq_error.1 failed with long | ⟨shown, written, same⟩
      · exact .inl (Value.write_eq_error_iff.1 long)
      · cases same
        exact .inr ⟨_, rfl, Value.eq_of_write written⟩

/-- A documented row that cannot be read is a fault of the table with the name of the row, or holds
a number that is too long. -/
theorem Documented.fails_ofRow {cells : Cells} (h : Documented cells) :
    FailsWith (fun f => Fault.Names (name cells) f ∨ f = .longNumber ∧ Overlong cells)
      (Entry.ofRow (.object cells)) := by
  have given : Row.points cells ≠ .null := by
    obtain ⟨key, e⟩ | ⟨numbers, e⟩ := h.points <;> simp [e]
  unfold Entry.ofRow
  dsimp only
  refine FailsWith.bind (fun f failed => ?_) fun base read => ?_
  · have same := failed
    rw [readCodes_eq given] at same
    rcases readBase_eq_error h.points same with ⟨long, rfl⟩ | names
    · exact .inr ⟨rfl, .points long⟩
    · left
      unfold name
      rw [failed]
      exact names
  have named : name cells = base.key := by rw [name, read]
  rw [named]
  refine FailsWith.bind ((Kind.fails_read h.kind _).mono fun _ => .inl) fun kind kindOk => ?_
  refine FailsWith.bind ((Template.fails_read h.sameTone _).mono fun _ => .inl) fun one oneOk => ?_
  refine FailsWith.bind ((Template.fails_read h.twoTones _).mono fun _ => .inl) fun two twoOk => ?_
  refine FailsWith.bind (fun f failed => ?_) fun description _ => ?_
  · obtain ⟨long, rfl⟩ := cellText_eq_error_iff.1 failed
    exact .inr ⟨rfl, .texts read kindOk oneOk twoOk (.inl long)⟩
  refine FailsWith.bind (fun f failed => ?_) fun words _ => .ok _ _
  obtain ⟨long, rfl⟩ := (readKeywords_eq_error_iff h.keywords).1 failed
  exact .inr ⟨rfl, .texts read kindOk oneOk twoOk (.inr long)⟩

theorem Overlong.ofRow_eq_error {cells : Cells} (h : Overlong cells) (shape : Documented cells) :
    Entry.ofRow (.object cells) = .error .longNumber := by
  unfold Entry.ofRow
  dsimp only
  cases h with
  | points long =>
    refine bind_eq_error.2 (.inl ?_)
    have given : Row.points cells ≠ .null := by
      intro none
      rw [none] at long
      cases long
    obtain ⟨key, e⟩ | ⟨numbers, e⟩ := shape.points
    · rw [e] at long
      cases long
    · rw [readCodes_eq given, e]
      rw [e] at long
      exact readBase_of_long long
  | @texts base kind one two points kindOk oneOk twoOk long =>
    refine bind_eq_error.2 (.inr ⟨base, points, ?_⟩)
    refine bind_eq_error.2 (.inr ⟨kind, kindOk, ?_⟩)
    refine bind_eq_error.2 (.inr ⟨one, oneOk, ?_⟩)
    refine bind_eq_error.2 (.inr ⟨two, twoOk, ?_⟩)
    cases shown : Entry.cellText (Value.member (codes "description") cells) with
    | error f =>
      obtain ⟨-, rfl⟩ := cellText_eq_error_iff.1 shown
      rfl
    | ok description =>
      have words := long.resolve_left fun first => by
        rw [cellText_eq_error_iff.2 ⟨first, rfl⟩] at shown
        cases shown
      rw [(readKeywords_eq_error_iff shape.keywords).2 ⟨words, rfl⟩]
      rfl

end Row

namespace TableItem

open Row

/-- Is a part of a table an entry or a chapter that was read before, or a documented row of an entry
or of a chapter? -/
inductive Documented : TableItem → Prop where
  | entry (e : Entry) : Documented (.entry e)
  | chapter (c : Chapter) : Documented (.chapter c)
  | row {cells : Cells} (single : cells.lookup (codes "items") = none)
      (h : Row.Documented cells) : Documented (.loose (.object cells))
  | rows {cells : Cells} {rows : List Cells}
      (several : cells.lookup (codes "items") = some (.list (rows.map .object)))
      (h : ∀ row ∈ rows, Row.Documented row) : Documented (.loose (.object cells))

inductive HasRow : TableItem → Cells → Prop where
  | single {cells : Cells} (single : cells.lookup (codes "items") = none) :
      HasRow (.loose (.object cells)) cells
  | several {cells row : Cells} {rows : List Value}
      (several : cells.lookup (codes "items") = some (.list rows)) (h : .object row ∈ rows) :
      HasRow (.loose (.object cells)) row

def Unreadable (i : TableItem) (key : Text) : Prop :=
  ∃ row, i.HasRow row ∧ (∃ t, Entry.ofRow (.object row) = .error (.table t)) ∧ Row.name row = key

/-- Does reading a part of a table meet a number too long to be written, in the names of a chapter or
in the first row that cannot be read? -/
inductive Overlong : TableItem → Prop where
  | row {cells : Cells} (single : cells.lookup (codes "items") = none) (h : Row.Overlong cells) :
      Overlong (.loose (.object cells))
  | names {cells : Cells} (several : (cells.lookup (codes "items")).isSome = true)
      (h : (Value.member (codes "id") cells).writable = false ∨
        (Value.member (codes "title") cells).writable = false) : Overlong (.loose (.object cells))
  | rows {cells row : Cells} {rows : List Value}
      (several : cells.lookup (codes "items") = some (.list rows))
      (id : (Value.member (codes "id") cells).writable = true)
      (title : (Value.member (codes "title") cells).writable = true)
      (first : First (fun v => ∃ f, Entry.ofRow v = .error f) rows (.object row))
      (h : Row.Overlong row) : Overlong (.loose (.object cells))

theorem fails_ofRow {i : TableItem} {row : Cells} (has : i.HasRow row) (h : Row.Documented row) :
    FailsWith (fun f => (∃ key, f.Names key ∧ i.Unreadable key) ∨
      f = .longNumber ∧ Row.Overlong row) (Entry.ofRow (.object row)) := by
  intro f fault
  refine (h.fails_ofRow f fault).imp_left fun names => ?_
  obtain ⟨t, rfl, key⟩ := names
  exact ⟨Row.name row, ⟨t, rfl, key⟩, row, has, ⟨t, fault⟩, rfl⟩

theorem Documented.fails_entries {i : TableItem} (h : i.Documented) :
    FailsWith (fun f => (∃ key, f.Names key ∧ i.Unreadable key) ∨
      f = .longNumber ∧ i.Overlong) i.entries := by
  cases h with
  | entry e => exact .ok _ _
  | chapter c => exact .ok _ _
  | @row cells single documented =>
    unfold entries
    dsimp only
    rw [single]
    refine FailsWith.map ((fails_ofRow (.single single) documented).mono fun f fault => ?_)
    exact fault.imp_right (And.imp_right (.row single))
  | @rows cells rows several documented =>
    have chapter : (cells.lookup (codes "items")).isSome = true := by rw [several]; rfl
    unfold entries
    dsimp only
    rw [if_pos chapter]
    refine FailsWith.map ?_
    have given : Value.member (codes "items") cells = .list (rows.map .object) := by
      rw [Value.member, several]
      rfl
    unfold Chapter.ofRow
    dsimp only
    refine FailsWith.bind (fun f failed => ?_) fun id idOk => ?_
    · obtain ⟨long, rfl⟩ := Row.cellText_eq_error_iff.1 failed
      exact .inr ⟨rfl, .names chapter (.inl long)⟩
    refine FailsWith.bind (fun f failed => ?_) fun title titleOk => ?_
    · obtain ⟨long, rfl⟩ := Row.cellText_eq_error_iff.1 failed
      exact .inr ⟨rfl, .names chapter (.inr long)⟩
    split
    · simp only [given, Value.elements?]
      refine FailsWith.bind (fun f failed => ?_) fun _ _ => .ok _ _
      obtain ⟨v, first, fault⟩ := mapM_eq_error_iff_first_error.1 failed
      obtain ⟨row, hrow, rfl⟩ := List.mem_map.1 first.mem
      refine (fails_ofRow (.several several first.mem) (documented row hrow) f fault).imp_right
        fun long => ⟨long.1, .rows several ?_ ?_ first long.2⟩
      · exact Row.writable_of_cellText idOk
      · exact Row.writable_of_cellText titleOk
    · exact .ok _ _

theorem Overlong.entries_eq_error {i : TableItem} (h : i.Overlong) (shape : i.Documented) :
    i.entries = .error .longNumber := by
  cases h with
  | @row cells single long =>
    cases shape with
    | row _ documented =>
      unfold entries
      dsimp only
      rw [single, long.ofRow_eq_error documented]
      rfl
    | rows several _ => cases single.symm.trans several
  | @names cells chapter long =>
    unfold entries Chapter.ofRow
    dsimp only
    rw [if_pos chapter]
    cases first : Entry.cellText (Value.member (codes "id") cells) with
    | error f =>
      obtain ⟨-, rfl⟩ := Row.cellText_eq_error_iff.1 first
      rfl
    | ok id =>
      have title := long.resolve_left fun id => by
        rw [Row.cellText_eq_error_iff.2 ⟨id, rfl⟩] at first
        cases first
      rw [Row.cellText_eq_error_iff.2 ⟨title, rfl⟩]
      rfl
  | @rows cells row rows several id title first long =>
    cases shape with
    | row single _ => cases single.symm.trans several
    | @rows _ rows' several' documented =>
      cases several.symm.trans several'
      have hrow : row ∈ rows' := by
        obtain ⟨row', hrow, same⟩ := List.mem_map.1 first.mem
        cases same
        exact hrow
      have read := mapM_eq_error_iff_first_error.2
        ⟨_, first, long.ofRow_eq_error (documented row hrow)⟩
      have chapter : (cells.lookup (codes "items")).isSome = true := by rw [several]; rfl
      have given : Value.member (codes "items") cells = .list (rows'.map .object) := by
        rw [Value.member, several]
        rfl
      have filled : (Value.list (rows'.map .object)).truthy = true := by
        cases rows' with
        | nil => cases hrow
        | cons _ _ => rfl
      obtain ⟨id, idOk⟩ := Row.exists_cellText id
      obtain ⟨title, titleOk⟩ := Row.exists_cellText title
      unfold entries Chapter.ofRow
      dsimp only
      rw [if_pos chapter, idOk, titleOk]
      simp only [given, if_pos filled, Value.elements?, read]
      rfl

end TableItem

/-- Is the first part of a table that cannot be read one where a number is too long to be written? -/
def Overlong (items : List TableItem) : Prop :=
  ∃ i, First (fun i : TableItem => ∃ f, i.entries = .error f) items i ∧ i.Overlong

theorem fails_tableEntries {items : List TableItem} (h : ∀ i ∈ items, i.Documented) :
    FailsWith (fun f => (∃ key, f.Names key ∧ ∃ i ∈ items, i.Unreadable key) ∨
      f = .longNumber ∧ Overlong items) (tableEntries items) := by
  refine FailsWith.bind (fun f failed => ?_) fun _ _ => .ok _ _
  obtain ⟨i, first, fault⟩ := mapM_eq_error_iff_first_error.1 failed
  rcases (h i first.mem).fails_entries f fault with ⟨key, names, unreadable⟩ | ⟨escaped, long⟩
  · exact .inl ⟨key, names, i, first.mem, unreadable⟩
  · exact .inr ⟨escaped, i, first, long⟩

theorem Overlong.tableEntries_eq_error {items : List TableItem} (h : Overlong items)
    (shape : ∀ i ∈ items, i.Documented) : tableEntries items = .error .longNumber := by
  obtain ⟨i, first, long⟩ := h
  refine bind_eq_error.2 (.inl (mapM_eq_error_iff_first_error.2 ⟨i, first, ?_⟩))
  exact long.entries_eq_error (shape i first.mem)

end Pictograph
