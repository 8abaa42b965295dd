import Mathlib.Data.List.Infix
import Pictograph.Proofs.Markup.Names

/-!
Image elements read back. The reader looks at one character after the other: a name goes up to the
sign of equality, a value stands between quotation marks, and a space or the end of the tag comes
behind it. Nothing in an escaped value stops the reader early, so what was rendered is read.
-/

namespace Pictograph.Markup

def entities : List (Text × Nat) :=
  [(codes "&amp;", 0x26), (codes "&lt;", 0x3C), (codes "&gt;", 0x3E), (codes "&#39;", 0x27),
    (codes "&quot;", 0x22)]

/-- The text with the characters the entities stand for, after the rest of one entity is passed. -/
def unescapeFrom : (skip : Nat) → Text → Text
  | _, [] => []
  | skip + 1, _ :: rest => unescapeFrom skip rest
  | 0, c :: rest =>
    match entities.find? (·.1.isPrefixOf (c :: rest)) with
    | some e => e.2 :: unescapeFrom (e.1.length - 1) rest
    | none => c :: unescapeFrom 0 rest

def unescape (t : Text) : Text := unescapeFrom 0 t

/-- Where a reader stands in a list of attributes, with what it has read of the present one. -/
inductive Place where
  | inName (name : Text)
  | beforeValue (name : Text)
  | inValue (name value : Text)
  | behind

def readFrom : Place → Text → Option Attributes
  | .behind, [0x2F, 0x3E] => some []
  | _, [] => none
  | .inName name, c :: rest =>
    if c = 0x3D then readFrom (.beforeValue name) rest
    else if c = 0x20 then none
    else readFrom (.inName (name ++ [c])) rest
  | .beforeValue name, c :: rest =>
    if c = 0x22 then readFrom (.inValue name []) rest else none
  | .inValue name value, c :: rest =>
    if c = 0x22 then (readFrom .behind rest).map ((name, unescape value) :: ·)
    else readFrom (.inValue name (value ++ [c])) rest
  | .behind, c :: rest => if c = 0x20 then readFrom (.inName []) rest else none

def readImage (t : Text) : Option Attributes :=
  if (codes "<img ").isPrefixOf t then
    let rest := t.drop (codes "<img ").length
    if rest = codes "/>" then some [] else readFrom (.inName []) rest
  else none

/-- A text that can stand between quotation marks: it ends neither them nor the tag, and every
ampersand in it starts an entity. -/
structure Enclosed (t : Text) : Prop where
  plain : ∀ c ∈ codes "<>\"'", c ∉ t
  entity : ∀ w, 0x26 :: w <:+ t → ∃ e ∈ entities, e.1 <+: 0x26 :: w

/-! Characters and their entities -/

theorem escapeChar_cases (c : Nat) :
    (∃ e ∈ entities, e.2 = c ∧ escapeChar c = e.1) ∨
    (c ∉ entities.map (·.2) ∧ escapeChar c = [c]) := by
  by_cases special : c ∈ entities.map (·.2)
  · left
    revert c
    decide
  · right
    refine ⟨special, ?_⟩
    simp only [entities, List.map_cons, List.map_nil, List.mem_cons, List.not_mem_nil, or_false,
      not_or] at special
    simp [escapeChar, special]

theorem find_entity {e : Text × Nat} (known : e ∈ entities) (rest : Text) :
    entities.find? (·.1.isPrefixOf (e.1 ++ rest)) = some e := by
  simp only [entities, List.mem_cons, List.not_mem_nil, or_false] at known
  rcases known with rfl | rfl | rfl | rfl | rfl <;> rfl

theorem entity_eq_cons :
    ∀ e ∈ entities, ∃ body, e.1 = 0x26 :: body ∧ 0x26 ∉ body := by
  have tails : ∀ e ∈ entities, e.1 = 0x26 :: e.1.tail ∧ 0x26 ∉ e.1.tail := by decide
  exact fun e known => ⟨e.1.tail, tails e known⟩

/-! Entities undone -/

theorem unescapeFrom_append (passed rest : Text) :
    unescapeFrom passed.length (passed ++ rest) = unescape rest := by
  induction passed with
  | nil => rfl
  | cons c passed ih => exact ih

theorem unescape_entity {e : Text × Nat} (known : e ∈ entities) (rest : Text) :
    unescape (e.1 ++ rest) = e.2 :: unescape rest := by
  have found := find_entity known rest
  obtain ⟨body, whole, -⟩ := entity_eq_cons e known
  rw [whole, List.cons_append] at found
  rw [whole, List.cons_append, unescape, unescapeFrom, found]
  simp [whole, unescapeFrom_append]

theorem unescape_of_ne {c : Nat} (plain : c ≠ 0x26) (rest : Text) :
    unescape (c :: rest) = c :: unescape rest := by
  have none : entities.find? (·.1.isPrefixOf (c :: rest)) = none := by
    rw [List.find?_eq_none]
    intro e known
    obtain ⟨body, whole, -⟩ := entity_eq_cons e known
    simp [whole, plain.symm]
  rw [unescape, unescapeFrom, none]
  rfl

theorem unescape_escape (t : Text) : unescape (escape t) = t := by
  induction t with
  | nil => rfl
  | cons c t ih =>
    rw [escape_cons]
    rcases escapeChar_cases c with ⟨e, known, rfl, written⟩ | ⟨ordinary, written⟩
    · rw [written, unescape_entity known, ih]
    · have plain : c ≠ 0x26 := by
        rintro rfl
        exact ordinary (by decide)
      rw [written, List.singleton_append, unescape_of_ne plain, ih]

/-! What an escaped value holds -/

theorem notMem_escapeChar {c : Nat} (special : c ∈ codes "<>\"'") (d : Nat) :
    c ∉ escapeChar d := by
  have inside : ∀ e ∈ entities, ∀ c ∈ codes "<>\"'", c ∉ e.1 := by decide
  have listed : ∀ c ∈ codes "<>\"'", c ∈ entities.map (·.2) := by decide
  rcases escapeChar_cases d with ⟨e, known, -, written⟩ | ⟨ordinary, written⟩
  · rw [written]
    exact inside e known c special
  · rw [written, List.mem_singleton]
    rintro rfl
    exact ordinary (listed c special)

theorem suffix_of_append {w body t : Text} (free : 0x26 ∉ body) (h : 0x26 :: w <:+ body ++ t) :
    0x26 :: w <:+ t := by
  induction body with
  | nil => exact h
  | cons c body ih =>
    rw [List.mem_cons, not_or] at free
    rw [List.cons_append, List.suffix_cons_iff, List.cons.injEq] at h
    rcases h with ⟨same, -⟩ | h
    · exact absurd same free.1
    · exact ih free.2 h

theorem enclosed_escape (t : Text) : Enclosed (escape t) := by
  refine ⟨fun c special h => ?_, fun w h => ?_⟩
  · obtain ⟨d, -, inside⟩ := List.mem_flatMap.1 h
    exact notMem_escapeChar special d inside
  · induction t with
    | nil => simp [escape] at h
    | cons c t ih =>
      rw [escape_cons] at h
      rcases escapeChar_cases c with ⟨e, known, -, written⟩ | ⟨ordinary, written⟩
      · obtain ⟨body, whole, free⟩ := entity_eq_cons e known
        rw [written, whole, List.cons_append, List.suffix_cons_iff, ← List.cons_append,
          ← whole] at h
        rcases h with here | later
        · exact ⟨e, known, here ▸ List.prefix_append _ _⟩
        · exact ih (suffix_of_append free later)
      · refine ih (suffix_of_append ?_ (written ▸ h))
        rw [List.mem_singleton]
        rintro rfl
        exact ordinary (by decide)

/-! Attributes read -/

variable {attributes : Attributes}

theorem notMem_of_isSafeName {name : Text} (safe : isSafeName name = true) :
    ∀ c ∈ codes "=<>\" ", c ∉ name := by
  have other : ∀ c ∈ codes "=<>\" ", c ∉ nameLater ∧ c ≠ 0x0A := by decide
  intro c special inside
  obtain ⟨later, line⟩ := other c special
  rcases isSafeName_iff.1 safe with proper | ⟨n, proper, rfl⟩
  · exact later (proper.formed.subset c inside)
  · rcases List.mem_append.1 inside with inside | inside
    · exact later (proper.formed.subset c inside)
    · exact line (List.mem_singleton.1 inside)

theorem readFrom_inName {later : Text} (free : ∀ c ∈ codes "= ", c ∉ later) (name rest : Text) :
    readFrom (.inName name) (later ++ 0x3D :: rest) =
      readFrom (.beforeValue (name ++ later)) rest := by
  induction later generalizing name with
  | nil => rw [List.append_nil]; rfl
  | cons c later ih =>
    have sign : c ≠ 0x3D := fun h => free 0x3D (by decide) (h ▸ List.mem_cons_self)
    have space : c ≠ 0x20 := fun h => free 0x20 (by decide) (h ▸ List.mem_cons_self)
    rw [List.cons_append, readFrom.eq_def]
    simp only [sign, space, if_false]
    rw [ih (fun d hd h => free d hd (List.mem_cons_of_mem c h)), List.append_assoc]
    rfl

theorem readFrom_inValue {later : Text} (free : 0x22 ∉ later) (name value rest : Text) :
    readFrom (.inValue name value) (later ++ 0x22 :: rest) =
      (readFrom .behind rest).map ((name, unescape (value ++ later)) :: ·) := by
  induction later generalizing value with
  | nil => rw [List.append_nil]; rfl
  | cons c later ih =>
    rw [List.mem_cons, not_or] at free
    rw [List.cons_append, readFrom.eq_def]
    simp only [Ne.symm free.1, if_false]
    rw [ih free.2, List.append_assoc]
    rfl

theorem readFrom_renderAttribute {a : Text × Text} (safe : isSafeName a.1 = true) (rest : Text) :
    readFrom (.inName []) (renderAttribute a ++ rest) = (readFrom .behind rest).map (a :: ·) := by
  have shape : renderAttribute a ++ rest =
      a.1 ++ 0x3D :: 0x22 :: (escape a.2 ++ 0x22 :: rest) := by
    simp [renderAttribute, codes]
  have name : ∀ c ∈ codes "= ", c ∉ a.1 := by
    have fewer : ∀ c ∈ codes "= ", c ∈ codes "=<>\" " := by decide
    exact fun c hc => notMem_of_isSafeName safe c (fewer c hc)
  have value : 0x22 ∉ escape a.2 := (enclosed_escape a.2).plain 0x22 (by decide)
  rw [shape, readFrom_inName name, List.nil_append]
  calc readFrom (.beforeValue a.1) (0x22 :: (escape a.2 ++ 0x22 :: rest))
      = readFrom (.inValue a.1 []) (escape a.2 ++ 0x22 :: rest) := rfl
    _ = (readFrom .behind rest).map ((a.1, unescape (escape a.2)) :: ·) :=
        readFrom_inValue value a.1 [] rest
    _ = (readFrom .behind rest).map (a :: ·) := by rw [unescape_escape]

def renderLater (attributes : Attributes) : Text :=
  attributes.flatMap fun a => 0x20 :: renderAttribute a

theorem join_renderAttribute (a : Text × Text) (later : Attributes) :
    Text.join (codes " ") ((a :: later).map renderAttribute) =
      renderAttribute a ++ renderLater later := by
  induction later generalizing a with
  | nil => simp [Text.join, renderLater]
  | cons b later ih =>
    have step : Text.join (codes " ") ((a :: b :: later).map renderAttribute) =
        renderAttribute a ++ codes " " ++ Text.join (codes " ") ((b :: later).map renderAttribute) :=
      List.intercalate_cons_cons
    rw [step, ih, List.append_assoc]
    rfl

theorem readFrom_renderLater (safe : ∀ a ∈ attributes, isSafeName a.1 = true) :
    readFrom .behind (renderLater attributes ++ codes "/>") = some attributes := by
  induction attributes with
  | nil => rfl
  | cons a later ih =>
    rw [List.forall_mem_cons] at safe
    have shape : renderLater (a :: later) ++ codes "/>" =
        0x20 :: (renderAttribute a ++ (renderLater later ++ codes "/>")) := by
      simp [renderLater]
    rw [shape]
    calc readFrom .behind (0x20 :: (renderAttribute a ++ (renderLater later ++ codes "/>")))
        = readFrom (.inName []) (renderAttribute a ++ (renderLater later ++ codes "/>")) := rfl
      _ = (readFrom .behind (renderLater later ++ codes "/>")).map (a :: ·) :=
          readFrom_renderAttribute safe.1 _
      _ = some (a :: later) := by rw [ih safe.2]; rfl

theorem readImage_renderImage (safe : ∀ a ∈ attributes, isSafeName a.1 = true) :
    readImage (renderImage attributes) = some attributes := by
  cases attributes with
  | nil => rfl
  | cons a later =>
    rw [List.forall_mem_cons] at safe
    have shape : renderImage (a :: later) =
        codes "<img " ++ (renderAttribute a ++ (renderLater later ++ codes "/>")) := by
      rw [renderImage, join_renderAttribute, List.append_assoc, List.append_assoc]
    have more : renderAttribute a ++ (renderLater later ++ codes "/>") ≠ codes "/>" := by
      intro same
      have short := congrArg List.length same
      simp [renderAttribute, codes] at short
      omega
    have begins : (codes "<img ").isPrefixOf (codes "<img " ++
        (renderAttribute a ++ (renderLater later ++ codes "/>"))) = true := by
      rw [List.isPrefixOf_iff_prefix]
      exact List.prefix_append _ _
    rw [shape, readImage, if_pos begins, List.drop_left, if_neg more,
      readFrom_renderAttribute safe.1, readFrom_renderLater safe.2]
    rfl

/-! What stands between the brackets of a tag -/

def inner (attributes : Attributes) : Text :=
  codes "img " ++ Text.join (codes " ") (attributes.map renderAttribute) ++ codes "/"

theorem renderImage_eq_inner (attributes : Attributes) :
    renderImage attributes = codes "<" ++ inner attributes ++ codes ">" := by
  simp [renderImage, inner, codes]

theorem count_join {c n : Nat} {parts : List Text} (apart : c ≠ 0x20)
    (each : ∀ p ∈ parts, p.count c = n) :
    (Text.join (codes " ") parts).count c = n * parts.length := by
  have space : (codes " ").count c = 0 :=
    List.count_eq_zero.2 fun h => apart (List.mem_singleton.1 h)
  induction parts with
  | nil => simp [Text.join]
  | cons p later ih =>
    rw [List.forall_mem_cons] at each
    cases later with
    | nil => simp [Text.join, each.1]
    | cons q later =>
      have step : Text.join (codes " ") (p :: q :: later) =
          p ++ codes " " ++ Text.join (codes " ") (q :: later) := List.intercalate_cons_cons
      have total : n * (p :: q :: later).length = n * (q :: later).length + n :=
        Nat.mul_succ n _
      rw [step, List.count_append, List.count_append, each.1, space, ih each.2, total]
      omega

theorem count_inner {c n : Nat} (apart : c ∉ codes "img /")
    (each : ∀ a ∈ attributes, (renderAttribute a).count c = n) :
    (inner attributes).count c = n * attributes.length := by
  have start : (codes "img ").count c = 0 := List.count_eq_zero.2 fun h =>
    apart ((by decide : ∀ d ∈ codes "img ", d ∈ codes "img /") c h)
  have stop : (codes "/").count c = 0 := List.count_eq_zero.2 fun h =>
    apart ((by decide : ∀ d ∈ codes "/", d ∈ codes "img /") c h)
  have space : c ≠ 0x20 := by
    rintro rfl
    exact apart (by decide)
  have joined := count_join space (List.forall_mem_map.2 each)
  rw [inner, List.count_append, List.count_append, start, stop, joined, List.length_map]
  omega

theorem count_renderAttribute {a : Text × Text} {c : Nat} (safe : isSafeName a.1 = true)
    (special : c ∈ codes "<>\"") :
    (renderAttribute a).count c = if c = 0x22 then 2 else 0 := by
  have listed : ∀ d ∈ codes "<>\"", d ∈ codes "=<>\" " ∧ d ∈ codes "<>\"'" ∧
    (codes "=\"" ++ codes "\"").count d = if d = 0x22 then 2 else 0 := by decide
  obtain ⟨inName, inValue, around⟩ := listed c special
  have name : a.1.count c = 0 := List.count_eq_zero.2 (notMem_of_isSafeName safe c inName)
  have value : (escape a.2).count c = 0 :=
    List.count_eq_zero.2 ((enclosed_escape a.2).plain c inValue)
  rw [List.count_append] at around
  rw [renderAttribute, List.count_append, List.count_append, List.count_append, name, value]
  omega

/-- What is rendered is one tag: no value ends its quotation marks or the tag, and reading it gives
back the names and the values, so two lists of attributes are never rendered alike. -/
theorem renderImage_readable (safe : ∀ a ∈ attributes, isSafeName a.1 = true) :
    (∀ a ∈ attributes, Enclosed (escape a.2)) ∧
    (∃ inner, renderImage attributes = codes "<" ++ inner ++ codes ">" ∧
      0x3C ∉ inner ∧ 0x3E ∉ inner ∧ inner.count 0x22 = 2 * attributes.length) ∧
    readImage (renderImage attributes) = some attributes ∧
    ∀ others : Attributes, (∀ a ∈ others, isSafeName a.1 = true) →
      renderImage others = renderImage attributes → others = attributes := by
  have marks {c : Nat} (special : c ∈ codes "<>\"") (apart : c ∉ codes "img /") :=
    count_inner apart fun a ha => count_renderAttribute (safe a ha) special
  have back := readImage_renderImage safe
  refine ⟨fun a _ => enclosed_escape a.2, ⟨inner attributes, renderImage_eq_inner attributes,
    ?_, ?_, ?_⟩, back, ?_⟩
  · exact List.count_eq_zero.1 ((marks (c := 0x3C) (by decide) (by decide)).trans (Nat.zero_mul _))
  · exact List.count_eq_zero.1 ((marks (c := 0x3E) (by decide) (by decide)).trans (Nat.zero_mul _))
  · exact marks (c := 0x22) (by decide) (by decide)
  · intro others safe' same
    rw [← same, readImage_renderImage safe'] at back
    exact Option.some.inj back

/-- A name with a line break after it, and values that look like entities and like another tag. -/
theorem renderImage_readable_lookalikes :
    let attributes : Attributes := [(codes "title\n", codes "&amp;#39;\" src='x'/><img "),
      (codes "xml:lang", []), (codes "xml:lang", codes "\"&quot")]
    (∀ a ∈ attributes, isSafeName a.1 = true) ∧
      readImage (renderImage attributes) = some attributes :=
  have safe := by decide
  ⟨safe, (renderImage_readable safe).2.2.1⟩

end Pictograph.Markup
