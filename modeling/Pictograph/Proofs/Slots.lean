import Mathlib.Data.List.Nodup
import Pictograph.Proofs.Rows

/-!
Emoji of two people with templates as texts. A template is read as characters and slots for skin
tones. The forms for all pairs of tones are in the order of the tones, a tone in every slot, and the
forms for two different tones are different if there are two slots for them.
-/

namespace Pictograph

/-- What a template holds: characters, and slots for skin tones. -/
abbrev Slots := List (Option Char)

namespace Slots

/-- Does the part of a text stand for a slot, or for a character by its number? -/
def Spells (part : Text) : Option Char → Prop
  | none => Text.lower part = codes "skintone"
  | some c => Text.lower part ≠ codes "skintone" ∧ Decimal.readInt 16 part = .ok (c.toNat : Int)

instance : DecidableRel Spells
  | _, none => inferInstanceAs (Decidable (_ = _))
  | _, some _ => inferInstanceAs (Decidable (_ ∧ _))

/-- The text is a template of these characters and slots, between dashes. -/
structure Written (t : Text) (slots : Slots) : Prop where
  ne : slots ≠ []
  parts : List.Forall₂ Spells (Text.fields 0x2D (Text.trim t)) slots

def token : Option Char → Token
  | none => .slot
  | some c => .code c.toNat

def numbers (slots : Slots) : List (Option Int) := slots.map (Option.map fun c => (c.toNat : Int))

def fillAll (tone : Char) (slots : Slots) : List Char := slots.map (·.getD tone)

/-- A tone in the first slot, and another one in every later slot. -/
def fill (first later : Char) : Slots → List Char
  | [] => []
  | some c :: rest => c :: fill first later rest
  | none :: rest => first :: fillAll later rest

variable {slots : Slots} {t t' u u' : Char}

theorem codes_map_token (slots : Slots) : Template.codes (slots.map token) = slots.numbers := by
  rw [Template.codes, List.map_map]
  refine List.map_congr_left fun slot _ => ?_
  cases slot <;> rfl

theorem numbers_injective : Function.Injective numbers :=
  List.map_injective_iff.2 (Option.map_injective fun _ _ => number_injective)

theorem same_map_token {slots slots' : Slots} :
    Template.same (slots.map token) (slots'.map token) = true ↔ slots = slots' := by
  rw [Template.same_iff, codes_map_token, codes_map_token, numbers_injective.eq_iff]

theorem read_of_spells {part : Text} {slot : Option Char} (h : Spells part slot) (key : Text) :
    Token.read key (.text part) = .ok (token slot) := by
  cases slot with
  | none => exact if_pos h
  | some c =>
    obtain ⟨noSlot, number⟩ := h
    have read : (Value.text part).write Value.display >>= Decimal.readInt 16 = .ok c.toNat := number
    simp only [Token.read, if_neg noSlot, Token.read.number, read]
    rfl

theorem Written.read {text : Text} (h : Written text slots) (key : Text) :
    Template.read (.text text) key = .ok (some (slots.map token)) := by
  have all : ((Text.fields 0x2D (Text.trim text)).map Value.text).mapM (Token.read key) =
      .ok (slots.map token) := by
    rw [Traversal.mapM_eq_ok_iff, List.forall₂_map_left_iff, List.forall₂_map_right_iff]
    exact h.parts.imp fun part slot spells => read_of_spells spells key
  have some : (slots.map token).isEmpty = false := by simpa using h.ne
  simp only [Template.read, Template.tokens, bind, Except.bind, all, some]
  rfl

/-! Slots filled -/

theorem fill_self (t : Char) (slots : Slots) : fill t t slots = fillAll t slots := by
  induction slots with
  | nil => rfl
  | cons slot rest ih =>
    cases slot with
    | none => rfl
    | some c => exact congrArg (c :: ·) ih

theorem numbersWith_one (t : Char) (slots : Slots) :
    Template.numbersWith t.toNat [] slots.numbers =
      (fillAll t slots).map fun c => (c.toNat : Int) := by
  induction slots with
  | nil => rfl
  | cons slot rest ih =>
    cases slot with
    | none => exact congrArg ((t.toNat : Int) :: ·) ih
    | some c => exact congrArg ((c.toNat : Int) :: ·) ih

theorem numbersWith_two (t t' : Char) (slots : Slots) :
    Template.numbersWith t.toNat [(t'.toNat : Int)] slots.numbers =
      (fill t t' slots).map fun c => (c.toNat : Int) := by
  induction slots with
  | nil => rfl
  | cons slot rest ih =>
    cases slot with
    | none => exact congrArg ((t.toNat : Int) :: ·) (numbersWith_one t' rest)
    | some c => exact congrArg ((c.toNat : Int) :: ·) ih

theorem eq_of_fillAll (slot : none ∈ slots) (same : fillAll t slots = fillAll u slots) : t = u :=
  List.map_inj_left.1 same none slot

theorem eq_of_fill (two : 2 ≤ slots.count none) (same : fill t t' slots = fill u u' slots) :
    t = u ∧ t' = u' := by
  induction slots with
  | nil => simp at two
  | cons slot rest ih =>
    cases slot with
    | some c => exact ih (by simpa using two) (List.cons.inj same).2
    | none =>
      obtain ⟨first, later⟩ := List.cons.inj same
      rw [List.count_cons_self] at two
      exact ⟨first, eq_of_fillAll (List.count_pos_iff.1 (by omega)) later⟩

end Slots

namespace Entry

def toneAt (i : Fin 5) : Char := skinTones.get i

theorem toneNumber_toneAt : ∀ i : Fin 5, toneNumber i = ((toneAt i).toNat : Int) := by decide

theorem toneAt_injective : Function.Injective toneAt := by
  have distinct : skinTones.Nodup := by decide
  exact List.nodup_iff_injective_get.1 distinct

def placePairs : List (Fin 5 × Fin 5) :=
  (List.finRange 5).flatMap fun i => (List.finRange 5).map fun j => (i, j)

theorem tonePairs_eq : tonePairs = placePairs.map fun p => (p.1.val, p.2.val) := by decide

theorem getElem?_placePairs : ∀ i j : Fin 5, placePairs[5 * i.val + j.val]? = some (i, j) := by
  decide

/-- The form of an emoji of two people with the tones at two places. Of the pairs of a sorted
template, a picker shows those with the first tone not lighter than the second. -/
def pairForm (sameTone : Option Slots) (twoTones : Slots) (sorted : Bool) (p : Fin 5 × Fin 5) :
    Sequence where
  points :=
    if p.1 = p.2 then (sameTone.getD twoTones).fillAll (toneAt p.1)
    else twoTones.fill (toneAt p.1) (toneAt p.2)
  shown := !(sorted && decide (p.1 < p.2))

/-- An entry of two people with templates of these characters and slots. -/
structure Paired (e : Entry) (sameTone : Option Slots) (twoTones : Slots) : Prop where
  kind : e.kind = .multiDiversity
  sameTone : e.sameTone = sameTone.map (List.map Slots.token)
  twoTones : e.twoTones = some (twoTones.map Slots.token)

variable {e : Entry} {sameTone : Option Slots} {twoTones : Slots}

theorem filled_one (slots : Slots) (i : Fin 5) (shown : Bool) :
    filled (slots.map Slots.token) [toneNumber i] shown =
      .ok ⟨slots.fillAll (toneAt i), shown⟩ := by
  rw [filled_eq, Slots.codes_map_token, toneNumber_toneAt, Slots.numbersWith_one, scalars_ofChars]
  rfl

theorem filled_two (slots : Slots) (i j : Fin 5) (shown : Bool) :
    filled (slots.map Slots.token) [toneNumber i, toneNumber j] shown =
      .ok ⟨slots.fill (toneAt i) (toneAt j), shown⟩ := by
  rw [filled_eq, Slots.codes_map_token, toneNumber_toneAt, toneNumber_toneAt,
    Slots.numbersWith_two, scalars_ofChars]
  rfl

theorem Paired.withTones_eq (h : e.Paired sameTone twoTones) (p : Fin 5 × Fin 5) :
    e.withTones (twoTones.map Slots.token) p.1 p.2 =
      .ok (pairForm sameTone twoTones e.sorted p) := by
  obtain ⟨i, j⟩ := p
  have both : filled (twoTones.map Slots.token) [toneNumber i, toneNumber j]
      (j.val ≤ i.val || !e.sorted) = .ok (pairForm none twoTones e.sorted (i, j)) := by
    have shown : (decide (j.val ≤ i.val) || !e.sorted) = !(e.sorted && decide (i < j)) := by
      rw [Bool.not_and, Bool.or_comm, ← decide_not]
      simp only [Fin.not_lt, Fin.le_def]
    rw [filled_two, shown, pairForm]
    by_cases one : i = j
    · subst one
      rw [Slots.fill_self, if_pos rfl]
      rfl
    · rw [if_neg one]
  unfold withTones
  rw [h.sameTone]
  cases sameTone with
  | none => exact both
  | some slots =>
    have other : (!Template.same (slots.map Slots.token) (twoTones.map Slots.token)) = true ↔
        slots ≠ twoTones := by
      rw [Bool.not_eq_true', ← Bool.not_eq_true, Slots.same_map_token]
    simp only [Option.map_some, other, Fin.val_inj]
    by_cases one : i = j ∧ slots ≠ twoTones
    · obtain ⟨rfl, differs⟩ := one
      rw [if_pos ⟨rfl, differs⟩, filled_one]
      simp [pairForm]
    · -- The template for one tone is not looked at, or is the same one.
      have form : pairForm (some slots) twoTones e.sorted (i, j) =
          pairForm none twoTones e.sorted (i, j) := by
        by_cases here : i = j
        · have same : slots = twoTones := by
            by_contra differs
            exact one ⟨here, differs⟩
          rw [same]
          rfl
        · simp only [pairForm, if_neg here]
      rw [if_neg one, form]
      exact both

theorem Paired.renderings_eq (h : e.Paired sameTone twoTones) :
    e.renderings = .ok (e.base :: placePairs.map (pairForm sameTone twoTones e.sorted)) := by
  have all : tonePairs.mapM (fun p => e.withTones (twoTones.map Slots.token) p.1 p.2) =
      .ok (placePairs.map (pairForm sameTone twoTones e.sorted)) := by
    rw [tonePairs_eq, List.mapM_map]
    exact Traversal.mapM_eq_ok fun p _ => h.withTones_eq p
  rw [renderings, h.kind, h.twoTones]
  simp only [bind, Except.bind, all]
  rfl

end Entry

namespace Row

/-- A row of an emoji of two people: its points, and its templates, which are texts. The template
for one tone may be missing. -/
structure Paired (cells : Cells) (base : Sequence) (sameTone : Option Slots) (twoTones : Slots) :
    Prop where
  points : Entry.readCodes cells = .ok base
  kind : Kind.read (Value.member (codes "type") cells) base.key = .ok .multiDiversity
  sameTone : match sameTone with
    | none => Value.member (codes "multi_diversity_base_same") cells = .null
    | some slots => ∃ t, Value.member (codes "multi_diversity_base_same") cells = .text t ∧
        slots.Written t
  twoTones : ∃ t, Value.member (codes "multi_diversity_base_different") cells = .text t ∧
    twoTones.Written t
  description : ∃ t, Entry.cellText (Value.member (codes "description") cells) = .ok t
  keywords : ∃ words, Entry.readKeywords (Value.member (codes "keywords") cells) = .ok words

variable {cells : Cells} {base : Sequence} {sameTone : Option Slots} {twoTones : Slots}

theorem Paired.ofRow (h : Paired cells base sameTone twoTones) :
    ∃ e, Entry.ofRow (.object cells) = .ok e ∧ e.Paired sameTone twoTones ∧
      e.base = { base with
        shown := !(Value.member (codes "exclude_from_picker") cells).truthy } ∧
      e.sorted =
        (Value.member (codes "multi_diversity_base_different_is_sorted") cells).truthy := by
  obtain ⟨points, kind, same, ⟨t, given, written⟩, ⟨shown, description⟩, words, keywords⟩ := h
  have two := written.read base.key
  rw [← given] at two
  have one : Template.read (Value.member (codes "multi_diversity_base_same") cells) base.key =
      .ok (sameTone.map (List.map Slots.token)) := by
    cases sameTone with
    | none =>
      rw [same]
      rfl
    | some slots =>
      obtain ⟨t', given', written'⟩ := same
      rw [given']
      exact written'.read base.key
  have read : Entry.ofRow (.object cells) = .ok
      { base := { base with shown := !(Value.member (codes "exclude_from_picker") cells).truthy }
        kind := .multiDiversity
        sameTone := sameTone.map (List.map Slots.token)
        twoTones := some (twoTones.map Slots.token)
        sorted :=
          (Value.member (codes "multi_diversity_base_different_is_sorted") cells).truthy
        description := shown
        keywords := words
        excluded := (Value.member (codes "exclude_from_picker") cells).truthy } := by
    unfold Entry.ofRow
    simp only [points, kind, one, two, description, keywords, bind, Except.bind]
    rfl
  exact ⟨_, read, ⟨rfl, rfl, rfl⟩, rfl, rfl⟩

end Row

end Pictograph
