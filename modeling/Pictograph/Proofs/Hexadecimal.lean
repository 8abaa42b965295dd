import Mathlib.Data.List.TakeWhile
import Mathlib.Data.Nat.Digits.Defs
import Pictograph.CodePoint
import Pictograph.Proofs.Traversal

/-!
Numbers in hexadecimal digits, one by one and in a row with a dash between each two. The row is
split at its dashes into the numerals, each numeral is read back as its number, and no two rows are
written alike.
-/

namespace Pictograph

namespace Text

def hexits : Text := codes "0123456789abcdef"

theorem mem_hexits_digitChar {d : Nat} (h : d < 16) : d.digitChar.toNat ∈ hexits := by
  revert d
  decide

theorem hex_of_lt {d : Nat} (h : d < 16) : hex d = [d.digitChar.toNat] := by
  rw [hex, Nat.toDigits_of_lt_base h]
  rfl

theorem hex_append {n d : Nat} (pos : 0 < n) (h : d < 16) : hex (16 * n + d) = hex n ++ hex d := by
  rw [hex, ← Nat.toDigits_append_toDigits (by decide) pos h, List.map_append]
  rfl

theorem hex_ne_nil (n : Nat) : hex n ≠ [] := by
  rw [hex, ne_eq, List.map_eq_nil_iff]
  exact Nat.toDigits_ne_nil

theorem hex_subset (n : Nat) : hex n ⊆ hexits := by
  induction n using Nat.base_induction 16 (by decide) with
  | single d h =>
    rw [hex_of_lt h, List.cons_subset]
    exact ⟨mem_hexits_digitChar h, List.nil_subset _⟩
  | digit n d h pos ih =>
    rw [hex_append pos h, hex_of_lt h, List.append_subset, List.cons_subset]
    exact ⟨ih, mem_hexits_digitChar h, List.nil_subset _⟩

/-! Parts between separators -/

variable {sep : Nat} {t p : Text} {parts : List Text}

theorem split_of_notMem (h : sep ∉ p) : split sep p = [p] := by
  induction p with
  | nil => rfl
  | cons c p ih =>
    rw [List.mem_cons, not_or] at h
    rw [split, if_neg (Ne.symm h.1), ih h.2]

theorem split_append_cons (h : sep ∉ p) (t : Text) :
    split sep (p ++ sep :: t) = p :: split sep t := by
  induction p with
  | nil => exact if_pos rfl
  | cons c p ih =>
    rw [List.mem_cons, not_or] at h
    rw [List.cons_append, split, if_neg (Ne.symm h.1), ih h.2]

theorem split_join (ne : parts ≠ []) (h : ∀ p ∈ parts, sep ∉ p) :
    split sep (join [sep] parts) = parts := by
  induction parts with
  | nil => exact absurd rfl ne
  | cons p rest ih =>
    rw [List.forall_mem_cons] at h
    cases rest with
    | nil =>
      have alone : join [sep] [p] = p := List.intercalate_singleton
      rw [alone, split_of_notMem h.1]
    | cons q rest =>
      have step : join [sep] (p :: q :: rest) = p ++ sep :: join [sep] (q :: rest) := by
        simp [join]
      rw [step, split_append_cons h.1, ih (by simp) h.2]

def dashed (numbers : List Nat) : Text := join (codes "-") (numbers.map hex)

variable {numbers : List Nat}

theorem split_dashed (ne : numbers ≠ []) : split 0x2D (dashed numbers) = numbers.map hex := by
  refine split_join (by simpa using ne) (List.forall_mem_map.2 fun n _ dash => ?_)
  exact absurd (hex_subset n dash) (by decide)

theorem fields_dashed (numbers : List Nat) : fields 0x2D (dashed numbers) = numbers.map hex := by
  cases numbers with
  | nil => rfl
  | cons n rest =>
    rw [fields, split_dashed (by simp), List.filter_eq_self]
    exact List.forall_mem_map.2 fun m _ => by simpa using hex_ne_nil m

theorem dashed_subset (numbers : List Nat) : dashed numbers ⊆ codes "-" ++ hexits := by
  intro c hc
  induction numbers with
  | nil => cases hc
  | cons n rest ih =>
    have digits : hex n ⊆ codes "-" ++ hexits :=
      List.subset_append_of_subset_right _ (hex_subset n)
    cases rest with
    | nil =>
      have alone : dashed [n] = hex n := by simp [dashed, join]
      exact digits (alone ▸ hc)
    | cons m rest =>
      have step : dashed (n :: m :: rest) = hex n ++ codes "-" ++ dashed (m :: rest) :=
        List.intercalate_cons_cons
      rw [step, List.mem_append, List.mem_append] at hc
      rcases hc with (front | dash) | later
      · exact digits front
      · exact List.mem_append_left _ dash
      · exact ih later

theorem dropEnds_eq_self {drops : Nat → Bool} (h : ∀ c ∈ t, drops c = false) :
    ((t.dropWhile drops).reverse.dropWhile drops).reverse = t := by
  have kept : ∀ t : Text, (∀ c ∈ t, drops c = false) → t.dropWhile drops = t := by
    intro t h
    rw [List.dropWhile_eq_self_iff]
    exact fun some => by simp [h _ (List.getElem_mem some)]
  rw [kept t h, kept t.reverse fun c hc => h c (List.mem_reverse.1 hc), List.reverse_reverse]

theorem trim_dashed (numbers : List Nat) : trim (dashed numbers) = dashed numbers := by
  have solid : ∀ c ∈ codes "-" ++ hexits, isBlank c = false := by decide
  exact dropEnds_eq_self fun c hc => solid c (dashed_subset numbers hc)

end Text

namespace Decimal

open Text

variable {t : Text} {ds : List Nat}

theorem digit?_digitChar {d : Nat} (h : d < 16) : digit? 16 d.digitChar.toNat = some d := by
  revert d
  decide

theorem digits?_of_subset (ne : t ≠ []) (h : t ⊆ hexits) : digits? 16 t = t.mapM (digit? 16) := by
  induction t with
  | nil => exact absurd rfl ne
  | cons c rest ih =>
    cases rest with
    | nil =>
      rw [digits?, List.mapM_cons, List.mapM_nil]
      cases digit? 16 c <;> rfl
    | cons d rest =>
      rw [List.cons_subset] at h
      have noUnderscore : d ≠ 0x5F := by
        rintro rfl
        exact absurd (h.2 List.mem_cons_self) (by decide)
      rw [List.mapM_cons, ← ih (by simp) h.2]
      simp [digits?, noUnderscore]

theorem exists_digits_hex (n : Nat) :
    ∃ ds, digits? 16 (hex n) = some ds ∧ ofDigits 16 ds = n := by
  rw [digits?_of_subset (hex_ne_nil n) (hex_subset n)]
  induction n using Nat.base_induction 16 (by decide) with
  | single d h =>
    refine ⟨[d], ?_, by simp [ofDigits]⟩
    simp [hex_of_lt h, digit?_digitChar h]
  | digit n d h pos ih =>
    obtain ⟨ds, read, value⟩ := ih
    refine ⟨ds ++ [d], ?_, ?_⟩
    · simp [hex_append pos h, hex_of_lt h, List.mapM_append, read, digit?_digitChar h]
    · rw [ofDigits, List.foldl_append, ← ofDigits, value, Nat.mul_comm]
      rfl

theorem plain_of_subset (h : t ⊆ hexits) : plain t = t := by
  have fixed : ∀ c ∈ hexits, plainChar c = c ∧ isPadding c = false := by decide
  have same : t.map plainChar = t := by
    conv_rhs => rw [← List.map_id t]
    exact List.map_congr_left fun c hc => (fixed c (h hc)).1
  rw [plain, same]
  exact dropEnds_eq_self fun c hc => (fixed c (h hc)).2

theorem takeSign_of_subset (h : t ⊆ hexits) : takeSign t = (false, t) := by
  unfold takeSign
  split
  · exact absurd (h List.mem_cons_self) (by decide)
  · exact absurd (h List.mem_cons_self) (by decide)
  · rfl

theorem dropMark_of_subset (h : t ⊆ hexits) : dropMark t = t := by
  have second : ∀ {c d : Nat} {rest : Text}, c :: d :: rest ⊆ hexits → d ∈ hexits :=
    fun sub => sub (List.mem_cons_of_mem _ List.mem_cons_self)
  unfold dropMark
  split
  · exact absurd (second h) (by decide)
  · exact absurd (second h) (by decide)
  · exact absurd (second h) (by decide)
  · exact absurd (second h) (by decide)
  · rfl

theorem run_of_subset (h : t ⊆ hexits) : run 16 t = t := by
  have digit : ∀ c ∈ hexits, (c == 0x5F || (digit? 16 c).isSome) = true := by decide
  exact List.takeWhile_eq_self_iff.2 fun c hc => digit c (h hc)

theorem readInt_of_subset (h : t ⊆ hexits) (read : digits? 16 t = some ds) :
    readInt 16 t = .ok (ofDigits 16 ds) := by
  simp [readInt, plain_of_subset h, takeSign_of_subset h, dropMark_of_subset h, run_of_subset h,
    read]

@[simp] theorem readInt_hex (n : Nat) : readInt 16 (hex n) = .ok (n : Int) := by
  obtain ⟨ds, read, value⟩ := exists_digits_hex n
  rw [readInt_of_subset (hex_subset n) read, value]

end Decimal

namespace Text

theorem mapM_readInt_fields_dashed (numbers : List Nat) :
    (fields 0x2D (dashed numbers)).mapM (Decimal.readInt 16) =
      .ok (numbers.map fun n : Nat => (n : Int)) := by
  rw [fields_dashed, Traversal.mapM_eq_ok_iff, List.forall₂_map_left_iff,
    List.forall₂_map_right_iff, List.forall₂_same]
  exact fun n _ => Decimal.readInt_hex n

/-- No two rows of numbers are written alike. -/
theorem dashed_injective : Function.Injective dashed := by
  intro ms ns same
  have read := mapM_readInt_fields_dashed ms
  rw [same, mapM_readInt_fields_dashed, Except.ok.injEq] at read
  exact (List.map_injective_iff.2 Nat.cast_injective read).symm

end Text

end Pictograph
