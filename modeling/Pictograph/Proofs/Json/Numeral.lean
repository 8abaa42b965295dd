import Mathlib.Data.List.Basic
import Mathlib.Tactic.IntervalCases
import Pictograph.Proofs.Decimal.Digits

/-!
Numerals of JSON: a minus sign at most, a whole number without zeros in front, and then maybe a
fraction and an exponent. The texts of whole numbers and of all finite floating-point numbers are
such numerals.
-/

namespace Pictograph.Json

def isDigit (c : Nat) : Bool := 0x30 ≤ c && c ≤ 0x39

inductive Stage where
  | start
  | minus
  /-- The whole part is a single zero. -/
  | zero
  | whole
  | point
  | fraction
  | mark
  | sign
  | exponent
  deriving DecidableEq, Repr

namespace Stage

def wholePart (c : Nat) : Option Stage :=
  if c = 0x30 then some zero else if isDigit c then some whole else none

/-- What may follow a part with digits: a point, unless it has one, or the mark of an exponent. -/
def behind (pointed : Bool) (c : Nat) : Option Stage :=
  if c = 0x2E ∧ pointed = false then some point
  else if c = 0x65 ∨ c = 0x45 then some mark
  else none

def next : Stage → Nat → Option Stage
  | start, c => if c = 0x2D then some minus else wholePart c
  | minus, c => wholePart c
  | zero, c => behind false c
  | whole, c => if isDigit c then some whole else behind false c
  | point, c => if isDigit c then some fraction else none
  | fraction, c => if isDigit c then some fraction else behind true c
  | mark, c =>
    if c = 0x2B ∨ c = 0x2D then some sign else if isDigit c then some exponent else none
  | sign, c => if isDigit c then some exponent else none
  | exponent, c => if isDigit c then some exponent else none

def final : Stage → Bool
  | zero | whole | fraction | exponent => true
  | _ => false

def run (s : Stage) (t : Text) : Option Stage := t.foldlM next s

theorem run_cons (s : Stage) (c : Nat) (t : Text) : s.run (c :: t) = (s.next c).bind (·.run t) :=
  rfl

theorem run_append (s : Stage) (t u : Text) :
    s.run (t ++ u) = (s.run t).bind (·.run u) := List.foldlM_append

end Stage

def isNumeral (t : Text) : Bool := (Stage.start.run t).any Stage.final

example : isNumeral (codes "-0.5e+10") = true := by decide
example : isNumeral (codes "01") = false := by decide
example : isNumeral (codes "1.") = false := by decide

/-! ## Characters -/

def alphabet : Text := codes "0123456789-+.eE"

theorem mem_alphabet_of_isDigit {c : Nat} (h : isDigit c = true) : c ∈ alphabet := by
  simp only [isDigit, Bool.and_eq_true, decide_eq_true_eq] at h
  obtain ⟨low, high⟩ := h
  interval_cases c <;> decide

theorem Stage.mem_alphabet_of_next {a b : Stage} {c : Nat} (h : a.next c = some b) :
    c ∈ alphabet := by
  have known : isDigit c = true ∨ c ∈ codes "-+.eE" := by
    cases a <;> simp only [next, wholePart, behind] at h <;>
      split_ifs at h <;> simp_all [codes] <;> tauto
  have marks : ∀ d ∈ codes "-+.eE", d ∈ alphabet := by decide
  exact known.elim mem_alphabet_of_isDigit (marks c)

theorem Stage.mem_alphabet_of_run {a b : Stage} {t : Text} (h : a.run t = some b) :
    ∀ c ∈ t, c ∈ alphabet := by
  induction t generalizing a with
  | nil => exact List.forall_mem_nil _
  | cons c t ih =>
    obtain ⟨stage, next, later⟩ := Option.bind_eq_some_iff.1 h
    exact List.forall_mem_cons.2 ⟨mem_alphabet_of_next next, ih later⟩

theorem mem_alphabet {t : Text} (h : isNumeral t = true) : ∀ c ∈ t, c ∈ alphabet := by
  cases run : Stage.start.run t with
  | none =>
    rw [isNumeral, run] at h
    cases h
  | some b => exact Stage.mem_alphabet_of_run run

/-! ## Runs of digits -/

def Unsigned (t : Text) : Prop := (Stage.minus.run t).any Stage.final = true

theorem unsigned_of_run {t : Text} {s : Stage} (run : Stage.minus.run t = some s)
    (final : s.final = true) : Unsigned t := by
  rw [Unsigned, run]
  exact final

def AllDigits (t : Text) : Prop := ∀ c ∈ t, isDigit c = true

structure Leading (t : Text) : Prop where
  digits : AllDigits t
  first : ∃ c rest, t = c :: rest ∧ c ≠ 0x30

variable {t u : Text} {s s' : Stage}

theorem allDigits_append : AllDigits (t ++ u) ↔ AllDigits t ∧ AllDigits u := List.forall_mem_append

theorem allDigits_zeros (n : Nat) : AllDigits (List.replicate n 0x30) := by
  intro c hc
  rw [(List.mem_replicate.1 hc).2]
  rfl

theorem Leading.ne_nil (h : Leading t) : t ≠ [] := by
  obtain ⟨c, rest, rfl, -⟩ := h.first
  exact List.cons_ne_nil c rest

theorem Leading.append (h : Leading t) (more : AllDigits u) : Leading (t ++ u) := by
  obtain ⟨c, rest, rfl, first⟩ := h.first
  exact ⟨allDigits_append.2 ⟨h.digits, more⟩, c, rest ++ u, rfl, first⟩

theorem Leading.take (h : Leading t) {n : Nat} (pos : 0 < n) : Leading (t.take n) := by
  obtain ⟨c, rest, rfl, first⟩ := h.first
  refine ⟨fun d hd => h.digits d (List.mem_of_mem_take hd), c, rest.take (n - 1), ?_, first⟩
  rw [List.take_cons pos]

namespace Stage

def Stays (s : Stage) : Prop := ∀ c, isDigit c = true → s.next c = some s

theorem stays_whole : Stays whole := fun _ h => if_pos h
theorem stays_fraction : Stays fraction := fun _ h => if_pos h
theorem stays_exponent : Stays exponent := fun _ h => if_pos h

theorem run_digits (stays : s.Stays) (digits : AllDigits t) : s.run t = some s := by
  induction t with
  | nil => rfl
  | cons c t ih =>
    obtain ⟨first, rest⟩ := List.forall_mem_cons.1 digits
    rw [run_cons, stays c first]
    exact ih rest

theorem run_digits_of_ne_nil (enters : ∀ c, isDigit c = true → s.next c = some s')
    (stays : s'.Stays) (digits : AllDigits t) (ne : t ≠ []) : s.run t = some s' := by
  cases t with
  | nil => exact absurd rfl ne
  | cons c t =>
    obtain ⟨first, rest⟩ := List.forall_mem_cons.1 digits
    rw [run_cons, enters c first]
    exact run_digits stays rest

theorem run_point (digits : AllDigits t) (ne : t ≠ []) : point.run t = some fraction :=
  run_digits_of_ne_nil (fun _ h => if_pos h) stays_fraction digits ne

theorem run_sign (digits : AllDigits t) (ne : t ≠ []) : sign.run t = some exponent :=
  run_digits_of_ne_nil (fun _ h => if_pos h) stays_exponent digits ne

theorem run_leading (h : Leading t) : minus.run t = some whole := by
  obtain ⟨digits, c, rest, rfl, first⟩ := h
  obtain ⟨digit, rest⟩ := List.forall_mem_cons.1 digits
  have enters : minus.next c = some whole := by simp [next, wholePart, first, digit]
  rw [run_cons, enters]
  exact run_digits stays_whole rest

end Stage

/-! ## Signs -/

theorem isNumeral_minus (h : Unsigned t) : isNumeral (0x2D :: t) = true := h

theorem isNumeral_of_unsigned (h : Unsigned t) : isNumeral t = true := by
  cases t with
  | nil => cases h
  | cons c t =>
    -- A minus sign cannot follow another one.
    have other : c ≠ 0x2D := by
      rintro rfl
      cases h
    have same : Stage.start.next c = Stage.minus.next c := if_neg other
    rw [isNumeral, Stage.run_cons, same]
    exact h

/-! ## Whole numbers -/

theorem isDigit_digitChar {d : Nat} (h : d < 10) : isDigit d.digitChar.toNat = true := by
  revert d
  decide

theorem allDigits_decimal (n : Nat) : AllDigits (Text.decimal n) := by
  induction n using Nat.strong_induction_on with
  | _ n ih =>
    rw [Text.decimal, Nat.toDigits_eq_if (by decide)]
    split
    · next less => exact List.forall_mem_singleton.2 (isDigit_digitChar less)
    · rw [List.map_append, allDigits_append]
      exact ⟨ih _ (by omega),
        List.forall_mem_singleton.2 (isDigit_digitChar (Nat.mod_lt n (by decide)))⟩

theorem decimal_ne_nil (n : Nat) : Text.decimal n ≠ [] := by
  simp [Text.decimal]

theorem leading_decimal {n : Nat} (h : 0 < n) : Leading (Text.decimal n) := by
  induction n using Nat.strong_induction_on with
  | _ n ih =>
    by_cases less : n < 10
    · refine ⟨allDigits_decimal n, n.digitChar.toNat, [], ?_, ?_⟩
      · rw [Text.decimal, Nat.toDigits_of_lt_base less]
        rfl
      · have first : ∀ d < 10, 0 < d → d.digitChar.toNat ≠ 0x30 := by decide
        exact first n less h
    · have split : Text.decimal n = Text.decimal (n / 10) ++ [(n % 10).digitChar.toNat] := by
        rw [Text.decimal, Nat.toDigits_of_base_le (by decide) (by omega), List.map_append]
        rfl
      rw [split]
      exact (ih _ (by omega) (by omega)).append
        (List.forall_mem_singleton.2 (isDigit_digitChar (Nat.mod_lt n (by decide))))

theorem unsigned_decimal (n : Nat) : Unsigned (Text.decimal n) := by
  rcases Nat.eq_zero_or_pos n with rfl | pos
  · rfl
  · exact unsigned_of_run (Stage.run_leading (leading_decimal pos)) rfl

theorem isNumeral_ofInt (n : Int) : isNumeral (Text.ofInt n) = true := by
  unfold Text.ofInt
  split
  · exact isNumeral_minus (unsigned_decimal _)
  · exact isNumeral_of_unsigned (unsigned_decimal _)

/-! ## Floating-point numbers -/

open Decimal

theorem allDigits_padZeros (width : Nat) (h : AllDigits t) : AllDigits (Text.padZeros width t) :=
  allDigits_append.2 ⟨allDigits_zeros _, h⟩

theorem run_exponent (marks : s.next 0x65 = some .mark) (layout : Layout) (e : Int) :
    s.run (layout.exponent e) = some .exponent := by
  have opening : s.run (codes (if e < 0 then "e-" else "e+")) = some .sign := by
    split
    · exact congrArg (·.bind (·.run [0x2D])) marks
    · exact congrArg (·.bind (·.run [0x2B])) marks
  have digits : Stage.sign.run (Text.padZeros layout.exponentWidth (Text.decimal e.natAbs)) =
      some .exponent := by
    refine Stage.run_sign (allDigits_padZeros _ (allDigits_decimal _)) ?_
    exact List.append_ne_nil_of_right_ne_nil _ (decimal_ne_nil _)
  rw [Layout.exponent, Stage.run_append, opening]
  exact digits

theorem run_fraction (whole : s.next 0x2E = some .point) (digits : AllDigits t) (ne : t ≠ []) :
    s.run (0x2E :: t) = some .fraction := by
  rw [Stage.run_cons, whole]
  exact Stage.run_point digits ne

theorem unsigned_render (layout : Layout) {d : Decimal.Digits} (h : Leading d.digits) :
    Unsigned (layout.render d) := by
  unfold Layout.render
  split
  · split
    · have small : Stage.zero.run (0x2E :: (List.replicate (-d.point).toNat 0x30 ++ d.digits)) =
          some .fraction :=
        run_fraction rfl (allDigits_append.2 ⟨allDigits_zeros _, h.digits⟩)
          (List.append_ne_nil_of_right_ne_nil _ h.ne_nil)
      refine unsigned_of_run (s := .fraction) ?_ rfl
      rw [List.append_assoc]
      exact small
    · dsimp only
      split
      · refine unsigned_of_run (s := .fraction) ?_ rfl
        rw [Stage.run_append, Stage.run_leading (h.append (allDigits_zeros _))]
        rfl
      · have behind : Stage.whole.run (0x2E :: d.digits.drop d.point.toNat) = some .fraction := by
          refine run_fraction rfl (fun c hc => h.digits c (List.mem_of_mem_drop hc)) ?_
          rw [ne_eq, List.drop_eq_nil_iff]
          omega
        refine unsigned_of_run (s := .fraction) ?_ rfl
        rw [List.append_assoc, Stage.run_append,
          Stage.run_leading (h.take (n := d.point.toNat) (by omega))]
        exact behind
  · split
    · next none => exact absurd none h.ne_nil
    · next c one =>
      rw [one] at h
      refine unsigned_of_run (s := .exponent) ?_ rfl
      rw [← List.singleton_append, Stage.run_append, Stage.run_leading h]
      exact run_exponent (s := .whole) rfl layout _
    · next c rest several many =>
      rw [many] at h
      have first : Leading [c] := h.take Nat.one_pos
      have behind : Stage.whole.run (0x2E :: rest) = some .fraction :=
        run_fraction rfl (fun c hc => h.digits c (List.mem_cons_of_mem _ hc)) several
      refine unsigned_of_run (s := .exponent) ?_ rfl
      rw [← List.singleton_append, Stage.run_append, Stage.run_leading first]
      show Stage.whole.run (0x2E :: rest ++ layout.exponent (d.point - 1)) = _
      rw [Stage.run_append, behind]
      exact run_exponent (s := .fraction) rfl layout _

theorem Leading.dropZeros (h : Leading t) : Leading (dropZeros t) := by
  obtain ⟨digits, c, rest, rfl, first⟩ := h
  have kept : Decimal.dropZeros (c :: rest) = c :: Decimal.dropZeros rest := by
    have last : [c].dropWhile (· == 0x30) = [c] := by simp [first]
    unfold Decimal.dropZeros
    rw [List.reverse_cons, List.dropWhile_append, last]
    split
    · next none => rw [List.isEmpty_iff.1 none]; rfl
    · rw [List.reverse_append]; rfl
  refine ⟨fun d hd => digits d ?_, c, _, kept, first⟩
  have inside := List.dropWhile_subset _ (List.mem_reverse.1 hd)
  exact List.mem_reverse.1 inside

theorem leading_shortest {mantissa : Nat} (pos : 0 < mantissa) (exponent : Int) :
    Leading (shortest mantissa exponent).digits := by
  obtain ⟨n, ne, digits⟩ := exists_shortest_digits pos exponent
  rw [digits]
  exact (leading_decimal (Nat.pos_of_ne_zero ne)).dropZeros

/-- The text of a number that is neither infinite nor no number at all is a numeral. -/
theorem isNumeral_text {x : Float} {negative : Bool} {mantissa : Nat} {exponent : Int}
    (finite : Exact.ofFloat x = .finite negative mantissa exponent) :
    isNumeral (Decimal.text x) = true := by
  unfold Decimal.text
  rw [finite]
  split
  · next none => cases none
  · next none => cases none
  · next negative _ _ => cases negative <;> rfl
  · next negative mantissa exponent more _ =>
    have pos : 0 < mantissa := Nat.pos_of_ne_zero more
    have digits := unsigned_render plainLayout (leading_shortest pos exponent)
    cases negative with
    | false => exact isNumeral_of_unsigned digits
    | true => exact isNumeral_minus digits

end Pictograph.Json
