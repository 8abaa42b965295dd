import Mathlib.Data.List.Infix
import Pictograph.Markup

/-!
Names of attributes. A name that is kept is well formed and not that of an event handler, or it is
such a name with a line break after it; the line break is not looked at.
-/

namespace Pictograph

namespace Text

def smallAscii (c : Nat) : Nat := if 0x41 ≤ c ∧ c ≤ 0x5A then c + 0x20 else c

theorem move_smallRuns_ascii : ∀ c < 0x80, CaseRun.move smallRuns c = smallAscii c := by
  decide +kernel

theorem smallOf_ascii {c : Nat} (ascii : c < 0x80) (before after : Text) :
    smallOf before c after = [smallAscii c] := by
  rw [smallOf, if_neg (by omega), if_neg (by omega), move_smallRuns_ascii c ascii]

theorem lower_ascii {t : Text} (ascii : ∀ c ∈ t, c < 0x80) : lower t = t.map smallAscii := by
  have all : ∀ before, lowerAfter before t = t.map smallAscii := by
    induction t with
    | nil => exact fun _ => rfl
    | cons c t ih =>
      intro before
      rw [List.forall_mem_cons] at ascii
      rw [lowerAfter, smallOf_ascii ascii.1, ih ascii.2, List.map_cons, List.singleton_append]
  exact all []

end Text

namespace Markup

/-- What a name begins with: a letter, an underscore or a colon. -/
def nameFirst : Text := codes "ABCDEFGHIJKLMNOPQRSTUVWXYZabcdefghijklmnopqrstuvwxyz_:"

def nameLater : Text := nameFirst ++ codes "0123456789-."

def WellFormed (name : Text) : Prop :=
  ∃ c rest, name = c :: rest ∧ c ∈ nameFirst ∧ ∀ d ∈ rest, d ∈ nameLater

/-- Does the name begin with `on`, in any letter case? -/
def IsHandler (name : Text) : Prop := ∃ o ∈ codes "oO", ∃ n ∈ codes "nN", [o, n] <+: name

structure Proper (name : Text) : Prop where
  formed : WellFormed name
  harmless : ¬ IsHandler name

def Broken (name : Text) : Prop := ∃ n, Proper n ∧ name = n ++ [0x0A]

variable {name : Text}

theorem lt_of_mem_nameLater : ∀ c ∈ nameLater, c < 0x80 := by decide

theorem mem_nameLater_of_mem_nameFirst {c : Nat} (h : c ∈ nameFirst) : c ∈ nameLater :=
  List.mem_append_left _ h

theorem startsName_iff {c : Nat} : startsName c = true ↔ c ∈ nameFirst := by
  by_cases ascii : c < 0x80
  · revert c
    decide +kernel
  · have other : c ∉ nameFirst := fun h =>
      ascii (lt_of_mem_nameLater c (mem_nameLater_of_mem_nameFirst h))
    simp only [other, iff_false, startsName, isLetter, Bool.or_eq_true, Bool.and_eq_true,
      decide_eq_true_eq, beq_iff_eq]
    omega

theorem continuesName_iff {c : Nat} : continuesName c = true ↔ c ∈ nameLater := by
  have more : ∀ d ∈ codes "0123456789-.", (0x30 ≤ d ∧ d ≤ 0x39) ∨ d = 0x2D ∨ d = 0x2E := by decide
  have back : ∀ d < 0x40, (0x30 ≤ d ∧ d ≤ 0x39) ∨ d = 0x2D ∨ d = 0x2E →
    d ∈ codes "0123456789-." := by decide
  simp only [continuesName, Bool.or_eq_true, Bool.and_eq_true, decide_eq_true_eq, beq_iff_eq,
    startsName_iff, nameLater, List.mem_append, or_assoc]
  refine or_congr_right ⟨fun h => back c (by omega) h, more c⟩

theorem isName_iff : isName name = true ↔ WellFormed name := by
  cases name with
  | nil => simp [isName, WellFormed]
  | cons c rest =>
    simp [isName, WellFormed, startsName_iff, continuesName_iff]

theorem WellFormed.subset (h : WellFormed name) : ∀ c ∈ name, c ∈ nameLater := by
  obtain ⟨c, rest, rfl, first, later⟩ := h
  exact List.forall_mem_cons.2 ⟨mem_nameLater_of_mem_nameFirst first, later⟩

theorem prefix_lower_iff (ascii : ∀ c ∈ name, c < 0x80) :
    (codes "on").isPrefixOf (Text.lower name) = true ↔ IsHandler name := by
  have small : ∀ c < 0x80, (Text.smallAscii c = 0x6F ↔ c ∈ codes "oO") ∧
    (Text.smallAscii c = 0x6E ↔ c ∈ codes "nN") := by decide
  rw [Text.lower_ascii ascii, List.isPrefixOf_iff_prefix]
  match name, ascii with
  | [], _ => simp [IsHandler, codes]
  | [c], _ => simp [IsHandler, codes]
  | c :: d :: rest, ascii =>
    simp only [List.forall_mem_cons] at ascii
    obtain ⟨hc, hd, -⟩ := ascii
    have two : codes "on" = [0x6F, 0x6E] := rfl
    simp only [IsHandler, two, List.map_cons, List.cons_prefix_cons, List.nil_prefix, and_true]
    rw [eq_comm, (small c hc).1, eq_comm, (small d hd).2]
    simp

theorem isHandler_append_break (formed : WellFormed name) :
    IsHandler (name ++ [0x0A]) ↔ IsHandler name := by
  obtain ⟨c, rest, rfl, -, -⟩ := formed
  unfold IsHandler
  cases rest with
  | nil => simp [codes]
  | cons d rest => simp

theorem WellFormed.lineBreak_notMem (formed : WellFormed name) : 0x0A ∉ name := by
  intro h
  exact absurd (formed.subset 0x0A h) (by decide)

theorem dropBreak_append (n : Text) : dropBreak (n ++ [0x0A]) = n := by
  simp [dropBreak]

theorem eq_append_or_dropBreak_eq (name : Text) :
    (∃ n, name = n ++ [0x0A]) ∨ dropBreak name = name ∧ ∀ n, name ≠ n ++ [0x0A] := by
  by_cases last : name.getLast? = some 0x0A
  · exact .inl (List.getLast?_eq_some_iff.1 last)
  · refine .inr ⟨if_neg last, fun n same => last ?_⟩
    exact List.getLast?_eq_some_iff.2 ⟨n, same⟩

theorem isSafeName_iff_dropBreak :
    isSafeName name = true ↔ WellFormed (dropBreak name) ∧ ¬ IsHandler name := by
  rw [isSafeName, Bool.and_eq_true, Bool.not_eq_true', isName_iff, and_comm]
  refine and_congr_right fun formed => ?_
  have ascii : ∀ c ∈ name, c < 0x80 := by
    rcases eq_append_or_dropBreak_eq name with ⟨n, rfl⟩ | ⟨same, -⟩
    · rw [dropBreak_append] at formed
      rw [List.forall_mem_append]
      exact ⟨fun c hc => lt_of_mem_nameLater c (formed.subset c hc), by simp⟩
    · rw [same] at formed
      exact fun c hc => lt_of_mem_nameLater c (formed.subset c hc)
  rw [← prefix_lower_iff ascii, Bool.not_eq_true]

/-- The names that are kept are the proper ones, and these with a line break after them. -/
theorem isSafeName_iff : isSafeName name = true ↔ Proper name ∨ Broken name := by
  rw [isSafeName_iff_dropBreak]
  rcases eq_append_or_dropBreak_eq name with ⟨n, rfl⟩ | ⟨same, other⟩
  · rw [dropBreak_append]
    constructor
    · intro ⟨formed, harmless⟩
      rw [isHandler_append_break formed] at harmless
      exact .inr ⟨n, ⟨formed, harmless⟩, rfl⟩
    · rintro (proper | ⟨n', proper, same⟩)
      · exact absurd (by simp) proper.formed.lineBreak_notMem
      · rw [List.append_cancel_right same, isHandler_append_break proper.formed]
        exact ⟨proper.formed, proper.harmless⟩
  · rw [same]
    constructor
    · intro ⟨formed, harmless⟩
      exact .inl ⟨formed, harmless⟩
    · rintro (proper | ⟨n, -, e⟩)
      · exact ⟨proper.formed, proper.harmless⟩
      · exact absurd e (other n)

theorem Broken.not_proper (broken : Broken name) : ¬ Proper name := by
  obtain ⟨n, -, rfl⟩ := broken
  intro proper
  exact proper.formed.lineBreak_notMem (by simp)

theorem Proper.isSafeName (proper : Proper name) : isSafeName name = true :=
  isSafeName_iff.2 (.inl proper)

theorem proper_iff : Proper name ↔ isSafeName name = true ∧ 0x0A ∉ name := by
  rw [isSafeName_iff]
  constructor
  · intro proper
    exact ⟨.inl proper, proper.formed.lineBreak_notMem⟩
  · rintro ⟨proper | ⟨n, -, rfl⟩, whole⟩
    · exact proper
    · exact absurd (by simp) whole

instance : DecidablePred Proper := fun _ => decidable_of_iff _ proper_iff.symm

end Markup

end Pictograph
