import Pictograph.Proofs.Classify.Gender
import Pictograph.Proofs.Rows

/-!
How sorting a table into classes fails. Either an entry breaks a rule, and the fault names it, or a
template of an emoji of two people has a number that stands for nothing; such a number is found only
when the tones are put in.
-/

namespace Pictograph

open Traversal

variable {entries : List Entry} {e : Entry}

/-- Does the entry break a rule by which a table is sorted into classes? -/
inductive Entry.Faulty (entries : List Entry) (e : Entry) : Prop where
  | kind (single : e.kind ≠ .multiDiversity) (joined : zwj ∈ e.base.points)
      (other : ¬ (e.kind = .diversity ∨ e.kind = .normal))
  | template (multi : e.kind = .multiDiversity) (missing : e.twoTones = none)
  | family (known : e ∈ toned entries)
      (broken : ¬ ∃ shape, Shape.Fits e.base.points shape ∧
        ∀ q ∈ shape.complements, q ∈ gendered entries)

/-- Has the first emoji of two people that cannot be expanded a template for two tones, but a number
of no scalar value in a template? Joined entries of wrong kinds are found before. -/
inductive Misnumbered (entries : List Entry) : Prop where
  | intro {before after : List Entry} {e : Entry} {t : Template} {n : Int}
      (split : entries = before ++ e :: after)
      (kinds : ∀ d ∈ entries, d.kind ≠ .multiDiversity → zwj ∈ d.base.points →
        d.kind = .diversity ∨ d.kind = .normal)
      (earlier : ∀ d ∈ before, d.kind = .multiDiversity → ∃ ss, d.renderings = .ok ss)
      (multi : e.kind = .multiDiversity) (given : e.twoTones = some t)
      (stands : Entry.Stands (e.sameTone.map Template.codes) t.codes n) (bad : ¬ IsScalar n)

theorem Entry.fails_checkJoined (e : Entry) : FailsWith (Fault.Names e.key) e.checkJoined := by
  unfold checkJoined
  split
  · exact .ok _ _
  · exact .error ⟨_, rfl, rfl⟩

theorem Entry.fails_gender (known : List (List Char)) (e : Entry) :
    FailsWith (Fault.Names e.key) (e.gender known) := by
  unfold gender
  split
  · exact .error ⟨_, rfl, rfl⟩
  · split
    · exact .error ⟨_, rfl, rfl⟩
    · exact .ok _ _

/-- What goes wrong in sorting a table is a fault of one of its entries, or a number in a
template. -/
theorem fails_classify (entries : List Entry) :
    FailsWith (fun f => (∃ e ∈ entries, e.Faulty entries ∧ f.Names e.key) ∨
      f.family = .value ∧ Misnumbered entries) (classify entries) := by
  unfold classify
  refine FailsWith.bind (.forM fun e he f fault => ?_) fun checked ok => ?_
  · obtain ⟨he, joined⟩ := List.mem_filter.1 he
    obtain ⟨single, joined⟩ := Entry.isJoined_iff.1 joined
    refine .inl ⟨e, he, .kind single joined fun kinds => ?_, e.fails_checkJoined f fault⟩
    rw [Entry.checkJoined_eq_ok_iff.2 kinds] at fault
    cases fault
  · have kinds := forM_checkJoined_eq_ok_iff.1 ok
    refine FailsWith.bind (fun f failed => ?_) fun multi _ => ?_
    · -- The first emoji of two people that fails is also a place in the whole table.
      obtain ⟨e, first, fault⟩ := (mapM_eq_error_iff_first fun d _ => not_not.symm).1 failed
      rw [first_filter] at first
      have mem := first.mem
      obtain ⟨before, after, split, earlier, multi, -⟩ := first
      rw [Entry.isMulti_iff] at multi
      rcases Entry.renderings_eq_error multi fault with ⟨missing, rfl⟩ | ⟨value, t, n, given, h⟩
      · exact .inl ⟨e, mem, .template multi missing, _, rfl, rfl⟩
      · refine .inr ⟨value, .intro split kinds ?_ multi given h.1 h.2⟩
        intro d hd kind
        by_contra stuck
        exact earlier d hd ⟨Entry.isMulti_iff.2 kind, stuck⟩
    · refine FailsWith.bind (.mapM fun e he f fault => ?_) fun _ _ => .ok _ _
      refine .inl ⟨e, (mem_toned.1 he).1, .family he fun whole => ?_, e.fails_gender _ f fault⟩
      obtain ⟨shape, fits, siblings⟩ := whole
      have ok := Entry.gender_eq_ok_iff.2 ⟨shape, fits, siblings, rfl⟩
      cases ok.symm.trans fault

theorem Misnumbered.classify_eq_error (h : Misnumbered entries) :
    ∃ f, classify entries = .error f ∧ f.family = .value := by
  cases h with
  | @intro before after e t n split kinds earlier multi given stands bad =>
    obtain ⟨f, fault, value⟩ := Entry.exists_renderings_error multi given stands bad
    refine ⟨f, ?_, value⟩
    have expanded : (entries.filter (·.isMulti)).mapM Entry.renderings = .error f := by
      refine mapM_eq_error_iff.2
        ⟨before.filter (·.isMulti), e, after.filter (·.isMulti), ?_, ?_, fault⟩
      · rw [split, List.filter_append, List.filter_cons_of_pos (Entry.isMulti_iff.2 multi)]
      · intro d hd
        obtain ⟨hd, kind⟩ := List.mem_filter.1 hd
        exact earlier d hd (Entry.isMulti_iff.1 kind)
    unfold classify
    refine bind_eq_error.2 (.inr ⟨(), forM_checkJoined_eq_ok_iff.2 kinds, ?_⟩)
    exact bind_eq_error.2 (.inl expanded)

end Pictograph
