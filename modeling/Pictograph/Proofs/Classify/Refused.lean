import Pictograph.Proofs.Classify.Gender
import Pictograph.Proofs.Templates
import Pictograph.Table.Chapter

/-!
When a table is refused. Three rules are checked one after the other, each for the whole table: the
kinds of joined entries, the templates of emoji of two people, and the siblings of gendered entries.
A refusal names the first entry that breaks the first rule that is broken.
-/

namespace Pictograph

open Traversal

variable {entries : List Entry} {e : Entry} {f : Fault}

namespace Entry

/-- Apart from emoji of two people, a joined entry takes skin tones or nothing. -/
def KindFits (e : Entry) : Prop :=
  e.kind ≠ .multiDiversity → zwj ∈ e.base.points → e.kind = .diversity ∨ e.kind = .normal

/-- An emoji of two people has the template for two tones. -/
def HasTemplate (e : Entry) : Prop := e.kind = .multiDiversity → ∃ t, e.twoTones = some t

/-- A joined entry with skin tones has a shape, and the table has the siblings that it needs. -/
def FamilyKnown (entries : List Entry) (e : Entry) : Prop :=
  e.kind = .diversity → zwj ∈ e.base.points →
    ∃ shape, Shape.Fits e.base.points shape ∧ ∀ q ∈ shape.complements, q ∈ gendered entries

/-- The numbers in the templates are those of scalar values. -/
def ScalarTemplates (e : Entry) : Prop :=
  ∀ t, e.sameTone = some t ∨ e.twoTones = some t → ∀ n, some n ∈ t.codes → IsScalar n

theorem not_kindFits_iff :
    ¬ e.KindFits ↔ e.isJoined = true ∧ ¬ (e.kind = .diversity ∨ e.kind = .normal) := by
  unfold KindFits
  rw [isJoined_iff, and_assoc, Classical.not_imp, Classical.not_imp]

theorem not_hasTemplate_iff :
    ¬ e.HasTemplate ↔ e.isMulti = true ∧ ¬ ∃ t, e.twoTones = some t := by
  unfold HasTemplate
  rw [isMulti_iff, Classical.not_imp]

theorem not_familyKnown_iff : ¬ e.FamilyKnown entries ↔
    e.isJoined = true ∧ e.kind = .diversity ∧ ¬ ∃ shape, Shape.Fits e.base.points shape ∧
      ∀ q ∈ shape.complements, q ∈ gendered entries := by
  unfold FamilyKnown
  rw [isJoined_iff, Classical.not_imp, Classical.not_imp]
  constructor
  · intro h
    obtain ⟨kind, joined, broken⟩ := h
    exact ⟨⟨by simp [kind], joined⟩, kind, broken⟩
  · intro h
    obtain ⟨⟨-, joined⟩, kind, broken⟩ := h
    exact ⟨kind, joined, broken⟩

theorem renderings_eq_error_iff (kind : e.kind = .multiDiversity) (scalar : e.ScalarTemplates) :
    e.renderings = .error f ↔
      (¬ ∃ t, e.twoTones = some t) ∧ f = .table (.missingTemplate e.key) := by
  constructor
  · intro failed
    rcases renderings_eq_error kind failed with ⟨missing, same⟩ | ⟨-, t, n, given, stands, bad⟩
    · exact ⟨by simp [missing], same⟩
    · refine absurd ?_ bad
      rcases stands with two | ⟨codes, same, one⟩
      · exact scalar t (.inr given) n two
      · obtain ⟨s, given', rfl⟩ := Option.map_eq_some_iff.1 same
        exact scalar s (.inl given') n one
  · intro h
    obtain ⟨missing, rfl⟩ := h
    rw [← Option.isSome_iff_exists, Option.not_isSome_iff_eq_none] at missing
    unfold renderings
    rw [kind]
    dsimp only
    rw [missing]
    rfl

theorem exists_renderings_iff (kind : e.kind = .multiDiversity) (scalar : e.ScalarTemplates) :
    (∃ ss, e.renderings = .ok ss) ↔ ∃ t, e.twoTones = some t := by
  cases result : e.renderings with
  | error f => simpa using (renderings_eq_error_iff kind scalar).1 result |>.1
  | ok ss =>
    refine iff_of_true ⟨ss, rfl⟩ ?_
    by_contra missing
    rw [(renderings_eq_error_iff kind scalar).2 ⟨missing, rfl⟩] at result
    cases result

theorem gender_eq_error_iff {known : List (List Char)} : e.gender known = .error f ↔
    (∀ shape, ¬ Shape.Fits e.base.points shape) ∧ f = .table (.unrecognizedShape e.key) ∨
      ∃ shape missing, Shape.Fits e.base.points shape ∧
        First (· ∉ known) shape.complements missing ∧
        f = .table (.missingComplement e.key (Sequence.mk missing true).key) := by
  have lacking : ∀ {l : List (List Char)} {q}, l.find? (!known.contains ·) = some q ↔
      First (· ∉ known) l q := by
    intro l q
    rw [find?_eq_some_iff_first]
    exact first_congr fun b _ => by simp
  simp only [← Shape.of?_eq_some_iff]
  unfold gender
  cases Shape.of? e.base.points with
  | none => simp [eq_comm]
  | some shape =>
    simp only [Option.some.injEq, ← lacking]
    cases found : shape.complements.find? (!known.contains ·) with
    | none =>
      refine iff_of_false (by simp) fun h => ?_
      rcases h with ⟨no, -⟩ | ⟨_, missing, rfl, lacks, -⟩
      · exact no shape rfl
      · rw [found] at lacks
        cases lacks
    | some missing =>
      constructor
      · intro h
        exact .inr ⟨shape, missing, rfl, found, (Except.error.inj h).symm⟩
      · intro h
        rcases h with ⟨no, -⟩ | ⟨_, q, rfl, lacks, rfl⟩
        · exact absurd rfl (no shape)
        · rw [found] at lacks
          cases lacks
          rfl

end Entry

theorem forM_checkJoined_eq_error_iff :
    (entries.filter (·.isJoined)).forM Entry.checkJoined = .error f ↔
      ∃ e, First (fun d => ¬ d.KindFits) entries e ∧
        f = .table (.unsupportedZwj e.key e.kind.tag) := by
  have step : ∀ d ∈ entries.filter (·.isJoined), d.checkJoined = .ok () ↔
      ¬ ¬ (d.kind = .diversity ∨ d.kind = .normal) := by
    intro d _
    rw [not_not]
    exact Entry.checkJoined_eq_ok_iff
  rw [forM_eq_error_iff_first step]
  simp only [first_filter, ← Entry.not_kindFits_iff]
  refine exists_congr fun e => and_congr_right fun first => ?_
  obtain ⟨-, -, -, -, broken⟩ := first
  rw [Entry.checkJoined, if_neg (Entry.not_kindFits_iff.1 broken).2, Except.error.injEq, eq_comm]

theorem mapM_renderings_eq_error_iff (scalar : ∀ e ∈ entries, e.ScalarTemplates) :
    (entries.filter (·.isMulti)).mapM Entry.renderings = .error f ↔
      ∃ e, First (fun d => ¬ d.HasTemplate) entries e ∧ f = .table (.missingTemplate e.key) := by
  have step : ∀ d ∈ entries.filter (·.isMulti), (∃ ss, d.renderings = .ok ss) ↔
      ¬ ¬ ∃ t, d.twoTones = some t := by
    intro d hd
    obtain ⟨hd, multi⟩ := List.mem_filter.1 hd
    rw [not_not]
    exact Entry.exists_renderings_iff (Entry.isMulti_iff.1 multi) (scalar d hd)
  rw [mapM_eq_error_iff_first step]
  simp only [first_filter, ← Entry.not_hasTemplate_iff]
  refine exists_congr fun e => and_congr_right fun first => ?_
  have mem := first.mem
  obtain ⟨-, -, -, -, broken⟩ := first
  obtain ⟨multi, missing⟩ := Entry.not_hasTemplate_iff.1 broken
  rw [Entry.renderings_eq_error_iff (Entry.isMulti_iff.1 multi) (scalar e mem),
    and_iff_right missing]

theorem mapM_gender_eq_error_iff :
    (toned entries).mapM (Entry.gender (gendered entries)) = .error f ↔
      ∃ e, First (fun d => ¬ d.FamilyKnown entries) entries e ∧
        e.gender (gendered entries) = .error f := by
  have step : ∀ d ∈ toned entries, (∃ r, d.gender (gendered entries) = .ok r) ↔
      ¬ ¬ ∃ shape, Shape.Fits d.base.points shape ∧
        ∀ q ∈ shape.complements, q ∈ gendered entries := by
    intro d _
    rw [not_not]
    simp only [Entry.gender_eq_ok_iff]
    constructor
    · intro h
      obtain ⟨-, shape, fits, siblings, -⟩ := h
      exact ⟨shape, fits, siblings⟩
    · intro h
      obtain ⟨shape, fits, siblings⟩ := h
      exact ⟨_, shape, fits, siblings, rfl⟩
  rw [mapM_eq_error_iff_first step, toned]
  simp only [first_filter, decide_eq_true_eq, ← Entry.not_familyKnown_iff]

inductive Refusal (entries : List Entry) : TableFault → Prop where
  | kind {e : Entry} (first : First (fun d => ¬ d.KindFits) entries e) :
      Refusal entries (.unsupportedZwj e.key e.kind.tag)
  | template {e : Entry} (kinds : ∀ d ∈ entries, d.KindFits)
      (first : First (fun d => ¬ d.HasTemplate) entries e) :
      Refusal entries (.missingTemplate e.key)
  | shape {e : Entry} (kinds : ∀ d ∈ entries, d.KindFits) (templates : ∀ d ∈ entries, d.HasTemplate)
      (first : First (fun d => ¬ d.FamilyKnown entries) entries e)
      (none : ∀ shape, ¬ Shape.Fits e.base.points shape) :
      Refusal entries (.unrecognizedShape e.key)
  | sibling {e : Entry} {shape : Shape} {missing : List Char} (kinds : ∀ d ∈ entries, d.KindFits)
      (templates : ∀ d ∈ entries, d.HasTemplate)
      (first : First (fun d => ¬ d.FamilyKnown entries) entries e)
      (fits : Shape.Fits e.base.points shape)
      (lacks : First (· ∉ gendered entries) shape.complements missing) :
      Refusal entries (.missingComplement e.key (Sequence.mk missing true).key)

/-- Sorting a table fails in the first of its steps that fails. -/
theorem classify_eq_error_iff : classify entries = .error f ↔
    (entries.filter (·.isJoined)).forM Entry.checkJoined = .error f ∨
      (∀ e ∈ entries, e.KindFits) ∧
        ((entries.filter (·.isMulti)).mapM Entry.renderings = .error f ∨
          (∃ multi, (entries.filter (·.isMulti)).mapM Entry.renderings = .ok multi) ∧
            (toned entries).mapM (Entry.gender (gendered entries)) = .error f) := by
  have kinds : (∀ e ∈ entries, e.KindFits) ↔ _ := forM_checkJoined_eq_ok_iff.symm
  rw [kinds]
  unfold classify
  rw [bind_eq_error]
  refine or_congr_right ?_
  constructor
  · intro h
    obtain ⟨⟨⟩, check, h⟩ := h
    refine ⟨check, (bind_eq_error.1 h).imp_right fun later => ?_⟩
    obtain ⟨multi, expanded, h⟩ := later
    refine ⟨⟨multi, expanded⟩, ?_⟩
    rcases bind_eq_error.1 h with failed | ⟨_, -, done⟩
    · exact failed
    · cases done
  · intro h
    obtain ⟨check, h⟩ := h
    refine ⟨(), check, bind_eq_error.2 (h.imp_right fun later => ?_)⟩
    obtain ⟨⟨multi, expanded⟩, failed⟩ := later
    exact ⟨multi, expanded, bind_eq_error.2 (.inl failed)⟩

theorem exists_mapM_renderings_iff (scalar : ∀ e ∈ entries, e.ScalarTemplates) :
    (∃ multi, (entries.filter (·.isMulti)).mapM Entry.renderings = .ok multi) ↔
      ∀ e ∈ entries, e.HasTemplate := by
  rw [exists_mapM_eq_ok_iff]
  constructor
  · intro h e he kind
    obtain ⟨ss, ok⟩ := h e (List.mem_filter.2 ⟨he, Entry.isMulti_iff.2 kind⟩)
    exact (Entry.exists_renderings_iff kind (scalar e he)).1 ⟨ss, ok⟩
  · intro h e he
    obtain ⟨he, multi⟩ := List.mem_filter.1 he
    rw [Entry.isMulti_iff] at multi
    exact (Entry.exists_renderings_iff multi (scalar e he)).2 (h e he multi)

theorem classify_eq_error_iff_refusal (scalar : ∀ e ∈ entries, e.ScalarTemplates) :
    classify entries = .error f ↔ ∃ t, f = .table t ∧ Refusal entries t := by
  rw [classify_eq_error_iff, forM_checkJoined_eq_error_iff, mapM_renderings_eq_error_iff scalar,
    exists_mapM_renderings_iff scalar, mapM_gender_eq_error_iff]
  simp only [Entry.gender_eq_error_iff]
  constructor
  · rintro (⟨e, first, rfl⟩ | ⟨kinds, ⟨e, first, rfl⟩ | ⟨templates, e, first, broken⟩⟩)
    · exact ⟨_, rfl, .kind first⟩
    · exact ⟨_, rfl, .template kinds first⟩
    · rcases broken with ⟨none, rfl⟩ | ⟨shape, missing, fits, lacks, rfl⟩
      · exact ⟨_, rfl, .shape kinds templates first none⟩
      · exact ⟨_, rfl, .sibling kinds templates first fits lacks⟩
  · rintro ⟨t, rfl, refusal⟩
    cases refusal with
    | kind first => exact .inl ⟨_, first, rfl⟩
    | template kinds first => exact .inr ⟨kinds, .inl ⟨_, first, rfl⟩⟩
    | shape kinds templates first none =>
      exact .inr ⟨kinds, .inr ⟨templates, _, first, .inl ⟨none, rfl⟩⟩⟩
    | sibling kinds templates first fits lacks =>
      exact .inr ⟨kinds, .inr ⟨templates, _, first, .inr ⟨_, _, fits, lacks, rfl⟩⟩⟩

theorem exists_classify_iff_rules (scalar : ∀ e ∈ entries, e.ScalarTemplates) :
    (∃ placed, classify entries = .ok placed) ↔
      ∀ e ∈ entries, e.KindFits ∧ e.HasTemplate ∧ e.FamilyKnown entries := by
  have closed : Closed (gendered entries) ↔ ∀ e ∈ entries, e.FamilyKnown entries := by
    constructor
    · intro closed e he kind joined
      exact closed _ (mem_gendered.2 ⟨e, he, kind, joined, rfl⟩)
    · intro h p hp
      obtain ⟨e, he, kind, joined, rfl⟩ := mem_gendered.1 hp
      exact h e he kind joined
  have templates : (∀ e ∈ entries, e.kind = .multiDiversity → ∃ ss, e.renderings = .ok ss) ↔
      ∀ e ∈ entries, e.HasTemplate := by
    refine forall₂_congr fun e he => forall_congr' fun kind => ?_
    exact Entry.exists_renderings_iff kind (scalar e he)
  rw [exists_classify_eq_ok_iff, templates, closed, ← forall₂_and, ← forall₂_and]
  rfl

/-- When a table is refused, and how. A table whose rows can be read and whose templates hold scalar
values is sorted into classes exactly if all its entries keep all three rules; otherwise the fault
is the one of the first entry that breaks the first rule that is broken. -/
theorem classify_refused_iff {items : List TableItem} (flat : tableEntries items = .ok entries)
    (scalar : ∀ e ∈ entries, e.ScalarTemplates) :
    ((∃ placed, (tableEntries items >>= classify) = .ok placed) ↔
      ∀ e ∈ entries, e.KindFits ∧ e.HasTemplate ∧ e.FamilyKnown entries) ∧
    ∀ f, (tableEntries items >>= classify) = .error f ↔ ∃ t, f = .table t ∧ Refusal entries t := by
  have whole : (tableEntries items >>= classify) = classify entries := by
    rw [flat]
    rfl
  rw [whole]
  exact ⟨exists_classify_iff_rules scalar, fun f => classify_eq_error_iff_refusal scalar⟩

def unaccompanied : List Entry :=
  [.bare ['🏳', vs16, zwj, '🌈'] .normal, .bare [man, zwj, '💻'] .diversity,
    .bare [woman, zwj, '💻'] .diversity]

/-- The man is the first who breaks a rule, and the second of his siblings is the one missing. -/
theorem unaccompanied_refused :
    tableEntries (unaccompanied.map .entry) = .ok unaccompanied ∧
    (∀ e ∈ unaccompanied, e.ScalarTemplates) ∧
    (tableEntries (unaccompanied.map .entry) >>= classify) =
      .error (.table
        (.missingComplement (codes "1f468-200d-1f4bb") (codes "1f9d1-200d-1f4bb"))) := by
  have flat : tableEntries (unaccompanied.map .entry) = .ok unaccompanied := rfl
  have scalar : ∀ e ∈ unaccompanied, e.ScalarTemplates := by
    simp [unaccompanied, Entry.bare, Entry.ScalarTemplates]
  have known : gendered unaccompanied = [[man, zwj, '💻'], [woman, zwj, '💻']] := by decide
  have unknown : [person, zwj, '💻'] ∉ gendered unaccompanied := by
    rw [known]
    decide
  have key : (Entry.bare [man, zwj, '💻'] .diversity).key = codes "1f468-200d-1f4bb" := by decide
  have sibling : (Sequence.mk [person, zwj, '💻'] true).key = codes "1f9d1-200d-1f4bb" := by decide
  have lacks : First (· ∉ gendered unaccompanied) [[woman, zwj, '💻'], [person, zwj, '💻']]
      [person, zwj, '💻'] := by
    refine ⟨[[woman, zwj, '💻']], [], rfl, ?_, unknown⟩
    rw [known]
    decide
  have alone : ¬ (Entry.bare [man, zwj, '💻'] .diversity).FamilyKnown unaccompanied := by
    intro whole
    obtain ⟨shape, fits, siblings⟩ := whole rfl (by decide)
    obtain rfl := Option.some.inj (fits.of?_eq.symm.trans (Shape.of?_man ['💻']))
    exact unknown (siblings _ (by simp))
  refine ⟨flat, scalar, ((classify_refused_iff flat scalar).2 _).2 ⟨_, rfl, ?_⟩⟩
  rw [← key, ← sibling]
  refine .sibling ?_ ?_ ⟨[.bare ['🏳', vs16, zwj, '🌈'] .normal], _, rfl, ?_, alone⟩
    (.man ['💻']) lacks
  · simp [unaccompanied, Entry.bare, Entry.KindFits]
  · simp [unaccompanied, Entry.bare, Entry.HasTemplate]
  · simp [Entry.bare, Entry.FamilyKnown]

end Pictograph
