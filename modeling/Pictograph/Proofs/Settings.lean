import Mathlib.Data.List.TakeWhile
import Pictograph.Proofs.Traversal
import Pictograph.Settings

/-!
Settings read. What is read fits its fields and can be given again, by the caller or through the
environment; what does not fit comes to one issue for each field that it is given for. The system
keeps exactly the variables that it can tell apart again.
-/

namespace Pictograph

theorem Text.unwritable?_eq_none_iff {passes : Nat → Bool} {t : Text} :
    unwritable? passes t = none ↔ ∀ c ∈ t, isSurrogate c = true → passes c = true := by
  have fits : t.dropWhile (fun c => !isSurrogate c || passes c) = [] ↔
      ∀ c ∈ t, isSurrogate c = true → passes c = true := by
    simp [List.dropWhile_eq_nil_iff, or_iff_not_imp_left]
  rw [← fits, unwritable?]
  cases t.dropWhile fun c => !isSurrogate c || passes c with
  | nil => simp
  | cons c rest => simp

namespace Environment

structure Clean (m : Text × Text) : Prop where
  written : ∀ t ∈ [m.1, m.2], ∀ c ∈ t, Text.isSurrogate c = true → standsForByte c = true
  ended : 0 ∉ m.1 ∧ 0 ∉ m.2
  parted : 0x3D ∉ m.1
  named : m.1 ≠ []

theorem checkText_eq_ok_iff {t t' : Text} : checkText t = .ok t' ↔
    t' = t ∧ ∀ c ∈ t, Text.isSurrogate c = true → standsForByte c = true := by
  rw [← Text.unwritable?_eq_none_iff, checkText]
  cases Text.unwritable? standsForByte t with
  | none => simp [eq_comm]
  | some run => simp

theorem entry_eq_ok_iff {name : Text} {value : Value} {m : Text × Text} :
    entry name value = .ok m ↔ (name, value) = (m.1, .text m.2) ∧ Clean m := by
  cases value with
  | text t =>
    simp only [entry, Traversal.bind_eq_ok, Traversal.check_eq_ok, checkText_eq_ok_iff]
    constructor
    · rintro ⟨_, ⟨rfl, front⟩, _, ⟨rfl, back⟩, zeros, parted, named, ⟨⟩⟩
      refine ⟨rfl, ?_, ?_, ?_, ?_⟩
      · exact List.forall_mem_cons.2 ⟨front, List.forall_mem_singleton.2 back⟩
      · simpa using zeros
      · simpa using parted
      · simpa using named
    · rintro ⟨same, written, ended, parted, named⟩
      obtain ⟨rfl, value⟩ := Prod.mk.inj same
      obtain rfl := Value.text.inj value
      refine ⟨m.1, ⟨rfl, written _ (by simp)⟩, m.2, ⟨rfl, written _ (by simp)⟩, ?_, ?_, ?_, rfl⟩
      · simpa using ended
      · simpa using parted
      · simpa using named
  | _ => simp [entry, Traversal.bind_eq_ok]

/-- The environment has the variables that are set, as they are. -/
theorem ofMembers_eq_ok_iff {members : List (Text × Value)} {env : Environment} :
    ofMembers members = .ok env ↔
      members = env.map (fun m => (m.1, .text m.2)) ∧ ∀ m ∈ env, Clean m := by
  rw [ofMembers, Traversal.mapM_eq_ok_iff]
  simp only [entry_eq_ok_iff]
  constructor
  · intro all
    induction all with
    | nil => exact ⟨rfl, List.forall_mem_nil _⟩
    | cons first _ ih =>
      exact ⟨congrArg₂ List.cons first.1 ih.1, List.forall_mem_cons.2 ⟨first.2, ih.2⟩⟩
  · rintro ⟨rfl, clean⟩
    rw [List.forall₂_map_left_iff, List.forall₂_same]
    exact fun m hm => ⟨rfl, clean m hm⟩

end Environment

namespace Settings

def Named (t : Text) : Prop := t ≠ [] ∧ ∀ c ∈ t, Text.isSurrogate c = false

instance (t : Text) : Decidable (Named t) := inferInstanceAs (Decidable (_ ∧ _))

theorem readText_eq_ok_iff {v : Value} {t : Text} : readText v = .ok t ↔ v = .text t := by
  cases v <;> simp [readText]

theorem readName_eq_ok_iff {v : Value} {t : Text} :
    readName v = .ok t ↔ v = .text t ∧ Named t := by
  simp only [readName, Traversal.bind_eq_ok, Traversal.check_eq_ok, readText_eq_ok_iff]
  constructor
  · rintro ⟨_, rfl, whole, filled, ⟨⟩⟩
    exact ⟨rfl, by simpa using filled, by simpa using whole⟩
  · rintro ⟨rfl, filled, whole⟩
    exact ⟨t, rfl, by simpa using whole, by simpa using filled, rfl⟩

theorem readFlavor_eq_ok_iff {v : Value} {f : Flavor} :
    readFlavor v = .ok f ↔ v = .text f.name ∧ (f = .points ∨ f = .utf16) := by
  constructor
  · intro h
    cases v with
    | text t =>
      have same := Flavor.name_ofName t
      rw [readFlavor] at h
      cases known : Flavor.ofName t with
      | other name => rw [known] at h; cases h
      | points => rw [known] at h same; cases h; exact ⟨congrArg _ same.symm, .inl rfl⟩
      | utf16 => rw [known] at h same; cases h; exact ⟨congrArg _ same.symm, .inr rfl⟩
    | _ => cases h
  · rintro ⟨rfl, rfl | rfl⟩
    · rfl
    · rfl

def words (b : Bool) : List Text := if b then trueWords else falseWords

theorem readWord?_eq_some_iff {w : Text} {b : Bool} :
    readWord? w = some b ↔ Text.lower w ∈ words b := by
  have apart : ∀ w ∈ trueWords, w ∉ falseWords := by decide
  rw [readWord?]
  by_cases yes : Text.lower w ∈ trueWords
  · rw [if_pos (List.contains_iff_mem.2 yes)]
    cases b with
    | true => simpa [words] using yes
    | false => simpa [words] using apart _ yes
  · rw [if_neg fun h => yes (List.contains_iff_mem.1 h)]
    cases b with
    | true => simpa [words] using yes
    | false => simp [words]

/-- A truth value of the environment is what its word says, in any letter case and with any blanks
around it, or the default if it has none that says the contrary. -/
theorem environmentTruth_eq_iff {raw : Option Text} {default b : Bool} :
    environmentTruth raw default = b ↔
      (∃ t, raw = some t ∧ Text.lower (Text.trim t) ∈ words b) ∨
        b = default ∧ ∀ t, raw = some t → Text.lower (Text.trim t) ∉ words !b := by
  simp only [← readWord?_eq_some_iff]
  cases raw with
  | none => simp [environmentTruth, eq_comm]
  | some t =>
    simp only [environmentTruth, Option.some.injEq, exists_eq_left', forall_eq']
    cases readWord? (Text.trim t) with
    | none => simp [eq_comm]
    | some b' => cases b <;> cases b' <;> simp

variable {α : Type}

def fault? (read : Value → Except IssueKind α) (v : Value) : Option IssueKind :=
  match read v with
  | .ok _ => none
  | .error kind => some kind

/-- The issues of fields, each with its check, in their order. -/
def issues (checks : List (Text × (Value → Option IssueKind))) (values : List (Text × Value))
    (env : Environment) : List Issue :=
  checks.filterMap fun c => ((given? values env c.1).bind c.2).map (⟨c.1, ·⟩)

theorem issues_cons (values : List (Text × Value)) (env : Environment) (name : String)
    (read : Value → Except IssueKind α) (default : α)
    (checks : List (Text × (Value → Option IssueKind))) :
    issues ((codes name, fault? read) :: checks) values env =
      issue? (field values env name read default) ++ issues checks values env := by
  rw [issues, List.filterMap_cons, ← issues, field]
  cases given? values env (codes name) with
  | none => rfl
  | some v =>
    cases here : read v with
    | ok a => simp [fault?, here, issue?]
    | error kind => simp [fault?, here, issue?]

theorem field_elim {values : List (Text × Value)} {env : Environment} {name : String}
    {read : Value → Except IssueKind α} {default a : α} {P : α → Prop}
    (h : field values env name read default = .ok a) (without : P default)
    (taken : ∀ v a, read v = .ok a → P a) : P a := by
  rw [field] at h
  cases given : given? values env (codes name) with
  | none =>
    rw [given] at h
    exact Except.ok.inj h ▸ without
  | some v =>
    rw [given] at h
    cases here : read v with
    | ok b =>
      simp only [here] at h
      exact Except.ok.inj h ▸ taken v b here
    | error kind =>
      simp only [here] at h
      cases h

theorem field_given {values : List (Text × Value)} {env : Environment} {name : String} {v : Value}
    (given : given? values env (codes name) = some v) {read : Value → Except IssueKind α}
    {a : α} (taken : read v = .ok a) (default : α) :
    field values env name read default = .ok a := by
  rw [field, given]
  dsimp only
  rw [taken]

end Settings

open Settings

namespace DecoratorSettings

def checks : List (Text × (Value → Option IssueKind)) :=
  [(codes "base_url", fault? readText), (codes "size", fault? readName),
    (codes "image_type", fault? readText), (codes "class_name", fault? readName)]

structure Valid (s : DecoratorSettings) : Prop where
  size : Named s.size
  className : Named s.className

def members (s : DecoratorSettings) : List (Text × Value) :=
  [(codes "base_url", .text s.baseUrl), (codes "size", .text s.size),
    (codes "image_type", .text s.imageType), (codes "class_name", .text s.className)]

def environment (s : DecoratorSettings) : Environment :=
  [(codes "EMOJI_BASE_URL", s.baseUrl), (codes "EMOJI_SIZE", s.size),
    (codes "EMOJI_IMAGE_TYPE", s.imageType), (codes "EMOJI_CLASS_NAME", s.className)]

/-- Settings are read exactly if there is no issue, and what is read may be given. -/
theorem read_cases (values : List (Text × Value)) (env : Environment) :
    (issues checks values env = [] ∧ ∃ s, read values env = .ok s ∧ s.Valid) ∨
      (issues checks values env ≠ [] ∧ read values env = .error (issues checks values env)) := by
  have size : ∀ t, field values env "size" readName (codes "72x72") = .ok t → Named t :=
    fun t h => field_elim h (by decide) fun v t taken => (readName_eq_ok_iff.1 taken).2
  have className : ∀ t, field values env "class_name" readName (codes "emoji") = .ok t → Named t :=
    fun t h => field_elim h (by decide) fun v t taken => (readName_eq_ok_iff.1 taken).2
  have none : issues [] values env = [] := rfl
  rw [checks, issues_cons values env "base_url" readText
      (codes "https://cdnjs.cloudflare.com/ajax/libs/twemoji/14.0.2/"),
    issues_cons values env "size" readName (codes "72x72"),
    issues_cons values env "image_type" readText (codes ".png"),
    issues_cons values env "class_name" readName (codes "emoji"), none, List.append_nil, read]
  cases field values env "base_url" readText
      (codes "https://cdnjs.cloudflare.com/ajax/libs/twemoji/14.0.2/") with
  | error i => exact .inr ⟨nofun, by simp⟩
  | ok baseUrl =>
    cases here : field values env "size" readName (codes "72x72") with
    | error i => exact .inr ⟨nofun, by simp⟩
    | ok size' =>
      cases field values env "image_type" readText (codes ".png") with
      | error i => exact .inr ⟨nofun, by simp⟩
      | ok imageType =>
        cases there : field values env "class_name" readName (codes "emoji") with
        | error i => exact .inr ⟨nofun, by simp⟩
        | ok className' => exact .inl ⟨rfl, _, rfl, size size' here, className className' there⟩

theorem read_of_given {values : List (Text × Value)} {env : Environment} {s : DecoratorSettings}
    (valid : s.Valid) (given : ∀ m ∈ s.members, given? values env m.1 = some m.2) :
    read values env = .ok s := by
  simp only [members, List.forall_mem_cons] at given
  obtain ⟨baseUrl, size, imageType, className, -⟩ := given
  have named : readName (.text s.size) = .ok s.size := readName_eq_ok_iff.2 ⟨rfl, valid.size⟩
  have named' : readName (.text s.className) = .ok s.className :=
    readName_eq_ok_iff.2 ⟨rfl, valid.className⟩
  rw [read, field_given baseUrl (readText_eq_ok_iff.2 rfl), field_given size named,
    field_given imageType (readText_eq_ok_iff.2 rfl), field_given className named']

/-- The caller goes before the environment. -/
theorem read_members {s : DecoratorSettings} (valid : s.Valid) (env : Environment) :
    read s.members env = .ok s := by
  apply read_of_given valid
  simp only [members, List.forall_mem_cons]
  exact ⟨rfl, rfl, rfl, rfl, List.forall_mem_nil _⟩

/-- What was set last goes before what was set earlier. -/
theorem read_environment {s : DecoratorSettings} (valid : s.Valid) (env : Environment) :
    read [] (env ++ s.environment) = .ok s := by
  apply read_of_given valid
  simp only [members, List.forall_mem_cons, given?, List.reverse_append]
  exact ⟨rfl, rfl, rfl, rfl, List.forall_mem_nil _⟩

end DecoratorSettings

namespace CompilerSettings

def checks : List (Text × (Value → Option IssueKind)) :=
  [(codes "flavor", fault? readFlavor), (codes "require_all_categories", fault? readTruth)]

def Valid (s : CompilerSettings) : Prop := s.flavor = .points ∨ s.flavor = .utf16

def members (s : CompilerSettings) : List (Text × Value) :=
  [(codes "flavor", .text s.flavor.name), (codes "require_all_categories", .bool s.requireAll)]

def environment (s : CompilerSettings) : Environment :=
  [(codes "EMOJI_FLAVOR", s.flavor.name),
    (codes "EMOJI_REQUIRE_ALL_CATEGORIES", codes (if s.requireAll then "true" else "false"))]

/-- Settings are read exactly if there is no issue, and what is read may be given. -/
theorem read_cases (values : List (Text × Value)) (env : Environment) :
    (issues checks values env = [] ∧ ∃ s, read values env = .ok s ∧ s.Valid) ∨
      (issues checks values env ≠ [] ∧ read values env = .error (issues checks values env)) := by
  have known : ∀ f, field values env "flavor" readFlavor .points = .ok f →
      f = .points ∨ f = .utf16 := by
    intro f h
    exact field_elim (P := fun f => f = .points ∨ f = .utf16) h (.inl rfl)
      fun v f taken => (readFlavor_eq_ok_iff.1 taken).2
  have none : issues [] values env = [] := rfl
  rw [checks, issues_cons values env "flavor" readFlavor .points,
    issues_cons values env "require_all_categories" readTruth true, none, List.append_nil, read]
  cases here : field values env "flavor" readFlavor .points with
  | error i => exact .inr ⟨nofun, rfl⟩
  | ok flavor =>
    cases field values env "require_all_categories" readTruth true with
    | error i => exact .inr ⟨nofun, rfl⟩
    | ok requireAll => exact .inl ⟨rfl, _, rfl, known flavor here⟩

/-- The caller goes before the environment. -/
theorem read_members {s : CompilerSettings} (valid : s.Valid) (env : Environment) :
    read s.members env = .ok s := by
  have flavor : given? s.members env (codes "flavor") = some (.text s.flavor.name) := rfl
  have truth : given? s.members env (codes "require_all_categories") =
      some (.bool s.requireAll) := rfl
  have word : readTruth (.bool s.requireAll) = .ok s.requireAll := rfl
  rw [read, field_given flavor (readFlavor_eq_ok_iff.2 ⟨rfl, valid⟩), field_given truth word]

/-- What was set last goes before what was set earlier. -/
theorem read_environment {s : CompilerSettings} (valid : s.Valid) (env : Environment) :
    read [] (env ++ s.environment) = .ok s := by
  have flavor : given? [] (env ++ s.environment) (codes "flavor") =
      some (.text s.flavor.name) := by
    rw [given?, List.reverse_append]
    rfl
  have truth : given? [] (env ++ s.environment) (codes "require_all_categories") =
      some (.text (codes (if s.requireAll then "true" else "false"))) := by
    rw [given?, List.reverse_append]
    rfl
  have word : readTruth (.text (codes (if s.requireAll then "true" else "false"))) =
      .ok s.requireAll := by
    cases s.requireAll with
    | true => rfl
    | false => rfl
  rw [read, field_given flavor (readFlavor_eq_ok_iff.2 ⟨rfl, valid⟩), field_given truth word]

end CompilerSettings

end Pictograph
