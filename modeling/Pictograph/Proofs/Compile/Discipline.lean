import Pictograph.Proofs.Classify.Emptied
import Pictograph.Proofs.Classify.Faults
import Pictograph.Proofs.Compile.Language

/-!
How a run of the compiler ends. A run is disciplined if it gives a pattern, counts and announces it,
or fails with the key that is to blame, counts and logs that. Runs over documented rows are, but for
three gaps: a number too long to be written, a number in a template that stands for nothing, and an
emoji of which its class leaves nothing. These faults are found outside of the checks of the table
and escape.
-/

namespace Pictograph

open Traversal

variable {settings : CompilerSettings} {items : List TableItem} {placed : List Placed} {c : Class}
  {f : Fault}

/-- The keys of what can be to blame for a run that fails: a row that cannot be read, an entry that
breaks a rule or a required class without sequences. -/
inductive Offends (settings : CompilerSettings) (items : List TableItem) : Text → Prop where
  | row {i : TableItem} {key : Text} (hi : i ∈ items) (h : i.Unreadable key) :
      Offends settings items key
  | entry {entries : List Entry} {e : Entry} (read : tableEntries items = .ok entries)
      (he : e ∈ entries) (h : e.Faulty entries) : Offends settings items e.key
  | missing {entries : List Entry} {placed : List Placed} {c : Class}
      (read : tableEntries items = .ok entries) (sorted : classify entries = .ok placed)
      (required : settings.requireAll = true) (none : sequencesOf placed c = []) :
      Offends settings items c.name

/-- Is an entry emptied by the first class that gets no pattern? -/
inductive Hollow (settings : CompilerSettings) (entries : List Entry) (placed : List Placed) :
    Prop where
  | intro {before after : List Class} {c : Class} {e : Entry}
      (order : Class.all = before ++ c :: after)
      (earlier : ∀ d ∈ before, (settings.requireAll = true → sequencesOf placed d ≠ []) ∧
        ∀ e ∈ entries, ¬ e.Emptied d)
      (he : e ∈ entries) (emptied : e.Emptied c)

/-- The tables whose faults are not caught. -/
inductive Escapes (settings : CompilerSettings) (items : List TableItem) : Prop where
  | overlong (h : Overlong items)
  | number {entries : List Entry} (read : tableEntries items = .ok entries)
      (h : Misnumbered entries)
  | hollow {entries : List Entry} {placed : List Placed} (read : tableEntries items = .ok entries)
      (sorted : classify entries = .ok placed) (h : Hollow settings entries placed)

namespace Compilation

def eventsAt (run : Compilation) (level : Log.Level) : List Log.Event :=
  run.events.filter (·.level = level)

/-- Does a run end as it should: with a pattern, or with a fault of the table whose key is to blame?
Either is counted once and logged once, the one as news and the other as an error with the key. -/
inductive Disciplined (blamed : Text → Prop) (run : Compilation) : Prop where
  | pattern {c : CompiledPattern} (result : run.result = .ok c) (counted : run.counted = some .ok)
      (logged : ∃ e, run.eventsAt Log.Level.info = [e])
      (silent : run.eventsAt Log.Level.error = [])
  | fault {f : TableFault} (result : run.result = .error (.table f)) (blame : blamed f.key)
      (counted : run.counted = some .error)
      (logged : ∃ e, run.eventsAt Log.Level.error = [e] ∧
        e.extra.lookup (codes "key") = some (.text f.key))
      (silent : run.eventsAt Log.Level.info = [])

end Compilation

namespace Compile

theorem classResult_eq_error_iff : classResult settings placed c = .error f ↔
    (settings.requireAll = true ∧ sequencesOf placed c = [] ∧
        f = .table (.emptyCategory c.name)) ∨
      ([] ∈ pointsOf placed c ∧ f = .emptySequence) := by
  by_cases empty : sequencesOf placed c = []
  · have nothing : [] ∉ pointsOf placed c := by
      rintro ⟨s, hs, -⟩
      rw [empty] at hs
      cases hs
    unfold classResult
    rw [empty]
    cases settings.requireAll <;> simp [nothing, eq_comm]
  · rw [classResult_of_ne_nil empty]
    by_cases nothing : [] ∈ pointsOf placed c
    · rw [patternOf_numbers_of_nil settings.flavor c.name nothing]
      constructor
      · intro same
        exact .inr ⟨nothing, (Except.error.inj same).symm⟩
      · rintro (⟨-, none, -⟩ | ⟨-, rfl⟩)
        · exact absurd none empty
        · rfl
    · have full : ∀ s ∈ sequencesOf placed c, s.points ≠ [] :=
        fun s hs points => nothing ⟨s, hs, points⟩
      obtain ⟨p, ok, -⟩ := patternOf_numbers settings.flavor c.name empty full
      rw [ok]
      simp [nothing, empty, Except.map]

theorem exists_classResult_iff {entries : List Entry} (h : classify entries = .ok placed) :
    (∃ r, classResult settings placed c = .ok r) ↔
      (settings.requireAll = true → sequencesOf placed c ≠ []) ∧ ∀ e ∈ entries, ¬ e.Emptied c := by
  have full : (∀ s ∈ sequencesOf placed c, s.points ≠ []) ↔ ∀ e ∈ entries, ¬ e.Emptied c := by
    have nothing := not_congr (nil_mem_pointsOf_iff (c := c) h)
    simpa [pointsOf] using nothing
  rw [← full]
  constructor
  · rintro ⟨r, ok⟩
    obtain ⟨required, full, -⟩ := classResult_eq_ok_iff.1 ok
    refine ⟨fun every empty => ?_, full⟩
    rw [required empty] at every
    cases every
  · rintro ⟨required, full⟩
    refine ⟨_, classResult_eq_ok_iff.2 ⟨fun empty => ?_, full, rfl⟩⟩
    by_contra every
    exact required (by simpa using every) empty

/-- The patterns of the classes fail for a class that is missing or for one that empties an
entry. -/
theorem fails_mapM_classResult {entries : List Entry} (h : classify entries = .ok placed) :
    FailsWith (fun f => (∃ c : Class, settings.requireAll = true ∧ sequencesOf placed c = [] ∧
        f.Names c.name) ∨ f.family = .value ∧ Hollow settings entries placed)
      (Class.all.mapM (classResult settings placed)) := by
  intro f failed
  obtain ⟨before, c, after, order, earlier, fault⟩ := mapM_eq_error_iff.1 failed
  rcases classResult_eq_error_iff.1 fault with ⟨every, empty, rfl⟩ | ⟨nothing, rfl⟩
  · exact .inl ⟨c, every, empty, _, rfl, rfl⟩
  · obtain ⟨e, he, emptied⟩ := (nil_mem_pointsOf_iff h).1 nothing
    exact .inr ⟨rfl,
      .intro order (fun d hd => (exists_classResult_iff h).1 (earlier d hd)) he emptied⟩

theorem mapM_classResult_eq_error {entries : List Entry} (h : classify entries = .ok placed)
    (hollow : Hollow settings entries placed) :
    Class.all.mapM (classResult settings placed) = .error .emptySequence := by
  cases hollow with
  | @intro before after c e order earlier he emptied =>
    have nothing : [] ∈ pointsOf placed c := (nil_mem_pointsOf_iff h).2 ⟨e, he, emptied⟩
    exact mapM_eq_error_iff.2 ⟨before, c, after, order,
      fun d hd => (exists_classResult_iff h).2 (earlier d hd),
      classResult_eq_error_iff.2 (.inr ⟨nothing, rfl⟩)⟩

theorem fails_tableResult (h : ∀ i ∈ items, i.Documented) :
    FailsWith (fun f => (∃ key, f.Names key ∧ Offends settings items key) ∨
      f.family = .value ∧ Escapes settings items) (tableResult settings items) := by
  unfold tableResult
  refine FailsWith.bind (fun f failed => ?_) fun entries read => ?_
  · rcases fails_tableEntries h f failed with ⟨key, names, i, hi, unreadable⟩ | ⟨rfl, overlong⟩
    · exact .inl ⟨key, names, .row hi unreadable⟩
    · exact .inr ⟨rfl, .overlong overlong⟩
  refine FailsWith.bind (fun f failed => ?_) fun placed sorted => ?_
  · rcases fails_classify entries f failed with ⟨e, he, faulty, names⟩ | ⟨value, misnumbered⟩
    · exact .inl ⟨e.key, names, .entry read he faulty⟩
    · exact .inr ⟨value, .number read misnumbered⟩
  refine FailsWith.bind (fun f failed => ?_) fun patterns _ => ?_
  · rcases fails_mapM_classResult sorted f failed with
      ⟨c, every, empty, names⟩ | ⟨value, hollow⟩
    · exact .inl ⟨c.name, names, .missing read sorted every empty⟩
    · exact .inr ⟨value, .hollow read sorted hollow⟩
  obtain ⟨a, auxiliary, -⟩ := Auxiliary.exists_of settings.flavor
  rw [auxiliary]
  exact .ok _ _

theorem tableResult_eq_error (h : Escapes settings items) (shape : ∀ i ∈ items, i.Documented) :
    ∃ f, tableResult settings items = .error f ∧ f.family = .value := by
  unfold tableResult
  cases h with
  | overlong overlong =>
    exact ⟨_, bind_eq_error.2 (.inl (overlong.tableEntries_eq_error shape)), rfl⟩
  | number read misnumbered =>
    obtain ⟨f, failed, value⟩ := misnumbered.classify_eq_error
    exact ⟨f, bind_eq_error.2 (.inr ⟨_, read, bind_eq_error.2 (.inl failed)⟩), value⟩
  | hollow read sorted hollow =>
    refine ⟨.emptySequence, bind_eq_error.2 (.inr ⟨_, read, ?_⟩), rfl⟩
    refine bind_eq_error.2 (.inr ⟨_, sorted, ?_⟩)
    exact bind_eq_error.2 (.inl (mapM_classResult_eq_error sorted hollow))

def Minor (e : Log.Event) : Prop := e.level = Log.Level.debug ∨ e.level = Log.Level.warning

def KeepsMinor {α : Type} (x : Logged α) : Prop :=
  ∀ events, (∀ e ∈ events, Minor e) → ∀ e ∈ (x.run events).2, Minor e

variable {α β : Type}

theorem keepsMinor_pure (a : α) : KeepsMinor (pure a) := fun _ h => h

theorem keepsMinor_throw (f : Fault) : KeepsMinor (throw f : Logged α) := fun _ h => h

theorem keepsMinor_lift (r : Except Fault α) : KeepsMinor (classified.liftExcept r) := fun _ h => h

theorem keepsMinor_log {e : Log.Event} (h : Minor e) : KeepsMinor (Logged.log e) := by
  intro events minor e' he'
  have run : (Logged.log e).run events = (.ok (), events ++ [e]) := rfl
  rw [run] at he'
  rcases List.mem_append.1 he' with he' | he'
  · exact minor e' he'
  · rwa [List.mem_singleton.1 he']

theorem KeepsMinor.bind {x : Logged α} {g : α → Logged β} (hx : KeepsMinor x)
    (hg : ∀ a, KeepsMinor (g a)) : KeepsMinor (x >>= g) := by
  intro events minor
  have first : ∀ e ∈ (x events).2, Minor e := hx events minor
  have step : (x >>= g).run events = ExceptT.bindCont g (x events).1 (x events).2 := rfl
  rw [step]
  cases (x events).1 with
  | error f => exact first
  | ok a => exact hg a _ first

theorem KeepsMinor.mapM {g : α → Logged β} (h : ∀ a, KeepsMinor (g a)) (l : List α) :
    KeepsMinor (l.mapM g) := by
  induction l with
  | nil => exact keepsMinor_pure []
  | cons a l ih =>
    rw [List.mapM_cons]
    exact (h a).bind fun b => ih.bind fun rest => keepsMinor_pure (b :: rest)

theorem keepsMinor_classPattern (settings : CompilerSettings) (placed : List Placed) (c : Class) :
    KeepsMinor (classPattern settings placed c) := by
  unfold classPattern
  split
  · split
    · exact keepsMinor_throw _
    · exact (keepsMinor_log (.inr rfl)).bind fun _ => keepsMinor_pure none
  · split
    · exact keepsMinor_pure _
    · exact keepsMinor_throw _

theorem keepsMinor_pattern (settings : CompilerSettings) (items : List TableItem) :
    KeepsMinor (pattern settings items) := by
  unfold pattern
  refine KeepsMinor.bind ?_ fun placed => ?_
  · unfold classified
    refine (keepsMinor_lift _).bind fun entries => (keepsMinor_lift _).bind fun placed => ?_
    exact (keepsMinor_log (.inl rfl)).bind fun _ => keepsMinor_pure placed
  · refine (KeepsMinor.mapM (keepsMinor_classPattern settings placed) _).bind fun patterns => ?_
    split
    · exact keepsMinor_pure _
    · exact keepsMinor_throw _

theorem exists_run_pattern (settings : CompilerSettings) (items : List TableItem) :
    ∃ log, (pattern settings items).run [] = (tableResult settings items, log) ∧
      ∀ e ∈ log, Minor e := by
  refine ⟨((pattern settings items).run []).2, ?_, ?_⟩
  · exact Prod.ext (yields_pattern settings items []) rfl
  · exact keepsMinor_pattern settings items [] (by simp)

end Compile

open Compile

theorem eventsAt_append {log : List Log.Event} (minor : ∀ e ∈ log, Minor e) (last : Log.Event)
    {result : Except Fault CompiledPattern} {counted : Option Outcome} {level : Log.Level}
    (major : level ≠ Log.Level.debug ∧ level ≠ Log.Level.warning) :
    Compilation.eventsAt ⟨result, log ++ [last], counted⟩ level =
      if last.level = level then [last] else [] := by
  have none : log.filter (·.level = level) = [] := by
    rw [List.filter_eq_nil_iff]
    intro e he same
    rw [decide_eq_true_eq] at same
    rcases minor e he with debug | warning
    · exact major.1 (same ▸ debug)
    · exact major.2 (same ▸ warning)
  rw [Compilation.eventsAt, List.filter_append, none, List.nil_append]
  by_cases same : last.level = level <;> simp [same]

/-- Where nothing but faults with keys that are to blame can happen, a run is disciplined. -/
theorem disciplined_of_fails {blamed : Text → Prop}
    (names : FailsWith (fun f => ∃ key, f.Names key ∧ blamed key) (tableResult settings items)) :
    (compile settings items).Disciplined blamed := by
  obtain ⟨log, run, minor⟩ := exists_run_pattern settings items
  unfold compile
  rw [run]
  cases result : tableResult settings items with
  | ok c =>
    exact .pattern rfl rfl ⟨_, eventsAt_append minor _ (by decide)⟩
      (eventsAt_append minor _ (by decide))
  | error f =>
    obtain ⟨key, ⟨t, rfl, rfl⟩, blame⟩ := names f result
    exact .fault rfl blame rfl
      ⟨_, eventsAt_append minor _ (by decide), lookup_setMember_self _ _ _⟩
      (eventsAt_append minor _ (by decide))

/-- Runs over documented rows are disciplined but for the tables whose faults escape. -/
theorem disciplined_iff (h : ∀ i ∈ items, i.Documented) :
    (compile settings items).Disciplined (Offends settings items) ↔ ¬ Escapes settings items := by
  constructor
  · intro disciplined escapes
    -- A run that ends with a fault of another family neither counts nor names anything.
    obtain ⟨f, failed, value⟩ := tableResult_eq_error escapes h
    have result := (result_compile settings items).trans failed
    cases disciplined with
    | pattern ok => cases result.symm.trans ok
    | fault error =>
      cases result.symm.trans error
      cases value
  · intro caught
    refine disciplined_of_fails ((fails_tableResult h).mono fun f named => ?_)
    exact named.resolve_right fun escaped => caught escaped.2

def bareKeycap : List TableItem :=
  [.loose (.object [(codes "unicode", .text (codes "20e3")),
    (codes "type", .text (codes "keycap"))])]

/-- Nothing is left of it, and no key is named. -/
theorem bareKeycap_not_disciplined : (∀ i ∈ bareKeycap, i.Documented) ∧
    ¬ (compile ⟨.points, false⟩ bareKeycap).Disciplined (Offends ⟨.points, false⟩ bareKeycap) := by
  have documented : ∀ i ∈ bareKeycap, i.Documented := by
    intro i hi
    rw [List.mem_singleton.1 hi]
    exact .row rfl
      { points := .inl ⟨_, rfl⟩
        kind := .inr ⟨_, rfl⟩
        sameTone := .inl rfl
        twoTones := .inl rfl
        keywords := .inl (.inl rfl) }
  have read : tableEntries bareKeycap = .ok [.bare [keycap] .keycap] := rfl
  have sorted : classify [.bare [keycap] .keycap] = .ok [⟨.keycap, ⟨[], true⟩⟩] := by decide
  have hollow : Hollow ⟨.points, false⟩ [.bare [keycap] .keycap] [⟨.keycap, ⟨[], true⟩⟩] := by
    refine @Hollow.intro _ _ _ (Class.all.take 5) _ .keycap _ rfl
      (fun d hd => ⟨nofun, fun e he emptied => ?_⟩) (List.mem_singleton_self _)
      (.keycap rfl fun p hp => .inl (List.mem_singleton.1 hp))
    have missing : ∀ d ∈ Class.all.take 5, sequencesOf [⟨.keycap, ⟨[], true⟩⟩] d = [] := by decide
    obtain ⟨s, hs, -⟩ := (nil_mem_pointsOf_iff sorted).2 ⟨e, he, emptied⟩
    rw [missing d hd] at hs
    cases hs
  refine ⟨documented, fun disciplined => ?_⟩
  exact (disciplined_iff documented).1 disciplined (.hollow read sorted hollow)

end Pictograph
